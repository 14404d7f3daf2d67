import Mathlib
import Stylesheet.Compilation
import Stylesheet.Proofs.Assembly.Renumbering
import Stylesheet.Proofs.SilentComment

/-!
# Lines that do not count

A blank line, or one that starts with two slashes, can be put anywhere between the lines of a
template. The stylesheet stays the same in every style, and so do the constants; the numbers of the
lines after it are one greater, wherever such a number is kept or shown.

Only the numbers of the template's own lines are shifted, not those of imported files or of mixins
that were there before. To say which are which, the template is traced: it is assembled with its
own lines under odd numbers that are not positive, and all others under numbers that are even or
positive. Both templates come to what the traced one comes to, each under its numbers.

* `Node.render_renumber` : rendering never looks at numbers.
* `compileTemplate_eq_traced` : a template that keeps the same lines under other numbers.
* `compileTemplate_with_dropped_line` : a template with a line more that does not count.
-/

namespace Stylesheet

open Line Assembly

variable {f : Int → Int}

/-! ## Rendering under other numbers -/

/-- Renumbering keeps the texts. -/
theorem Line.map_text_flattenAll_renumberAll : ∀ lines : List Line,
    (flattenAll (renumberAll f lines)).map (·.text) = (flattenAll lines).map (·.text)
  | [] => by simp
  | ⟨text, depth, index, children⟩ :: rest => by
    rw [renumberAll_cons, renumber, flattenAll_cons, flattenAll_cons, List.map_cons, List.map_append,
      map_text_flattenAll_renumberAll children, map_text_flattenAll_renumberAll rest]
    simp

namespace Block

theorem comment?_renumber (text : String) (visible : Bool) (lines : List Line) :
    comment? text visible (renumberAll f lines) = comment? text visible lines := by
  simp [comment?, map_text_flattenAll_renumberAll]

mutual

/-- Renumbered nodes declare the same, and are refused at the renumbered line. -/
theorem declarations_renumber (stem : String) : ∀ node : Node,
    declarations stem (node.renumber f) = renumbered f id (declarations stem node)
  | ⟨content, line, filename, children⟩ => by
    rw [Node.renumber_mk]
    cases content with
    | attr name value =>
        show declarations stem ⟨.attr name value, _, _, _⟩ = _
        rw [declarations, declarations]
        exact renumbered_bind (allDeclarations_renumber _ children) fun rest => rfl
    | _ => rfl

theorem allDeclarations_renumber (stem : String) : ∀ nodes : List Node,
    allDeclarations stem (Node.renumberAll f nodes) = renumbered f id (allDeclarations stem nodes)
  | [] => by
    rw [Node.renumberAll_nil]
    rfl
  | node :: nodes => by
    rw [Node.renumberAll_cons, allDeclarations, allDeclarations]
    refine renumbered_bind (declarations_renumber stem node) fun first => ?_
    exact renumbered_bind (allDeclarations_renumber stem nodes) fun rest => rfl

end

/-- A renumbered forest has the same body, or the refusal renumbered. -/
theorem bodyOf_renumber (nodes : List Node) :
    bodyOf (Node.renumberAll f nodes) = renumbered f id (bodyOf nodes) := by
  induction nodes with
  | nil =>
      rw [Node.renumberAll_nil]
      rfl
  | cons node nodes ih =>
      -- the rest of the body follows whatever the first node comes to
      have hrest : ∀ {x x' : Except Diagnostic (List BodyEntry)}, x' = renumbered f id x →
          (do let first ← x'; pure (first ++ (← bodyOf (Node.renumberAll f nodes)))) =
            renumbered f id (do let first ← x; pure (first ++ (← bodyOf nodes))) :=
        fun hx => renumbered_bind hx fun first => renumbered_bind ih fun rest => rfl
      rw [Node.renumberAll_cons, bodyOf, bodyOf, Node.renumber_content]
      cases node.content with
      | attr name value => exact hrest (declarations_renumber "" node)
      | comment text visible lines =>
          simp only [Content.renumber, comment?_renumber]
          exact hrest rfl
      | _ => exact hrest rfl

mutual

/-- A renumbered node has the same blocks, or the refusal renumbered. -/
theorem ofNode_renumber (parents : Option (List (List Char))) : ∀ node : Node,
    ofNode parents (node.renumber f) = renumbered f id (ofNode parents node)
  | ⟨content, line, filename, children⟩ => by
    rw [Node.renumber_mk]
    cases content with
    | rule selectors =>
        show ofNode parents ⟨.rule selectors, _, _, _⟩ = _
        rw [ofNode, ofNode]
        cases Selector.resolve parents selectors.rules with
        | error fault => rfl
        | ok resolved =>
            simp only [pure_bind]
            refine renumbered_bind (bodyOf_renumber children) fun body => ?_
            exact renumbered_bind (nestedIn_renumber (some resolved) children) fun nested => rfl
    | comment text visible lines =>
        simp only [Content.renumber, ofNode, comment?_renumber]
        rfl
    | directive text =>
        show ofNode parents ⟨.directive text, _, _, _⟩ = _
        rw [ofNode, ofNode, Node.isEmpty_renumberAll]
        split
        · rfl
        · refine renumbered_bind (bodyOf_renumber children) fun body => ?_
          exact renumbered_bind (nestedIn_renumber none children) fun nested => rfl
    | attr name value => rfl
    | root => rfl

theorem nestedIn_renumber (parents : Option (List (List Char))) : ∀ nodes : List Node,
    nestedIn parents (Node.renumberAll f nodes) = renumbered f id (nestedIn parents nodes)
  | [] => by
    rw [Node.renumberAll_nil]
    rfl
  | node :: nodes => by
    have hrest : ∀ {x x' : Except Diagnostic (List Block)}, x' = renumbered f id x →
        (do let first ← x'; pure (first ++ (← nestedIn parents (Node.renumberAll f nodes)))) =
          renumbered f id (do let first ← x; pure (first ++ (← nestedIn parents nodes))) :=
      fun hx => renumbered_bind hx fun first =>
        renumbered_bind (nestedIn_renumber parents nodes) fun rest => rfl
    rw [Node.renumberAll_cons, nestedIn, nestedIn, Node.renumber_content]
    cases node.content with
    | attr name value => exact hrest rfl
    | comment text visible lines => exact hrest rfl
    | _ => exact hrest (ofNode_renumber parents node)

end

theorem ofNodes_renumber (nodes : List Node) :
    ofNodes (Node.renumberAll f nodes) = renumbered f id (ofNodes nodes) := by
  induction nodes with
  | nil =>
      rw [Node.renumberAll_nil]
      rfl
  | cons node nodes ih =>
      rw [Node.renumberAll_cons, ofNodes, ofNodes]
      refine renumbered_bind (ofNode_renumber none node) fun first => ?_
      exact renumbered_bind ih fun rest => rfl

end Block

/-- A tree under other numbers is rendered to the same text or refused for the same fault. -/
theorem Node.render_renumber (style : Style) (tree : Node) :
    (tree.renumber f).render style = renumbered f id (tree.render style) := by
  unfold Node.render
  rw [Node.renumber_children]
  exact renumbered_bind (Block.ofNodes_renumber tree.children) fun blocks => rfl

/-- The rendering of a tree that has been assembled, with the state that the assembly left. -/
def renderedOutcome (options : Options) :
    Except Failure Node × State → Except Failure String × State
  | (.ok tree, after) => (renderAssembled options tree, after)
  | (.error failure, after) => (.error failure, after)

/-- Compiling is assembling and rendering what was assembled. -/
theorem compileTemplate_eq (options : Options) (disk : Disk) (template : String) (state : State) :
    compileTemplate options disk template state =
      renderedOutcome options (assembleTemplate options disk template state) := by
  unfold compileTemplate
  rcases assembleTemplate options disk template state with ⟨failure | tree, after⟩ <;> rfl

/-- Rendering commutes with a renumbering of the outcome. -/
theorem renderedOutcome_renumber (options : Options) (result : Except Failure Node × State) :
    renderedOutcome options (renumberedOutcome f (Node.renumber f) result) =
      renumberedOutcome f id (renderedOutcome options result) := by
  obtain ⟨failure | tree, after⟩ := result
  · rfl
  · simp only [renumberedOutcome, renderedOutcome, renderAssembled, Node.render_renumber]
    cases tree.render options.style with
    | ok css => rfl
    | error d =>
        -- the file of the diagnostic decides which file it passes through, not its line
        simp only [renumbered_error]
        exact congrArg (fun d' => (Except.error (Failure.refused d'), after.renumber f))
          (d.renumber_through _ none).symm

/-! ## Traced templates -/

/-- The number under which a line of the template itself is traced. -/
def ownNumber (n : Int) : Int :=
  1 - 2 * n

def otherNumber (n : Int) : Int :=
  if 0 < n then n else 2 * n

/-- The number of a traced line, where `place` says where the template's own lines stand. -/
def untraced (place : Int → Int) (n : Int) : Int :=
  if 0 < n then n else if n % 2 = 0 then n / 2 else place ((1 - n) / 2)

/-- A number of the template's own is taken to its place. -/
theorem untraced_ownNumber (place : Int → Int) {n : Int} (hn : 0 < n) :
    untraced place (ownNumber n) = place n := by
  have hhalf : (1 - (1 - 2 * n)) / 2 = n := by omega
  unfold untraced ownNumber
  rw [if_neg (by omega), if_neg (by omega), hhalf]

theorem untraced_otherNumber (place : Int → Int) (n : Int) :
    untraced place (otherNumber n) = n := by
  unfold untraced otherNumber
  by_cases hn : 0 < n
  · rw [if_pos hn, if_pos hn]
  · rw [if_neg hn, if_neg (by omega), if_pos (by omega)]
    omega

theorem untraced_fixes (place : Int → Int) : FixesCounted (untraced place) := by
  intro n hn
  exact if_pos hn

/-- A template assembled in such a way that the numbers of its own lines can be told from those of
all other lines. -/
def traceTemplate (options : Options) (disk : Disk) (template : String) (state : State := {})
    (limit : Nat := nestingLimit) : Except Failure Node × State :=
  (parsedDocument (assemble limit) { options, disk }
    (renumbered ownNumber (renumberAll ownNumber) (parseLines template.toList))).outcome
      (state.renumber otherNumber)

theorem State.untraced_renumber (place : Int → Int) (s : State) :
    (s.renumber otherNumber).renumber (untraced place) = s := by
  have hid : untraced place ∘ otherNumber = id := by
    funext n
    exact untraced_otherNumber place n
  have hlines : ∀ lines : List Line, renumberAll id lines = lines :=
    fun lines => renumberAll_eq_self fun _ _ => rfl
  rw [State.renumber_renumber, hid]
  simp [State.renumber, hlines]

/-- A template that keeps the same lines in other places comes to what the traced template comes
to, its own lines being where they are. -/
theorem assembleTemplate_eq_traced {options : Options} {disk : Disk} {template template' : String}
    {state : State} {limit : Nat} {g : Nat → Nat} {place : Int → Int}
    (hkept : keptLines template'.toList = renumberKept g (keptLines template.toList))
    (hplace : Agree place g (keptLines template.toList)) :
    assembleTemplate options disk template' state limit =
      renumberedOutcome (untraced place) (Node.renumber (untraced place))
        (traceTemplate options disk template state limit) := by
  have hown : parseLines template'.toList =
      renumbered (untraced place) (renumberAll (untraced place))
        (renumbered ownNumber (renumberAll ownNumber) (parseLines template.toList)) := by
    have hcomp : renumberAll (untraced place) ∘ renumberAll ownNumber =
        renumberAll (untraced place ∘ ownNumber) := funext renumberAll_renumberAll
    rw [renumbered_renumbered, hcomp]
    refine parseLines_renumber hkept fun line hline => ?_
    have hcounted := one_le_of_mem_keptLines hline
    rw [hplace line hline, Function.comp_apply, untraced_ownNumber place (by omega)]
  have hcommutes := parsedDocument_commutes (untraced_fixes place) { options, disk } limit
    (renumbered ownNumber (renumberAll ownNumber) (parseLines template.toList))
    (state.renumber otherNumber)
  rw [← hown, State.untraced_renumber, ← document_eq] at hcommutes
  exact hcommutes

/-- The stylesheet of a template that keeps the same lines in other places. -/
theorem compileTemplate_eq_traced {template template' : String} (options : Options) (disk : Disk)
    (state : State) {g : Nat → Nat} {place : Int → Int}
    (hkept : keptLines template'.toList = renumberKept g (keptLines template.toList))
    (hplace : Agree place g (keptLines template.toList)) :
    compileTemplate options disk template' state =
      renumberedOutcome (untraced place) id
        (renderedOutcome options (traceTemplate options disk template state)) := by
  rw [compileTemplate_eq, assembleTemplate_eq_traced hkept hplace, renderedOutcome_renumber]

/-! ## A line more -/

/-- The number of a line after another line has been put in after the first `count` lines. -/
def shiftedAfter (count : Nat) (n : Int) : Int :=
  if (count : Int) < n then n + 1 else n

/-- A dropped line leaves the kept ones as they are, with the later ones one further down. -/
theorem keptLines_with_dropped_line {template longer : List Char} {dropped : List Char}
    {before following : List (List Char)} (hlines : physicalLines template = before ++ following)
    (hlonger : physicalLines longer = before ++ dropped :: following)
    (hdropped : isKept dropped = false) :
    keptLines longer =
      renumberKept (fun n => if before.length < n then n + 1 else n) (keptLines template) := by
  -- the lines before it keep their numbers, those after it are counted one further
  have hbefore : ∀ line ∈ (before.zipIdx 1).filter (fun line => isKept line.1),
      (line.1, if before.length < line.2 then line.2 + 1 else line.2) = line := by
    intro line hline
    have hlt := List.snd_lt_add_of_mem_zipIdx (List.mem_of_mem_filter hline)
    rw [if_neg (by omega)]
  have hafter : ∀ line ∈ (following.zipIdx (1 + before.length)).filter (fun line => isKept line.1),
      (line.1, if before.length < line.2 then line.2 + 1 else line.2) =
        (line.1, line.2 + 1) := by
    intro line hline
    have hle := List.le_snd_of_mem_zipIdx (List.mem_of_mem_filter hline)
    rw [if_pos (by omega)]
  unfold keptLines renumberKept
  rw [hlines, hlonger, List.zipIdx_append, List.zipIdx_append, List.zipIdx_cons, List.filter_append,
    List.filter_append, List.filter_cons_of_neg (by simp [hdropped]), List.map_append,
    List.map_congr_left hbefore, List.map_congr_left hafter, List.map_id',
    show following.zipIdx (1 + before.length + 1) =
      (following.zipIdx (1 + before.length)).map fun line => (line.1, line.2 + 1) from
        List.zipIdx_succ, List.filter_map]
  rfl

/-- **Lines that do not count never change the stylesheet.** A template with a line more that is
blank or starts with two slashes comes to what the template comes to without it, in every style:
both come to what the traced template comes to, each with its own lines where they are. So the trees,
the failures and the mixins differ only in the numbers of the template's own lines after the one
that was put in, which are one greater, and the text of the stylesheet, the constants and the log
do not differ at all. -/
theorem compileTemplate_with_dropped_line (options : Options) (disk : Disk) (state : State)
    {template longer : String} {dropped : List Char} {before following : List (List Char)}
    (hlines : physicalLines template.toList = before ++ following)
    (hlonger : physicalLines longer.toList = before ++ dropped :: following)
    (hdropped : isKept dropped = false) :
    let traced := traceTemplate options disk template state
    let here := untraced id
    let shifted := untraced (shiftedAfter before.length)
    assembleTemplate options disk template state =
        renumberedOutcome here (Node.renumber here) traced ∧
      assembleTemplate options disk longer state =
        renumberedOutcome shifted (Node.renumber shifted) traced ∧
      compileTemplate options disk template state =
        renumberedOutcome here id (renderedOutcome options traced) ∧
      compileTemplate options disk longer state =
        renumberedOutcome shifted id (renderedOutcome options traced) ∧
      (∀ css, (compileTemplate options disk longer state).1 = .ok css ↔
        (compileTemplate options disk template state).1 = .ok css) ∧
      (compileTemplate options disk longer state).2.constants =
        (compileTemplate options disk template state).2.constants ∧
      (compileTemplate options disk longer state).2.events =
        (compileTemplate options disk template state).2.events := by
  intro traced here shifted
  have hkept : keptLines template.toList = renumberKept id (keptLines template.toList) := by
    simp [renumberKept]
  have hplace : Agree id id (keptLines template.toList) := fun _ _ => rfl
  have hkept' := keptLines_with_dropped_line hlines hlonger hdropped
  have hplace' : Agree (shiftedAfter before.length)
      (fun n => if before.length < n then n + 1 else n) (keptLines template.toList) := by
    intro line _
    dsimp only [shiftedAfter]
    by_cases hafter : before.length < line.2
    · rw [if_pos hafter, if_pos (by omega)]
      rfl
    · rw [if_neg hafter, if_neg (by omega)]
  have hcss := compileTemplate_eq_traced options disk state hkept hplace
  have hcss' := compileTemplate_eq_traced options disk state hkept' hplace'
  refine ⟨assembleTemplate_eq_traced hkept hplace, assembleTemplate_eq_traced hkept' hplace', hcss,
    hcss', ?_⟩
  rw [hcss, hcss']
  rcases renderedOutcome options (traceTemplate options disk template state) with
    ⟨failure | css, after⟩
  · simp [renumberedOutcome]
  · simp [renumberedOutcome]

/-- A blank line and a comment in front of a line at fault, in a template that imports a file with
a mixin. The fault is found one line further down; the lines of the imported file stay where they
are. -/
theorem compileTemplate_with_blank_line :
    let disk := Disk.ofKnown [("./_f.sass", .ok [61, 109, 10, 32, 58, 112, 32, 113])]
    let template := "@import f\na\n  +m\n=n\n  b\nc\n  :d= !x"
    let longer := "@import f\n   \na\n  +m\n=n\n  b\nc\n  :d= !x"
    let before := ["@import f".toList]
    let following := ["a".toList, "  +m".toList, "=n".toList, "  b".toList, "c".toList,
      "  :d= !x".toList]
    physicalLines template.toList = before ++ following ∧
      physicalLines longer.toList = before ++ "   ".toList :: following ∧
      isKept "   ".toList = false ∧
      (traceTemplate {} disk template).1 = .error (.refused
        ⟨.undefinedConstant "x", some (-13), none, [⟨none, some (-13)⟩]⟩) ∧
      compileTemplate {} disk template = (.error (.refused
          ⟨.undefinedConstant "x", some 7, none, [⟨none, some 7⟩]⟩),
        { mixins := ⟨[("m", [⟨":p q", 1, 2, []⟩]), ("n", [⟨"b", 1, 5, []⟩])]⟩,
          events := [.importing "./_f.sass" none, .resolved "f" "./_f.sass"] }) ∧
      compileTemplate {} disk longer = (.error (.refused
          ⟨.undefinedConstant "x", some 8, none, [⟨none, some 8⟩]⟩),
        { mixins := ⟨[("m", [⟨":p q", 1, 2, []⟩]), ("n", [⟨"b", 1, 6, []⟩])]⟩,
          events := [.importing "./_f.sass" none, .resolved "f" "./_f.sass"] }) := by
  intro disk template longer before following
  have hlines : physicalLines template.toList = before ++ following := by
    dsimp only [template, before, following]
    cbv
  have hlonger : physicalLines longer.toList = before ++ "   ".toList :: following := by
    dsimp only [longer, before, following]
    cbv
  have hdropped : isKept "   ".toList = false := by cbv
  have htraced : traceTemplate {} disk template = (.error (.refused
        ⟨.undefinedConstant "x", some (-13), none, [⟨none, some (-13)⟩]⟩),
      { mixins := ⟨[("m", [⟨":p q", 1, 2, []⟩]), ("n", [⟨"b", 1, -9, []⟩])]⟩,
        events := [.importing "./_f.sass" none, .resolved "f" "./_f.sass"] }) := by
    dsimp only [disk, template]
    cbv
  obtain ⟨-, -, hcss, hcss', -⟩ := compileTemplate_with_dropped_line {} disk {}
    hlines hlonger hdropped
  rw [htraced] at hcss hcss'
  exact ⟨hlines, hlonger, hdropped, by rw [htraced], hcss, hcss'⟩

end Stylesheet
