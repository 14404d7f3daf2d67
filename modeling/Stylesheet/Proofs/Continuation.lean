import Mathlib
import Stylesheet.Compilation
import Stylesheet.Proofs.Line.Continuation
import Stylesheet.Proofs.SilentComment

/-!
# Selector lists over several lines, as stylesheets

Two trees that are written in the same way are rendered to the same text, or refused for the same fault.
So a template in which a selector list is broken over lines comes to the stylesheet of the template with
the list in one line: the assembly of the one joins what the rendering of the other takes apart.

* `Block.ofNodes_alike` : the blocks of trees that are written in the same way.
* `sameList_of_pieces` : when a list in one line and over several lines is the same.
* `compileTemplate_with_broken_list` : both templates.
-/

namespace Stylesheet

open Line

/-! ## Rendering -/

/-- Steps of which each comes to the same with the same cause of failure. -/
theorem mapError_bind {ε ε' α β : Type} {g : ε → ε'} {x x' : Except ε α} {f f' : α → Except ε β}
    (hx : x.mapError g = x'.mapError g) (hf : ∀ a, (f a).mapError g = (f' a).mapError g) :
    (x >>= f).mapError g = (x' >>= f').mapError g := by
  cases x with
  | error e =>
      cases x' with
      | error e' => exact congrArg Except.error (Except.error.inj hx)
      | ok a' => cases hx
  | ok a =>
      cases x' with
      | error e' => cases hx
      | ok a' =>
          obtain rfl : a = a' := Except.ok.inj hx
          exact hf a

/-- The same result, or the same fault at any place. -/
def SameFault {α : Type} (x x' : Except Diagnostic α) : Prop :=
  x.mapError (·.fault) = x'.mapError (·.fault)

namespace Block

variable {content content' : Content} {line line' : Option Int} {filename filename' : Option String}
  {children children' nodes nodes' : List Node}

/-- The declarations of nodes written alike are the same, or are refused for the same reason. -/
theorem declarations_alike (hc : content.WrittenAlike content')
    (hch : ∀ stem, SameFault (allDeclarations stem children) (allDeclarations stem children'))
    (stem : String) :
    SameFault (declarations stem ⟨content, line, filename, children⟩)
      (declarations stem ⟨content', line', filename', children'⟩) := by
  cases hc with
  | rule _ _ => rfl
  | comment _ => rfl
  | same =>
      cases content with
      | attr name value =>
          rw [declarations, declarations]
          exact mapError_bind (hch _) fun _ => rfl
      | _ => rfl

theorem allDeclarations_alike (h : Node.WrittenAlike nodes nodes') :
    ∀ stem, SameFault (allDeclarations stem nodes) (allDeclarations stem nodes') := by
  induction h with
  | nil => exact fun _ => rfl
  | cons hc _ _ ihch ihrest =>
      intro stem
      rw [allDeclarations, allDeclarations]
      exact mapError_bind (declarations_alike hc ihch stem) fun _ =>
        mapError_bind (ihrest stem) fun _ => rfl

/-- A comment is shown with the texts of the lines that it keeps. -/
theorem comment?_alike {lines lines' : List Line}
    (h : (flattenAll lines).map (·.text) = (flattenAll lines').map (·.text)) (text : String)
    (visible : Bool) : comment? text visible lines = comment? text visible lines' := by
  unfold comment?
  rw [h]

/-- The bodies of forests written alike are the same, or are refused for the same reason. -/
theorem bodyOf_alike (h : Node.WrittenAlike nodes nodes') :
    SameFault (bodyOf nodes) (bodyOf nodes') := by
  induction h with
  | nil => rfl
  | @cons content _ _ _ _ _ _ _ _ _ hc hch _ _ ihrest =>
      have hrest : ∀ first : List BodyEntry, SameFault (do pure (first ++ (← bodyOf _)))
          (do pure (first ++ (← bodyOf _))) := fun first => mapError_bind ihrest fun _ => rfl
      rw [bodyOf, bodyOf]
      cases hc with
      | rule _ _ => exact mapError_bind rfl hrest
      | comment htexts =>
          dsimp only
          rw [comment?_alike htexts]
          exact mapError_bind rfl hrest
      | same =>
          cases content with
          | attr name value =>
              exact mapError_bind
                (declarations_alike (.same _) (allDeclarations_alike hch) "") hrest
          | _ => exact mapError_bind rfl hrest

/-- Rules with the same selectors of their own have the same selectors in the same rule. -/
theorem resolve_alike {own own' : List String} (h : Selector.ofLines own = Selector.ofLines own')
    (parents : Option (List (List Char))) :
    Selector.resolve parents own = Selector.resolve parents own' := by
  unfold Selector.resolve
  rw [h]

/-- The blocks of nodes written alike are the same, or are refused for the same reason. -/
theorem ofNode_alike (hc : content.WrittenAlike content')
    (hch : Node.WrittenAlike children children')
    (hnested : ∀ parents, SameFault (nestedIn parents children) (nestedIn parents children'))
    (parents : Option (List (List Char))) :
    SameFault (ofNode parents ⟨content, line, filename, children⟩)
      (ofNode parents ⟨content', line', filename', children'⟩) := by
  have hrule : ∀ {own own' : SelectorList}, Selector.ofLines own.rules = Selector.ofLines own'.rules →
      SameFault (ofNode parents ⟨.rule own, line, filename, children⟩)
        (ofNode parents ⟨.rule own', line', filename', children'⟩) := by
    intro own own' hown
    rw [ofNode, ofNode, resolve_alike hown]
    cases Selector.resolve parents own'.rules with
    | error fault => rfl
    | ok resolved =>
        exact mapError_bind rfl fun _ => mapError_bind (bodyOf_alike hch) fun _ =>
          mapError_bind (hnested _) fun _ => rfl
  cases hc with
  | rule hown _ => exact hrule hown
  | comment htexts =>
      rw [ofNode, ofNode, comment?_alike htexts]
      rfl
  | same =>
      cases content with
      | rule own => exact hrule rfl
      | directive text =>
          -- only a directive with nothing beneath it is a statement
          rw [ofNode, ofNode, hch.isEmpty_eq]
          split
          · rfl
          · exact mapError_bind (bodyOf_alike hch) fun _ => mapError_bind (hnested _) fun _ => rfl
      | _ => rfl

theorem nestedIn_alike (h : Node.WrittenAlike nodes nodes') :
    ∀ parents, SameFault (nestedIn parents nodes) (nestedIn parents nodes') := by
  induction h with
  | nil => exact fun _ => rfl
  | @cons content _ _ _ _ _ children children' _ _ hc hch _ ihch ihrest =>
      intro parents
      have hrest : ∀ first : List Block, SameFault (do pure (first ++ (← nestedIn parents _)))
          (do pure (first ++ (← nestedIn parents _))) :=
        fun first => mapError_bind (ihrest parents) fun _ => rfl
      have hnode : ∀ {line line' filename filename'}, SameFault
          (ofNode parents ⟨content, line, filename, children⟩)
          (ofNode parents ⟨_, line', filename', children'⟩) := ofNode_alike hc hch ihch parents
      rw [nestedIn, nestedIn]
      cases hc with
      | rule _ _ => exact mapError_bind hnode hrest
      | comment _ => exact mapError_bind rfl hrest
      | same =>
          cases content with
          | attr _ _ => exact mapError_bind rfl hrest
          | comment _ _ _ => exact mapError_bind rfl hrest
          | _ => exact mapError_bind hnode hrest

/-- Trees that are written in the same way have the same blocks, or the same fault. -/
theorem ofNodes_alike (h : Node.WrittenAlike nodes nodes') :
    SameFault (ofNodes nodes) (ofNodes nodes') := by
  induction h with
  | nil => rfl
  | cons hc hch _ _ ihrest =>
      rw [ofNodes, ofNodes]
      exact mapError_bind (ofNode_alike hc hch (nestedIn_alike hch) none) fun _ =>
        mapError_bind ihrest fun _ => rfl

end Block

/-- Templates that are parsed alike come to the same stylesheet in every style, or they fail for the
same reason, told at any place. -/
theorem compileTemplate_of_brokenParses (options : Options) (disk : Disk) (state : State)
    {template broken : String}
    (h : BrokenParses (parseLines template.toList) (parseLines broken.toList)) :
    (compileTemplate options disk template state).1.mapError Failure.withoutPlace =
      (compileTemplate options disk broken state).1.mapError Failure.withoutPlace := by
  have hruns := document_agrees (assemble_agree nestingLimit) { options, disk } h state state
    ⟨rfl, .refl _⟩
  unfold compileTemplate assembleTemplate
  generalize Assembly.outcome (document _ _ template) state = result at hruns ⊢
  generalize Assembly.outcome (document _ _ broken) state = result' at hruns ⊢
  cases hruns with
  | error hfailure _ => exact congrArg Except.error hfailure
  | @ok tree tree' _ _ hnodes _ =>
      have hblocks := Block.ofNodes_alike hnodes
      dsimp only
      unfold renderAssembled Node.render
      generalize Block.ofNodes tree.children = blocks at hblocks
      generalize Block.ofNodes tree'.children = blocks' at hblocks
      cases blocks with
      | error d =>
          cases blocks' with
          | error d' =>
              have hfault : d.fault = d'.fault := Except.error.inj hblocks
              let told (fault : Fault) : Except Failure String := .error (.refused (fault.at none))
              exact congrArg told hfault
          | ok _ => cases hblocks
      | ok found =>
          cases blocks' with
          | error _ => cases hblocks
          | ok found' =>
              obtain rfl : found = found' := Except.ok.inj hblocks
              rfl

/-! ## Lists in one line and over several lines -/

namespace Text

/-- Cutting pieces apart at the commas that stand between them. -/
theorem map_trim_pieces_intercalate {pieces : List (List Char)} (hne : pieces ≠ [])
    (h : ∀ piece ∈ pieces, ',' ∉ piece) :
    (Text.pieces ',' (List.intercalate ", ".toList pieces)).map trim = pieces.map trim := by
  induction pieces with
  | nil => exact absurd rfl hne
  | cons piece pieces ih =>
      obtain ⟨hpiece, hpieces⟩ := List.forall_mem_cons.mp h
      cases pieces with
      | nil =>
          rw [List.intercalate_singleton, pieces_of_notMem hpiece]
      | cons next pieces =>
          have hjoined : List.intercalate ", ".toList (piece :: next :: pieces) =
              piece ++ ',' :: (' ' :: List.intercalate ", ".toList (next :: pieces)) := by
            rw [List.intercalate_cons_cons, List.append_assoc]
            rfl
          have hnext := ih (by simp) hpieces
          obtain ⟨first, rest, hcut⟩ := List.exists_cons_of_ne_nil
            (pieces_ne_nil ',' (List.intercalate ", ".toList (next :: pieces)))
          rw [hjoined, pieces_append hpiece, Text.pieces, if_neg (by decide), hcut]
          rw [hcut] at hnext
          simpa [trim_cons_of_isBlank (show isBlank ' ' = true by decide)] using hnext

end Text

/-- What the pieces of a selector list can be. -/
structure IsListPiece (piece : List Char) : Prop where
  ne_nil : piece ≠ []
  trimmed : Text.trim piece = piece
  no_comma : ',' ∉ piece

theorem ofLines_pieces {pieces : List (List Char)} (h : ∀ piece ∈ pieces, IsListPiece piece) :
    Selector.ofLines (pieces.map String.ofList) = pieces := by
  induction pieces with
  | nil => rfl
  | cons piece pieces ih =>
      obtain ⟨hpiece, hpieces⟩ := List.forall_mem_cons.mp h
      have hown : Selector.ofLines [String.ofList piece] = [piece] := by
        simp [Selector.ofLines, Text.pieces_of_notMem hpiece.no_comma, hpiece.trimmed, hpiece.ne_nil]
      rw [List.map_cons, ← List.singleton_append, Selector.ofLines_append, hown, ih hpieces]
      rfl

/-- A list written on one line is read as its selectors. -/
theorem ofLines_intercalate {pieces : List (List Char)} (hne : pieces ≠ [])
    (h : ∀ piece ∈ pieces, IsListPiece piece) :
    Selector.ofLines [String.ofList (List.intercalate ", ".toList pieces)] = pieces := by
  have hcut := Text.map_trim_pieces_intercalate hne fun piece hpiece => (h piece hpiece).no_comma
  have htrimmed : pieces.map Text.trim = pieces := by
    conv_rhs => rw [← List.map_id pieces]
    exact List.map_congr_left fun piece hpiece => (h piece hpiece).trimmed
  rw [Selector.ofLines, List.flatMap_singleton, String.toList_ofList, hcut, htrimmed]
  exact List.filter_eq_self.mpr fun piece hpiece => by simpa using (h piece hpiece).ne_nil

/-- A piece with a comma after it leaves its list open. -/
theorem ofText_opening {piece : List Char} (h : IsListPiece piece) :
    SelectorList.ofText (piece ++ [',']) = ⟨[String.ofList piece], true⟩ := by
  rw [SelectorList.ofText, if_pos (by simp), List.dropLast_concat, Text.trimEnd_of_trimmed h.trimmed]

/-- A text that ends in a piece leaves no list open. -/
theorem ofText_closed {piece : List Char} (h : IsListPiece piece) (before : List Char) :
    SelectorList.ofText (before ++ piece) = ⟨[String.ofList (before ++ piece)], false⟩ := by
  have hlast : (before ++ piece).getLast? ≠ some ',' := by
    rw [List.getLast?_append_of_ne_nil _ h.ne_nil]
    exact fun hcomma => h.no_comma (List.mem_of_getLast? hcomma)
  rw [SelectorList.ofText, if_neg hlast]

theorem exists_intercalate_concat (separator : List Char) (pieces : List (List Char))
    (last : List Char) :
    ∃ before, List.intercalate separator (pieces ++ [last]) = before ++ last := by
  induction pieces with
  | nil => exact ⟨[], List.intercalate_singleton⟩
  | cons piece pieces ih =>
      obtain ⟨before, hbefore⟩ := ih
      obtain ⟨next, rest, hrest⟩ := List.exists_cons_of_ne_nil
        (List.append_ne_nil_of_right_ne_nil pieces (List.cons_ne_nil last []))
      refine ⟨piece ++ separator ++ before, ?_⟩
      rw [List.append_assoc _ before, ← hbefore, List.cons_append, hrest,
        List.intercalate_cons_cons]

/-- When a list is the same in one line and over several lines. -/
theorem sameList_of_pieces {openings : List (List Char)} {last : List Char}
    (hpieces : ∀ piece ∈ openings ++ [last], IsListPiece piece)
    (hwhole : Shape.of (List.intercalate ", ".toList (openings ++ [last])) = .rule)
    (hopenings : ∀ piece ∈ openings, Shape.of (piece ++ [',']) = .rule)
    (hlast : Shape.of last = .rule) :
    SameList (String.ofList (List.intercalate ", ".toList (openings ++ [last])))
      (openings.map fun piece => String.ofList (piece ++ [','])) (String.ofList last) := by
  obtain ⟨hopeningPieces, hlastPieces⟩ := List.forall_mem_append.mp hpieces
  have hlastPiece : IsListPiece last := hlastPieces last (by simp)
  obtain ⟨before, hbefore⟩ := exists_intercalate_concat ", ".toList openings last
  have hclosed : SelectorList.ofText last = ⟨[String.ofList last], false⟩ :=
    ofText_closed hlastPiece []
  have hrules : ((openings.map fun piece => String.ofList (piece ++ [','])) ++
        [String.ofList last]).flatMap (fun text => (SelectorList.ofText text.toList).rules) =
      (openings ++ [last]).map String.ofList := by
    rw [List.flatMap_append, List.flatMap_map, List.flatMap_singleton, String.toList_ofList, hclosed,
      List.map_append, ← List.flatMap_pure_eq_map String.ofList openings]
    congr 1
    refine List.flatMap_congr fun piece hpiece => ?_
    rw [String.toList_ofList, ofText_opening (hopeningPieces piece hpiece)]
    rfl
  refine ⟨by rwa [String.toList_ofList], ?_, ?_, ?_, by rwa [String.toList_ofList], ?_, ?_⟩
  · rw [String.toList_ofList, hbefore, ofText_closed hlastPiece]
  · intro text htext
    obtain ⟨piece, hpiece, rfl⟩ := List.mem_map.mp htext
    rw [String.toList_ofList, hopenings piece hpiece]
  · intro text htext
    obtain ⟨piece, hpiece, rfl⟩ := List.mem_map.mp htext
    rw [String.toList_ofList, ofText_opening (hopeningPieces piece hpiece)]
  · rw [String.toList_ofList, hclosed]
  · rw [hrules, ofLines_pieces hpieces, String.toList_ofList, hbefore, ofText_closed hlastPiece,
      ← hbefore, ofLines_intercalate (by simp) hpieces]

/-! ## Templates -/

/-- A physical line that is a rule is kept. -/
theorem isKept_of_rule {raw : List Char} (hne : Text.trim raw ≠ [])
    (h : Shape.of (Text.trim raw) = .rule) : isKept raw = true := by
  have hsolid : raw.all Text.isBlank = false := by
    by_contra hblank
    have hstart : Text.trimStart raw = [] :=
      List.dropWhile_eq_nil_iff.mpr (List.all_eq_true.mp (by simpa using hblank))
    rw [Text.trim, hstart] at hne
    exact hne rfl
  have hloud : ['/', '/'].isPrefixOf raw = false := by
    by_contra hslashes
    have hprefix : ['/', '/'] <+: raw := by simpa using hslashes
    obtain ⟨rest, rfl⟩ := hprefix
    have hsilent : isSilent (['/', '/'] ++ rest) = true := rfl
    rw [shape_of_isSilent hsilent] at h
    cases h
  rw [isKept, hsolid, hloud]
  rfl

/-- **Breaking a selector list over lines never changes the stylesheet.** A template in which a list
stands in one line, and the template in which it is broken over several lines that are indented like that
one, of which all but the last one end in a comma and the last one has what was nested beneath the one
line: in every style both come to the same text, or they fail by the same fault. The pieces may not hold
commas, and they and the whole have to be selectors by their shape. The list may stand anywhere but
beneath a comment, which would show it. -/
theorem compileTemplate_with_broken_list (options : Options) (disk : Disk) (state : State)
    {template broken : String} {raw last : List Char} {before following raws openings : List (List Char)}
    (hlines : physicalLines template.toList = before ++ raw :: following)
    (hbroken : physicalLines broken.toList = before ++ (raws ++ following))
    (hraw : Text.trim raw = List.intercalate ", ".toList (openings ++ [last]))
    (hraws : List.Forall₂
      (fun raw' text => indentation raw' = indentation raw ∧ Text.trim raw' = text) raws
      (openings.map (· ++ [',']) ++ [last]))
    (hpieces : ∀ piece ∈ openings ++ [last], IsListPiece piece)
    (hshapes : ∀ text ∈ List.intercalate ", ".toList (openings ++ [last]) ::
      (openings.map (· ++ [',']) ++ [last]), Shape.of text = .rule)
    (hplace : ∀ forest, parseLines template.toList = .ok forest →
      ∀ above : Line, above.Within forest → Shape.of above.text.toList = .comment →
        ∀ line ∈ flattenAll above.children, line.index ≠ before.length + 1) :
    (compileTemplate options disk template state).1.mapError Failure.withoutPlace =
      (compileTemplate options disk broken state).1.mapError Failure.withoutPlace := by
  obtain ⟨hwhole, hshapes⟩ := List.forall_mem_cons.mp hshapes
  obtain ⟨hopenings, hlast⟩ := List.forall_mem_append.mp hshapes
  have hlist := sameList_of_pieces hpieces hwhole
    (fun piece hpiece => hopenings _ (List.mem_map_of_mem hpiece)) (hlast last (by simp))
  let b : ListBreak :=
    ⟨before.length + 1, openings.map fun piece => String.ofList (piece ++ [',']), String.ofList last⟩
  have hreads : List.Forall₂ (ReadsAs (indentation raw)) raws (b.openings ++ [b.last]) := by
    have htexts : b.openings ++ [b.last] =
        (openings.map (· ++ [',']) ++ [last]).map String.ofList := by
      simp [b]
    rw [htexts, List.forall₂_map_right_iff]
    exact hraws.imp fun raw' text h => ⟨h.1, by rw [h.2]⟩
  -- lines that are selectors are neither blank nor silent, so that they are kept
  have hsolid : ∀ text ∈ openings.map (· ++ [',']) ++ [last], text ≠ [] := by
    intro text htext
    rcases List.mem_append.mp htext with htext | htext
    · obtain ⟨piece, -, rfl⟩ := List.mem_map.mp htext
      simp
    · rw [List.mem_singleton.mp htext]
      exact (hpieces last (by simp)).ne_nil
  have hkept : ∀ raw' ∈ raws, isKept raw' = true := by
    refine forall_mem_of_forall₂ (P := fun text => text ≠ [] ∧ Shape.of text = .rule) hraws.flip
      (fun text htext => ⟨hsolid text htext, hshapes text htext⟩) ?_
    rintro _ raw' ⟨-, rfl⟩ ⟨hne, hrule⟩
    exact isKept_of_rule hne hrule
  have hrawKept : isKept raw = true := by
    refine isKept_of_rule ?_ (by rw [hraw, hwhole])
    obtain ⟨start, hstart⟩ := exists_intercalate_concat ", ".toList openings last
    rw [hraw, hstart]
    exact List.append_ne_nil_of_right_ne_nil start (hpieces last (by simp)).ne_nil
  rw [← hraw] at hlist
  exact compileTemplate_of_brokenParses options disk state
    (parseLines_broken (b := b) rfl hlines hbroken hrawKept hkept hreads hlist hplace)

/-- A list in the body of a mixin, in a template with a comment, broken over two lines. -/
theorem compileTemplate_with_list_broken_in_mixin :
    let options : Options := { style := .compressed }
    let disk := Disk.ofKnown []
    let template := "/* x\n  y\n=m\n  a, &.b\n    :c d\np\n  +m"
    let broken := "/* x\n  y\n=m\n  a,\n  &.b\n    :c d\np\n  +m"
    let raw := "  a, &.b".toList
    let before := ["/* x".toList, "  y".toList, "=m".toList]
    let following := ["    :c d".toList, "p".toList, "  +m".toList]
    let raws := ["  a,".toList, "  &.b".toList]
    let openings := ["a".toList]
    let last := "&.b".toList
    let whole := List.intercalate ", ".toList (openings ++ [last])
    let texts := openings.map (· ++ [',']) ++ [last]
    physicalLines template.toList = before ++ raw :: following ∧
      physicalLines broken.toList = before ++ (raws ++ following) ∧
      Text.trim raw = whole ∧
      List.Forall₂ (fun raw' text => indentation raw' = indentation raw ∧ Text.trim raw' = text)
        raws texts ∧
      (∀ piece ∈ openings ++ [last], IsListPiece piece) ∧
      (∀ text ∈ whole :: texts, Shape.of text = .rule) ∧
      (∀ forest, parseLines template.toList = .ok forest →
        ∀ above : Line, above.Within forest → Shape.of above.text.toList = .comment →
          ∀ line ∈ flattenAll above.children, line.index ≠ before.length + 1) ∧
      (compileTemplate options disk template).1 = .ok "p a,p.b\x7bc:d\x7d\n" ∧
      (compileTemplate options disk broken).1 = .ok "p a,p.b\x7bc:d\x7d\n" := by
  intro options disk template broken raw before following raws openings last whole texts
  have hlines : physicalLines template.toList = before ++ raw :: following := by
    dsimp only [template, before, raw, following]
    cbv
  have hbroken : physicalLines broken.toList = before ++ (raws ++ following) := by
    dsimp only [broken, before, raws, following]
    cbv
  have hraw : Text.trim raw = whole := by
    dsimp only [raw, whole, openings, last]
    cbv
  have hraws : List.Forall₂
      (fun raw' text => indentation raw' = indentation raw ∧ Text.trim raw' = text) raws texts := by
    dsimp only [raw, raws, texts, openings, last]
    decide
  have hpieces : ∀ piece ∈ openings ++ [last], IsListPiece piece := by
    have hpiece : ∀ piece ∈ openings ++ [last],
        piece ≠ [] ∧ Text.trim piece = piece ∧ ',' ∉ piece := by
      dsimp only [openings, last]
      decide
    exact fun piece hmem =>
      ⟨(hpiece piece hmem).1, (hpiece piece hmem).2.1, (hpiece piece hmem).2.2⟩
  have hshapes : ∀ text ∈ whole :: texts, Shape.of text = .rule := by
    dsimp only [whole, texts, openings, last]
    decide
  have hplace : ∀ forest, parseLines template.toList = .ok forest →
      ∀ above : Line, above.Within forest → Shape.of above.text.toList = .comment →
        ∀ line ∈ flattenAll above.children, line.index ≠ before.length + 1 := by
    have hparse : parseLines template.toList = .ok
        [⟨"/* x", 0, 1, [⟨"y", 1, 2, []⟩]⟩,
          ⟨"=m", 0, 3, [⟨"a, &.b", 1, 4, [⟨":c d", 2, 5, []⟩]⟩]⟩,
          ⟨"p", 0, 6, [⟨"+m", 1, 7, []⟩]⟩] := by
      dsimp only [template]
      cbv
    intro forest hforest above hwithin hcomment line hline
    obtain rfl := Except.ok.inj (hparse.symm.trans hforest)
    simp only [Line.within_cons_iff, Line.within_nil, or_false, or_assoc] at hwithin
    -- only the first line is a comment, and only the second line stands beneath it
    rcases hwithin with rfl | rfl | rfl | rfl | rfl | rfl | rfl
    · simp only [flattenAll_cons, flattenAll_nil, List.append_nil, List.mem_singleton] at hline
      rw [hline]
      decide
    all_goals exact absurd hcomment (by decide)
  have hcss : (compileTemplate options disk template).1 = .ok "p a,p.b\x7bc:d\x7d\n" := by
    dsimp only [options, disk, template]
    cbv
  refine ⟨hlines, hbroken, hraw, hraws, hpieces, hshapes, hplace, hcss, ?_⟩
  have hsame := compileTemplate_with_broken_list options disk {} hlines hbroken hraw hraws hpieces
    hshapes hplace
  cases hresult : (compileTemplate options disk broken).1 with
  | error failure =>
      rw [hcss, hresult] at hsame
      cases hsame
  | ok text =>
      rw [hcss, hresult] at hsame
      exact hsame.symm

end Stylesheet
