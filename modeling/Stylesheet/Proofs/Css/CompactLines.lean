import Mathlib
import Stylesheet.Proofs.Assembly.OneLine
import Stylesheet.Proofs.Css.Heads

/-!
# The lines of a compact sheet

The compact style gives every rule a line of its own, except that it keeps the lines of comments: a
comment with lines nested beneath it goes on in further lines, and what stands after it in the rule
is on the last of them. Directives are printed with all that is in them in one piece.

Only comments have several lines. All other texts of a tree have no end of line, because the lines
that they come from have none.

* `Block.unbroken_of_ofNodes` : the texts of the blocks of a tree.
* `Block.sum_breaks_render` : what is printed of a block has as many ends of lines as there are lines
  beneath its comments.
* `Block.standing`, `Block.forall₂_render_standing` : what is printed in one piece.
* `compact_lines_of_compileTemplate` : the lines of a sheet.
-/

namespace Stylesheet

/-! ## Lines of texts -/

def breaks (text : String) : Nat :=
  text.toList.count '\n'

@[simp] theorem breaks_append (a b : String) : breaks (a ++ b) = breaks a + breaks b := by
  simp [breaks]

theorem breaks_of_oneLine {text : String} (h : OneLine text.toList) : breaks text = 0 :=
  List.count_eq_zero_of_not_mem h.1

theorem sum_breaks_of_oneLine {texts : List String} (h : ∀ text ∈ texts, OneLine text.toList) :
    (texts.map breaks).sum = 0 := by
  refine List.sum_eq_zero fun n hn => ?_
  obtain ⟨text, htext, rfl⟩ := List.mem_map.mp hn
  exact breaks_of_oneLine (h text htext)

/-- A separator on one line ends no line. -/
theorem breaks_intercalate {separator : String} (h : breaks separator = 0) (texts : List String) :
    breaks (String.intercalate separator texts) = (texts.map breaks).sum := by
  induction texts with
  | nil => rfl
  | cons first rest ih =>
      cases rest with
      | nil => simp
      | cons second rest =>
          rw [String.intercalate_cons_cons, breaks_append, breaks_append, h, ih]
          simp

/-- Texts on lines of their own. -/
theorem breaks_intercalate_lines (first : String) (rest : List String) :
    breaks (String.intercalate "\n" (first :: rest)) =
      ((first :: rest).map breaks).sum + rest.length := by
  induction rest generalizing first with
  | nil => simp
  | cons second rest ih =>
      have hend : breaks "\n" = 1 := rfl
      rw [String.intercalate_cons_cons, breaks_append, breaks_append, hend, ih]
      simp only [List.map_cons, List.sum_cons, List.length_cons]
      omega

/-- A text has one line more than line breaks. -/
theorem length_linesOf (text : String) : (linesOf text).length = breaks text + 1 := by
  rw [linesOf, List.length_map, breaks]
  induction text.toList with
  | nil => rfl
  | cons c cs ih =>
      obtain ⟨piece, rest, hpieces⟩ := List.exists_cons_of_ne_nil (Text.pieces_ne_nil '\n' cs)
      rw [Text.pieces, hpieces]
      rw [hpieces] at ih
      split
      · next hc => simp [hc, ih]
      · next hc => rw [List.count_cons_of_ne hc, ← ih]; rfl

theorem Text.pieces_append_separator (separator : Char) (xs ys : List Char) :
    pieces separator (xs ++ separator :: ys) = pieces separator xs ++ pieces separator ys := by
  induction xs with
  | nil => simp [pieces]
  | cons c xs ih =>
      rw [List.cons_append, pieces, pieces, ih]
      split
      · rfl
      · obtain ⟨piece, rest, hpieces⟩ := List.exists_cons_of_ne_nil (pieces_ne_nil separator xs)
        rw [hpieces]
        rfl

/-- A line break between two texts cuts their lines apart. -/
theorem linesOf_append_line (a b : String) : linesOf (a ++ "\n" ++ b) = linesOf a ++ linesOf b := by
  have htext : (a ++ "\n" ++ b).toList = a.toList ++ '\n' :: b.toList := by
    rw [String.toList_append, String.toList_append, List.append_assoc]
    rfl
  rw [linesOf, htext, Text.pieces_append_separator, List.map_append]
  rfl

/-- Texts that are put on lines of their own keep their lines. -/
theorem linesOf_intercalate {texts : List String} (h : texts ≠ []) :
    linesOf (String.intercalate "\n" texts) = texts.flatMap linesOf := by
  induction texts with
  | nil => exact absurd rfl h
  | cons first rest ih =>
      cases rest with
      | nil => simp
      | cons second rest =>
          rw [String.intercalate_cons_cons, linesOf_append_line, ih (List.cons_ne_nil _ _)]
          rfl

/-! ## Blocks without ends of lines -/

/-- No line of the comment has an end of line in it. -/
def Comment.Unbroken (c : Comment) : Prop :=
  OneLine c.text.toList ∧ ∀ line ∈ c.lines, OneLine line.toList

def BodyEntry.Unbroken : BodyEntry → Prop
  | declaration name value => OneLine name.toList ∧ OneLine value.toList
  | comment c => c.Unbroken

namespace Block

mutual

def Unbroken : Block → Prop
  | rule selectors body nested => (∀ selector ∈ selectors, OneLine selector) ∧
      (∀ entry ∈ body, entry.Unbroken) ∧ AllUnbroken nested
  | comment c => c.Unbroken
  | statement text => OneLine text.toList
  | group text body nested => OneLine text.toList ∧
      (∀ entry ∈ body, entry.Unbroken) ∧ AllUnbroken nested

def AllUnbroken : List Block → Prop
  | [] => True
  | block :: blocks => block.Unbroken ∧ AllUnbroken blocks

end

theorem allUnbroken_append {xs ys : List Block} (hx : AllUnbroken xs) (hy : AllUnbroken ys) :
    AllUnbroken (xs ++ ys) := by
  induction xs with
  | nil => exact hy
  | cons x xs ih => exact ⟨hx.1, ih hx.2⟩

end Block

/-- A comment's lines hold no breaks of their own when the node's texts hold none. -/
theorem Comment.unbroken_of_comment? {text : String} {visible : Bool} {lines : List Line}
    (h : Content.Unbroken (.comment text visible lines)) :
    ∀ c ∈ Block.comment? text visible lines, c.Unbroken := by
  intro c hc
  unfold Block.comment? at hc
  split at hc
  · cases hc
    refine ⟨h.1, fun line hline => ?_⟩
    obtain ⟨flat, hflat, rfl⟩ := List.mem_map.mp hline
    obtain ⟨own, hown, htext⟩ := Line.exists_within_of_mem_flattenAll hflat
    rw [htext]
    exact h.2 own hown
  · cases hc

namespace Node

def Unbroken (node : Node) : Prop :=
  ∀ inner ∈ node.walk, inner.content.Unbroken

theorem Unbroken.self {node : Node} (h : node.Unbroken) : node.content.Unbroken :=
  h node node.self_mem_walk

theorem Unbroken.child {node child : Node} (h : node.Unbroken) (hchild : child ∈ node.children) :
    child.Unbroken :=
  fun _ hinner => h _ (mem_walk_of_child hchild hinner)

mutual

/-- What an attribute declares is unbroken when its node and the stem are. -/
theorem unbroken_of_mem_declared {stem : String} (hstem : OneLine stem.toList) {entry : BodyEntry} :
    ∀ {node : Node}, node.Unbroken → entry ∈ node.declared stem → entry.Unbroken
  | ⟨.attr name value, line, filename, children⟩, h, hentry => by
    obtain ⟨hname, hvalue⟩ : OneLine name.toList ∧ OneLine value.toList := h.self
    have hstem' : OneLine (stem ++ name).toList := by
      rw [String.toList_append]
      exact oneLine_append hstem hname
    have hhyphen : OneLine (stem ++ name ++ "-").toList := by
      rw [String.toList_append]
      exact oneLine_append hstem' (by decide)
    have hbeneath : entry ∈ declaredAll (stem ++ name ++ "-") children → entry.Unbroken :=
      unbroken_of_mem_declaredAll hhyphen fun child hchild => h.child hchild
    rw [declared] at hentry
    split at hentry
    · exact hbeneath hentry
    · rcases List.mem_cons.mp hentry with rfl | hentry
      · exact ⟨hstem', hvalue⟩
      · exact hbeneath hentry
  | ⟨.rule _, _, _, _⟩, _, h => by cases h
  | ⟨.comment _ _ _, _, _, _⟩, _, h => by cases h
  | ⟨.directive _, _, _, _⟩, _, h => by cases h
  | ⟨.root, _, _, _⟩, _, h => by cases h

theorem unbroken_of_mem_declaredAll {stem : String} (hstem : OneLine stem.toList)
    {entry : BodyEntry} : ∀ {nodes : List Node}, (∀ node ∈ nodes, node.Unbroken) →
      entry ∈ declaredAll stem nodes → entry.Unbroken
  | [], _, hentry => by cases hentry
  | node :: nodes, h, hentry => by
    rw [declaredAll] at hentry
    rcases List.mem_append.mp hentry with hentry | hentry
    · exact unbroken_of_mem_declared hstem (h node List.mem_cons_self) hentry
    · exact unbroken_of_mem_declaredAll hstem
        (fun later hlater => h later (List.mem_cons_of_mem _ hlater)) hentry

end

theorem unbroken_of_mem_body {children : List Node} (h : ∀ child ∈ children, child.Unbroken)
    {entry : BodyEntry} (hentry : entry ∈ body children) : entry.Unbroken := by
  obtain ⟨child, hchild, hentry⟩ := List.mem_flatMap.mp hentry
  have hcontent := (h child hchild).self
  cases hkind : child.content with
  | attr name value =>
      rw [hkind] at hentry
      exact unbroken_of_mem_declared (by decide) (h child hchild) hentry
  | comment text visible lines =>
      rw [hkind] at hentry hcontent
      obtain ⟨c, hc, rfl⟩ := Option.map_eq_some_iff.mp (Option.mem_toList.mp hentry)
      exact Comment.unbroken_of_comment? hcontent c hc
  | rule _ =>
      rw [hkind] at hentry
      cases hentry
  | directive _ =>
      rw [hkind] at hentry
      cases hentry
  | root =>
      rw [hkind] at hentry
      cases hentry

end Node

theorem Selector.oneLine_of_mem_ofLines {rules : List String}
    (h : ∀ rule ∈ rules, OneLine rule.toList) {selector : List Char}
    (hselector : selector ∈ ofLines rules) : OneLine selector := by
  obtain ⟨rule, hrule, hselector⟩ := List.mem_flatMap.mp hselector
  obtain ⟨piece, hpiece, rfl⟩ := List.mem_map.mp (List.mem_filter.mp hselector).1
  have hsubset := List.Subset.trans (Text.trim_sublist piece).subset
    (Text.subset_of_mem_pieces hpiece)
  exact (h rule hrule).subset hsubset

theorem Selector.oneLine_beneath {parent selector : List Char} (hparent : OneLine parent)
    (hselector : OneLine selector) : OneLine (beneath parent selector) := by
  have hsubset : beneath parent selector ⊆ parent ++ ' ' :: selector := by
    intro c hc
    unfold beneath at hc
    split at hc
    · -- every ampersand is replaced by the parent
      obtain ⟨d, hd, hc⟩ := List.mem_flatMap.mp hc
      split at hc
      · exact List.mem_append_left _ hc
      · rw [List.mem_singleton.mp hc]
        exact List.mem_append_right _ (List.mem_cons_of_mem _ hd)
    · exact hc
  have hspace : OneLine (' ' :: selector) := oneLine_cons_iff.mpr ⟨by decide, by decide, hselector⟩
  exact (oneLine_append hparent hspace).subset hsubset

/-- Selectors combined from lists without line breaks hold none. -/
theorem Selector.oneLine_of_mem_combined {parents : Option (List (List Char))}
    (hparents : ∀ outer ∈ parents, ∀ parent ∈ outer, OneLine parent) {rules : List String}
    (h : ∀ rule ∈ rules, OneLine rule.toList) {selector : List Char}
    (hselector : selector ∈ combined parents rules) : OneLine selector := by
  cases parents with
  | none => exact oneLine_of_mem_ofLines h hselector
  | some outer =>
      obtain ⟨parent, hparent, hselector⟩ := List.mem_flatMap.mp hselector
      obtain ⟨own, hown, rfl⟩ := List.mem_map.mp hselector
      exact oneLine_beneath (hparents outer rfl parent hparent) (oneLine_of_mem_ofLines h hown)

namespace Block

mutual

/-- The blocks of a tree without ends of lines have none. -/
theorem unbroken_of_ofNode : ∀ {node : Node} {parents : Option (List (List Char))} {blocks},
    node.Unbroken → (∀ outer ∈ parents, ∀ parent ∈ outer, OneLine parent) →
    ofNode parents node = .ok blocks → AllUnbroken blocks
  | ⟨.rule selectors, line, filename, children⟩, parents, blocks, hnode, hparents, h => by
    obtain ⟨nested, hnested, rfl⟩ := ofNode_rule_eq_ok h
    have hselectors : ∀ selector ∈ Selector.combined parents selectors.rules, OneLine selector :=
      fun selector hselector => Selector.oneLine_of_mem_combined hparents hnode.self hselector
    have hchildren : ∀ child ∈ children, child.Unbroken := fun child hchild => hnode.child hchild
    refine ⟨⟨hselectors, fun entry => Node.unbroken_of_mem_body hchildren, ?_⟩, trivial⟩
    -- the selectors of the rule are the parents of what is nested in it
    refine unbroken_of_nestedIn hchildren ?_ hnested
    rintro outer houter
    cases houter
    exact hselectors
  | ⟨.directive text, line, filename, children⟩, parents, blocks, hnode, _, h => by
    have htext : OneLine text.toList := hnode.self
    have hchildren : ∀ child ∈ children, child.Unbroken := fun child hchild => hnode.child hchild
    rcases ofNode_directive_eq_ok h with ⟨-, rfl⟩ | ⟨nested, hnested, rfl⟩
    · exact ⟨htext, trivial⟩
    · exact ⟨⟨htext, fun entry => Node.unbroken_of_mem_body hchildren,
        unbroken_of_nestedIn hchildren (by simp) hnested⟩, trivial⟩
  | ⟨.comment text visible lines, _, _, _⟩, _, blocks, hnode, _, h => by
    rw [ofNode] at h
    cases h
    have hcomment := Comment.unbroken_of_comment? hnode.self
    cases hshown : comment? text visible lines with
    | none => trivial
    | some c => exact ⟨hcomment c hshown, trivial⟩
  | ⟨.attr _ _, _, _, _⟩, _, _, _, _, h => by cases h
  | ⟨.root, _, _, _⟩, _, _, _, _, h => by
    rw [ofNode] at h
    cases h
    trivial

theorem unbroken_of_nestedIn : ∀ {nodes : List Node} {parents : Option (List (List Char))} {blocks},
    (∀ node ∈ nodes, node.Unbroken) → (∀ outer ∈ parents, ∀ parent ∈ outer, OneLine parent) →
    nestedIn parents nodes = .ok blocks → AllUnbroken blocks
  | [], _, _, _, _, h => by
    cases h
    trivial
  | node :: nodes, parents, blocks, hnodes, hparents, h => by
    obtain ⟨first, rest, hfirst, hrest, rfl⟩ := nestedIn_cons_eq_ok h
    refine allUnbroken_append ?_ (unbroken_of_nestedIn
      (fun later hlater => hnodes later (List.mem_cons_of_mem _ hlater)) hparents hrest)
    split at hfirst
    · cases hfirst
      trivial
    · exact unbroken_of_ofNode (hnodes node List.mem_cons_self) hparents hfirst

end

/-- The blocks of unbroken nodes are unbroken. -/
theorem unbroken_of_ofNodes {nodes : List Node} {blocks : List Block}
    (hnodes : ∀ node ∈ nodes, node.Unbroken) (h : ofNodes nodes = .ok blocks) :
    AllUnbroken blocks := by
  induction nodes generalizing blocks with
  | nil =>
      cases h
      trivial
  | cons node nodes ih =>
      obtain ⟨first, rest, hfirst, hrest, rfl⟩ := ofNodes_cons_eq_ok h
      have hrest := ih (fun later hlater => hnodes later (List.mem_cons_of_mem _ hlater)) hrest
      have hnode := hnodes node List.mem_cons_self
      exact allUnbroken_append (unbroken_of_ofNode hnode (by simp) hfirst) hrest

end Block

/-! ## The lines of what is printed -/

def BodyEntry.nestedLines : BodyEntry → Nat
  | declaration _ _ => 0
  | comment c => c.lines.length

namespace Block

mutual

/-- The number of lines nested beneath the comments in a block. -/
def nestedLines : Block → Nat
  | rule _ body nested => (body.map BodyEntry.nestedLines).sum + nestedLinesAll nested
  | comment c => c.lines.length
  | statement _ => 0
  | group _ body nested => (body.map BodyEntry.nestedLines).sum + nestedLinesAll nested

def nestedLinesAll : List Block → Nat
  | [] => 0
  | block :: blocks => block.nestedLines + nestedLinesAll blocks

end

end Block

/-- A comment is printed in its lines. -/
theorem Comment.breaks_render {c : Comment} (h : c.Unbroken) (depth : Nat) :
    breaks (c.render .compact depth) = c.lines.length := by
  have hlines : ∀ line ∈ c.text :: c.lines.map (" " ++ ·), OneLine line.toList := by
    intro line hline
    rcases List.mem_cons.mp hline with rfl | hline
    · exact h.1
    · obtain ⟨own, hown, rfl⟩ := List.mem_map.mp hline
      rw [String.toList_append]
      exact oneLine_append (by decide) (h.2 own hown)
  have hmargin : ∀ lines : List String, lines.map (Style.compact.margin depth ++ ·) = lines := by
    simp [Style.margin]
  have htext : breaks (String.intercalate "\n" (c.text :: c.lines.map (" " ++ ·))) =
      c.lines.length := by
    rw [breaks_intercalate_lines, sum_breaks_of_oneLine hlines, List.length_map, Nat.zero_add]
  have hclosing : breaks " */" = 0 := rfl
  unfold render
  dsimp only
  rw [hmargin]
  split
  · exact htext
  · rw [breaks_append, htext, hclosing, Nat.add_zero]

/-- The only breaks in a compact body are those of its comments' nested lines. -/
theorem sum_breaks_renderBody {body : List BodyEntry} (h : ∀ entry ∈ body, entry.Unbroken) :
    ((renderBody .compact body).map breaks).sum = (body.map BodyEntry.nestedLines).sum := by
  induction body with
  | nil => rfl
  | cons entry body ih =>
      obtain ⟨hentry, hbody⟩ := List.forall_mem_cons.mp h
      have hrest := ih hbody
      rw [renderBody] at hrest
      cases entry with
      | declaration name value =>
          have hline : OneLine (name ++ ": " ++ value ++ ";").toList := by
            simp only [String.toList_append]
            exact oneLine_append (oneLine_append (oneLine_append hentry.1 (by decide)) hentry.2)
              (by decide)
          rw [renderBody, List.filterMap_cons, BodyEntry.render?, if_neg (by decide)]
          dsimp only
          rw [List.map_cons, List.sum_cons, breaks_of_oneLine hline, hrest]
          rfl
      | comment c =>
          rw [renderBody, List.filterMap_cons, BodyEntry.render?, if_neg (by decide)]
          dsimp only
          rw [List.map_cons, List.sum_cons, Comment.breaks_render hentry, hrest]
          rfl

theorem breaks_wrap {head : String} (hhead : breaks head = 0) (depth : Nat) (body : List String) :
    breaks (wrap .compact depth head body) = (body.map breaks).sum := by
  have hopening : breaks " \x7b " = 0 := rfl
  have hclosing : breaks " \x7d" = 0 := rfl
  have hbody : breaks (String.intercalate " " body) = (body.map breaks).sum :=
    breaks_intercalate rfl body
  unfold wrap
  dsimp only
  rw [breaks_append, breaks_append, breaks_append, hhead, hopening, hclosing, hbody]
  omega

theorem breaks_head {selectors : List (List Char)} (h : ∀ selector ∈ selectors, OneLine selector) :
    breaks (String.intercalate ", " (selectors.map String.ofList)) = 0 := by
  rw [breaks_intercalate rfl]
  refine sum_breaks_of_oneLine fun text htext => ?_
  obtain ⟨selector, hselector, rfl⟩ := List.mem_map.mp htext
  exact oneLine_ofList (h selector hselector)

/-- Every entry of a body is printed. -/
theorem length_renderBody_compact (body : List BodyEntry) :
    (renderBody .compact body).length = body.length := by
  induction body with
  | nil => rfl
  | cons entry body ih =>
      rw [renderBody] at ih
      cases entry <;> simp [renderBody, BodyEntry.render?, ih]

namespace Block

variable {depth : Nat}

/-- A rule is printed in front of what is nested in it, unless its body is empty. -/
theorem render_rule_compact (selectors : List (List Char)) (body : List BodyEntry)
    (nested : List Block) :
    render .compact depth (rule selectors body nested) =
      if body.isEmpty then renderAll .compact depth nested
      else wrap .compact depth (String.intercalate ", " (selectors.map String.ofList))
        (renderBody .compact body) :: renderAll .compact (depth + 1) nested := by
  have hlength := length_renderBody_compact body
  rw [render]
  cases hprinted : renderBody .compact body with
  | nil =>
      rw [hprinted] at hlength
      rw [List.length_eq_zero_iff.mp hlength.symm]
      rfl
  | cons first rest =>
      rw [hprinted] at hlength
      rw [if_neg]
      · rfl
      · rintro hempty
        rw [List.isEmpty_iff.mp hempty] at hlength
        cases hlength

theorem render_group_compact (text : String) (body : List BodyEntry) (nested : List Block) :
    render .compact depth (group text body nested) =
      [wrap .compact 0 text (renderBody .compact body ++ renderAll .compact 0 nested)] := by
  rw [render]
  rintro ⟨⟩

mutual

/-- What is printed of a block has as many ends of lines as lines are nested beneath its comments.
-/
theorem sum_breaks_render : ∀ {block : Block} {depth : Nat}, block.Unbroken →
    ((block.render .compact depth).map breaks).sum = block.nestedLines
  | rule selectors body nested, depth, h => by
    obtain ⟨hselectors, hbody, hnested⟩ := h
    rw [render_rule_compact, nestedLines]
    split
    · next hempty =>
        -- no body, no line: only what is nested in the rule is printed
        rw [List.isEmpty_iff.mp hempty, sum_breaks_renderAll hnested]
        simp
    · rw [List.map_cons, List.sum_cons, breaks_wrap (breaks_head hselectors),
        sum_breaks_renderBody hbody, sum_breaks_renderAll hnested]
  | comment c, depth, h => by
    rw [render, if_neg (by decide), nestedLines, List.map_singleton, List.sum_singleton,
      Comment.breaks_render h]
  | statement text, depth, h => by
    have hsemicolon : breaks ";" = 0 := rfl
    rw [render, nestedLines, List.map_singleton, List.sum_singleton, breaks_append,
      breaks_of_oneLine h, hsemicolon]
  | group text body nested, depth, h => by
    obtain ⟨htext, hbody, hnested⟩ := h
    rw [render_group_compact, nestedLines, List.map_singleton, List.sum_singleton,
      breaks_wrap (breaks_of_oneLine htext), List.map_append, List.sum_append,
      sum_breaks_renderBody hbody, sum_breaks_renderAll hnested]

/-- The breaks of compact blocks are those of the nested lines in them. -/
theorem sum_breaks_renderAll : ∀ {blocks : List Block} {depth : Nat}, AllUnbroken blocks →
    ((renderAll .compact depth blocks).map breaks).sum = nestedLinesAll blocks
  | [], _, _ => by
    rw [renderAll]
    rfl
  | block :: blocks, depth, h => by
    rw [renderAll, List.map_append, List.sum_append, sum_breaks_render h.1,
      sum_breaks_renderAll h.2, nestedLinesAll]

end

/-! ## What is printed in one piece -/

mutual

/-- What is printed of a block in one piece each: every rule with a body, without what is nested in
it, and every comment and directive that is in no other directive. -/
def standing : Block → List Block
  | rule selectors body nested =>
    if body.isEmpty then standingAll nested
    else rule selectors body [] :: standingAll nested
  | comment c => [comment c]
  | statement text => [statement text]
  | group text body nested => [group text body nested]

def standingAll : List Block → List Block
  | [] => []
  | block :: blocks => block.standing ++ standingAll blocks

end

/-- The block is printed as the text. -/
def PrintedAs (block : Block) (text : String) : Prop :=
  block.render .compact 0 = [text]

/-- A compact rule takes one line and one more for each nested line of a comment. -/
theorem length_linesOf_of_printedAs {block : Block} {text : String} (h : block.Unbroken)
    (htext : block.PrintedAs text) : (linesOf text).length = 1 + block.nestedLines := by
  have hsum : ((block.render .compact 0).map breaks).sum = block.nestedLines := sum_breaks_render h
  rw [PrintedAs] at htext
  rw [htext, List.map_singleton, List.sum_singleton] at hsum
  rw [length_linesOf, hsum, Nat.add_comm]

mutual

theorem forall₂_render_standing : ∀ {block : Block} {depth : Nat},
    List.Forall₂ PrintedAs block.standing (block.render .compact depth)
  | rule selectors body nested, depth => by
    rw [render_rule_compact, standing]
    split
    · exact forall₂_renderAll_standing
    · next hbody =>
        refine .cons ?_ forall₂_renderAll_standing
        -- the compact style has no margin, so the depth does not matter
        rw [PrintedAs, render_rule_compact, if_neg hbody]
        rfl
  | comment c, depth => by
    rw [render, if_neg (by decide), standing]
    refine .cons ?_ .nil
    rw [PrintedAs, render, if_neg (by decide)]
    rfl
  | statement text, depth => by
    rw [render, standing]
    exact .cons rfl .nil
  | group text body nested, depth => by
    rw [render_group_compact, standing]
    exact .cons (render_group_compact text body nested) .nil

theorem forall₂_renderAll_standing : ∀ {blocks : List Block} {depth : Nat},
    List.Forall₂ PrintedAs (standingAll blocks) (renderAll .compact depth blocks)
  | [], _ => by
    rw [renderAll]
    exact .nil
  | block :: blocks, depth => by
    rw [renderAll, standingAll]
    exact List.rel_append forall₂_render_standing forall₂_renderAll_standing

end

/-- A rule stands for itself if it has a body and nothing nested in it. -/
def StandsAlone : Block → Prop
  | rule _ body nested => body ≠ [] ∧ nested = []
  | _ => True

mutual

theorem of_mem_standing {inner : Block} : ∀ {block : Block}, block.Unbroken →
    inner ∈ block.standing → inner.Unbroken ∧ inner.StandsAlone
  | rule selectors body nested, h, hinner => by
    obtain ⟨hselectors, hbody, hnested⟩ := h
    rw [standing] at hinner
    split at hinner
    · exact of_mem_standingAll hnested hinner
    · next hempty =>
        rcases List.mem_cons.mp hinner with rfl | hinner
        · exact ⟨⟨hselectors, hbody, trivial⟩, mt List.isEmpty_iff.mpr hempty, rfl⟩
        · exact of_mem_standingAll hnested hinner
  | comment c, h, hinner => by
    rw [List.mem_singleton.mp hinner]
    exact ⟨h, trivial⟩
  | statement text, h, hinner => by
    rw [List.mem_singleton.mp hinner]
    exact ⟨h, trivial⟩
  | group text body nested, h, hinner => by
    rw [List.mem_singleton.mp hinner]
    exact ⟨h, trivial⟩

theorem of_mem_standingAll {inner : Block} : ∀ {blocks : List Block}, AllUnbroken blocks →
    inner ∈ standingAll blocks → inner.Unbroken ∧ inner.StandsAlone
  | [], _, hinner => by cases hinner
  | block :: blocks, h, hinner => by
    rw [standingAll] at hinner
    rcases List.mem_append.mp hinner with hinner | hinner
    · exact of_mem_standing h.1 hinner
    · exact of_mem_standingAll h.2 hinner

end

/-- A rule that stands alone is on one line if no comment in it has lines of its own. -/
theorem nestedLines_eq_zero_iff {selectors : List (List Char)} {body : List BodyEntry}
    {nested : List Block} (h : (rule selectors body nested).StandsAlone) :
    (rule selectors body nested).nestedLines = 0 ↔
      ∀ c, BodyEntry.comment c ∈ body → c.lines = [] := by
  obtain ⟨-, rfl⟩ := h
  rw [nestedLines, nestedLinesAll, Nat.add_zero, List.sum_eq_zero_iff]
  constructor
  · intro hzero c hc
    exact List.length_eq_zero_iff.mp (hzero _ (List.mem_map_of_mem hc))
  · intro hlines n hn
    obtain ⟨entry, hentry, rfl⟩ := List.mem_map.mp hn
    cases entry with
    | declaration name value => rfl
    | comment c => exact List.length_eq_zero_iff.mpr (hlines c hentry)

/-! ### Items -/

def item : Block → Item
  | rule selectors body _ => .rule selectors body
  | comment c => .comment c
  | statement text => .directive text
  | group text _ _ => .directive text

theorem standingAll_append (xs ys : List Block) :
    standingAll (xs ++ ys) = standingAll xs ++ standingAll ys := by
  induction xs with
  | nil => rfl
  | cons x xs ih => rw [List.cons_append, standingAll, standingAll, ih, List.append_assoc]

mutual

/-- The items of a node are printed in one piece each. -/
theorem map_item_standing : ∀ {node : Node} {parents : Option (List (List Char))} {blocks},
    ofNode parents node = .ok blocks → ∀ depth,
      (standingAll blocks).map item = (node.placed parents depth).map (·.item)
  | ⟨.rule selectors, line, filename, children⟩, parents, blocks, h, depth => by
    obtain ⟨nested, hnested, rfl⟩ := ofNode_rule_eq_ok h
    rw [standingAll, standingAll, List.append_nil, standing, Node.placed]
    split
    · exact map_item_standing_nestedIn hnested depth
    · rw [List.map_cons, List.map_cons, map_item_standing_nestedIn hnested (depth + 1)]
      rfl
  | ⟨.comment text visible lines, _, _, _⟩, _, _, h, _ => by
    rw [ofNode] at h
    cases h
    rw [Node.placed]
    cases comment? text visible lines <;> rfl
  | ⟨.directive text, line, filename, children⟩, _, _, h, _ => by
    rw [Node.placed]
    rcases ofNode_directive_eq_ok h with ⟨-, rfl⟩ | ⟨nested, -, rfl⟩ <;> rfl
  | ⟨.attr _ _, _, _, _⟩, _, _, h, _ => by cases h
  | ⟨.root, _, _, _⟩, _, _, h, _ => by
    rw [ofNode] at h
    cases h
    rfl

theorem map_item_standing_nestedIn : ∀ {nodes : List Node} {parents : Option (List (List Char))}
    {blocks}, nestedIn parents nodes = .ok blocks → ∀ depth,
      (standingAll blocks).map item = (Node.placedBeneath parents depth nodes).map (·.item)
  | [], _, _, h, _ => by
    cases h
    rfl
  | node :: nodes, parents, blocks, h, depth => by
    obtain ⟨first, rest, hfirst, hrest, rfl⟩ := nestedIn_cons_eq_ok h
    have hnode : (standingAll first).map item =
        (if node.isBodyPart then [] else node.placed parents depth).map (·.item) := by
      split at hfirst
      · next hpart =>
          cases hfirst
          rw [if_pos hpart]
          rfl
      · next hpart =>
          rw [if_neg hpart]
          exact map_item_standing hfirst depth
    rw [standingAll_append, Node.placedBeneath, List.map_append, List.map_append, hnode,
      map_item_standing_nestedIn hrest depth]

end

/-- What stands alone in the blocks of a forest are its items, in order. -/
theorem map_item_standing_ofNodes {nodes : List Node} {blocks : List Block}
    (h : ofNodes nodes = .ok blocks) :
    (standingAll blocks).map item = (nodes.map (Node.placed none 0)).flatten.map (·.item) := by
  induction nodes generalizing blocks with
  | nil =>
      cases h
      rfl
  | cons node nodes ih =>
      obtain ⟨first, rest, hfirst, hrest, rfl⟩ := ofNodes_cons_eq_ok h
      rw [standingAll_append, List.map_append, map_item_standing hfirst 0, ih hrest, List.map_cons,
        List.flatten_cons, List.map_append]

/-! ## Sheets -/

theorem renderAll_eq_flatten (style : Style) (depth : Nat) (blocks : List Block) :
    renderAll style depth blocks = (blocks.map (render style depth)).flatten := by
  induction blocks with
  | nil => rw [renderAll]; rfl
  | cons block blocks ih => rw [renderAll, ih]; rfl

/-- A compact sheet has the lines of its texts, one text after the other. -/
theorem linesOf_renderSheet_compact (blocks : List Block) :
    linesOf (renderSheet .compact blocks) =
      (renderAll .compact 0 blocks).flatMap linesOf ++ [""] := by
  have hflatten : ∀ texts : List (List String),
      (texts.filter fun texts => !texts.isEmpty).flatten = texts.flatten := by
    intro texts
    induction texts with
    | nil => rfl
    | cons first rest ih => cases first <;> simp_all
  -- the blocks of a node are separated as the nodes are
  have hgroups : ∀ groups : List (List String), (∀ group ∈ groups, group ≠ []) →
      (groups.map (String.intercalate "\n")).flatMap linesOf = groups.flatten.flatMap linesOf := by
    intro groups h
    induction groups with
    | nil => rfl
    | cons group groups ih =>
        obtain ⟨hgroup, hgroups⟩ := List.forall_mem_cons.mp h
        rw [List.map_cons, List.flatMap_cons, linesOf_intercalate hgroup, ih hgroups,
          List.flatten_cons, List.flatMap_append]
  have hend : ∀ text : String, linesOf (text ++ "\n") = linesOf text ++ [""] := by
    intro text
    have hline := linesOf_append_line text ""
    rwa [String.append_empty] at hline
  rw [renderAll_eq_flatten, ← hflatten, renderSheet]
  generalize htexts : (blocks.map (render .compact 0)).filter (fun texts => !texts.isEmpty) = texts
  split
  · next hempty =>
      rw [List.isEmpty_iff.mp hempty]
      rfl
  · next hne =>
      have hne : texts.map (String.intercalate "\n") ≠ [] := by simpa using hne
      have hnonempty : ∀ group ∈ texts, group ≠ [] := by
        intro group hgroup
        rw [← htexts] at hgroup
        simpa using (List.mem_filter.mp hgroup).2
      show linesOf (String.intercalate "\n" (texts.map (String.intercalate "\n")) ++ "\n") = _
      rw [hend, linesOf_intercalate hne, hgroups texts hnonempty]

end Block

/-- **The lines of a compact sheet.** The items of the tree are printed one after the other, each in
lines of its own: a line for itself and one for each line that is nested beneath its comments. So a
rule is on one line exactly if no comment in its body has lines nested beneath it. A directive that
is not empty counts with all that is in it. -/
theorem compact_lines_of_compileTemplate {options : Options} {disk : Disk} {template css : String}
    {after : State} (h : compileTemplate options disk template = (.ok css, after))
    (hstyle : options.style = .compact) :
    ∃ tree blocks texts, assembleTemplate options disk template = (.ok tree, after) ∧
      Block.ofNodes tree.children = .ok blocks ∧
      (Block.standingAll blocks).map Block.item = tree.items ∧
      linesOf css = texts.flatMap linesOf ++ [""] ∧
      List.Forall₂ (fun block text => block.PrintedAs text ∧
        (linesOf text).length = 1 + block.nestedLines) (Block.standingAll blocks) texts ∧
      ∀ selectors body nested, Block.rule selectors body nested ∈ Block.standingAll blocks →
        body ≠ [] ∧ nested = [] ∧ ((Block.rule selectors body nested).nestedLines = 0 ↔
          ∀ c, BodyEntry.comment c ∈ body → c.lines = []) := by
  obtain ⟨tree, blocks, htree, hblocks, rfl⟩ := exists_blocks_of_compileTemplate h
  have hnodes : ∀ node ∈ tree.children, node.Unbroken := fun node hnode inner hinner =>
    unbroken_of_assembleTemplate htree inner (Node.mem_walkAll_iff.mpr ⟨node, hnode, hinner⟩)
  have hunbroken := Block.unbroken_of_ofNodes hnodes hblocks
  have hprinted : List.Forall₂ Block.PrintedAs (Block.standingAll blocks)
      (Block.renderAll .compact 0 blocks) := Block.forall₂_renderAll_standing
  refine ⟨tree, blocks, Block.renderAll .compact 0 blocks, htree, hblocks,
    Block.map_item_standing_ofNodes hblocks, ?_, ?_, ?_⟩
  · rw [hstyle, Block.linesOf_renderSheet_compact]
  · refine ((List.forall₂_and_left _ _).mpr ⟨fun block hblock => ?_, hprinted⟩).imp
      fun block text ⟨hblock, htext⟩ => ⟨htext, Block.length_linesOf_of_printedAs hblock htext⟩
    exact (Block.of_mem_standingAll hunbroken hblock).1
  · intro selectors body nested hmem
    have halone := (Block.of_mem_standingAll hunbroken hmem).2
    exact ⟨halone.1, halone.2, Block.nestedLines_eq_zero_iff halone⟩

/-- A rule on two lines, because of its comment, and a rule in it on one line. -/
theorem compact_lines_of_nested_rule :
    let options : Options := { style := .compact }
    let template := "a\n  /* x\n    y\n  b\n    /* z */\n    :p q"
    let css := "a \x7b /* x\n y */ \x7d\na b \x7b /* z */ p: q; \x7d\n"
    compileTemplate options (Disk.ofKnown []) template = (.ok css, {}) ∧ options.style = .compact ∧
      ∃ blocks texts, (Block.standingAll blocks).map Block.item = [
          .rule [['a']] [.comment ⟨"/* x", ["y"]⟩],
          .rule [['a', ' ', 'b']] [.comment ⟨"/* z */", []⟩, .declaration "p" "q"]] ∧
        linesOf css = texts.flatMap linesOf ++ [""] ∧
        List.Forall₂ (fun block text => block.PrintedAs text ∧
          (linesOf text).length = 1 + block.nestedLines) (Block.standingAll blocks) texts := by
  intro options template css
  let noted : Node := ⟨.comment "/* x" true [⟨"y", 2, 3, []⟩], some 2, none, []⟩
  let closed : Node := ⟨.comment "/* z */" true [], some 5, none, []⟩
  let tree : Node := ⟨.root, none, none, [⟨.rule ⟨["a"], false⟩, some 1, none, [noted,
    ⟨.rule ⟨["b"], false⟩, some 4, none, [closed, ⟨.attr "p" "q", some 6, none, []⟩]⟩]⟩]⟩
  have htree : assembleTemplate options (Disk.ofKnown []) template = (.ok tree, {}) := by
    dsimp only [options, template, tree, noted, closed]
    cbv
  have hrender : tree.render .compact = .ok css := by decide +kernel
  have h : compileTemplate options (Disk.ofKnown []) template = (.ok css, {}) := by
    rw [compileTemplate, htree]
    dsimp only
    rw [renderAssembled, hrender]
  obtain ⟨found, blocks, texts, hfound, -, hitems, hlines, hprinted, -⟩ :=
    compact_lines_of_compileTemplate h rfl
  obtain rfl : tree = found := by
    rw [htree] at hfound
    exact Except.ok.inj (Prod.mk.inj hfound).1
  refine ⟨h, rfl, blocks, texts, ?_, hlines, hprinted⟩
  rw [hitems]
  decide +kernel

/-- A rule that a comment breaks: its declaration is on the second line. -/
theorem broken_compact_rule :
    let options : Options := { style := .compact }
    let template := "a\n  /* x\n    y\n  :p q"
    let css := "a \x7b /* x\n y */ p: q; \x7d\n"
    let tree : Node := ⟨.root, none, none, [⟨.rule ⟨["a"], false⟩, some 1, none, [
      ⟨.comment "/* x" true [⟨"y", 2, 3, []⟩], some 2, none, []⟩,
      ⟨.attr "p" "q", some 4, none, []⟩]⟩]⟩
    assembleTemplate options (Disk.ofKnown []) template = (.ok tree, {}) ∧
      tree.items = [.rule [['a']] [.comment ⟨"/* x", ["y"]⟩, .declaration "p" "q"]] ∧
      tree.render .compact = .ok css ∧
      linesOf css = ["a \x7b /* x", " y */ p: q; \x7d", ""] := by
  intro options template css tree
  refine ⟨?_, ?_, ?_, ?_⟩
  · dsimp only [options, template, tree]
    cbv
  all_goals decide +kernel

end Stylesheet
