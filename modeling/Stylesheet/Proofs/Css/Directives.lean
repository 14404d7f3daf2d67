import Mathlib
import Stylesheet.Proofs.Css.Comments

/-!
# Directives with something in them

The braces of a directive hold the declarations and comments directly beneath it and, after them,
the rules beneath it. This is read here as a list of pieces, in which the semicolons are pieces of
their own: the sheet without its blanks is the pieces one after the other, and whether a declaration
is kept apart from what follows it can be asked of the list.

The styles that give every declaration a semicolon keep all of them apart. The compressed style puts
semicolons between declarations only, so that nothing stands between the last declaration and the
first rule.

* `Piece.separated_pieces_iff` : when declarations are kept apart.
* `directives_of_assembleTemplate` : the directives of an assembled tree.
-/

namespace Stylesheet

/-- Something that stands in the braces of a directive. -/
inductive Piece where
  /-- A declaration without what ends it, or a comment. -/
  | entry (entry : BodyEntry)
  | semicolon
  | block (item : Item)
  deriving DecidableEq, Repr

namespace Piece

def ink (style : Style) : Piece → List Char
  | entry e => e.ink
  | semicolon => [';']
  | block item => item.ink style

/-- Whether every declaration is followed by a semicolon before the next declaration or block, where
one may be left to end at the start. Comments may stand anywhere. -/
def separatedFrom (pending : Bool) : List Piece → Bool
  | [] => true
  | entry e :: rest =>
    if e.isDeclaration then !pending && separatedFrom true rest else separatedFrom pending rest
  | semicolon :: rest => separatedFrom false rest
  | block _ :: rest => !pending && separatedFrom false rest

/-- Whether every declaration is kept apart from the declaration or block after it. -/
def Separated (pieces : List Piece) : Prop :=
  separatedFrom false pieces = true

instance (pieces : List Piece) : Decidable (Separated pieces) :=
  inferInstanceAs (Decidable (_ = true))

def written (pieces : List Piece) : List Piece :=
  pieces.filter (· ≠ semicolon)

end Piece

def Style.shownEntries (style : Style) (body : List BodyEntry) : List BodyEntry :=
  if style = .compressed then body.filter BodyEntry.isDeclaration else body

/-- What a style writes for the entries of a directive. -/
def Style.entryPieces (style : Style) (body : List BodyEntry) : List Piece :=
  if style = .compressed then List.intersperse .semicolon ((style.shownEntries body).map .entry)
  else (style.shownEntries body).flatMap fun entry =>
    .entry entry :: if entry.isDeclaration then [.semicolon] else []

/-- What a style writes in the braces of a directive with the given entries and items. -/
def Style.pieces (style : Style) (body : List BodyEntry) (items : List Item) : List Piece :=
  style.entryPieces body ++ (items.filterMap (Item.shown? style)).map .block

def Style.directive (style : Style) (head : String) (body : List BodyEntry) (placed : List Placed) :
    String :=
  match style with
  | .compressed => head ++ "\x7b" ++ String.intercalate ";" (renderBody .compressed body) ++
      String.join (Style.prints .compressed placed) ++ "\x7d"
  | style => wrap style 0 head (renderBody style body ++ style.prints placed)

/-! ## Pieces -/

namespace Piece

variable {style : Style} {body : List BodyEntry} {items : List Item}

theorem separatedFrom_blocks (pending : Bool) (items : List Item) :
    separatedFrom pending (items.map block) = (!pending || items.isEmpty) := by
  cases items with
  | nil => simp [separatedFrom]
  | cons item items =>
      have h : ∀ items : List Item, separatedFrom false (items.map block) = true := by
        intro items
        induction items with
        | nil => rfl
        | cons item items ih => simpa [separatedFrom] using ih
      simp [separatedFrom, h]

/-- Where every declaration has its semicolon, none is left to end. -/
theorem separatedFrom_lined (body : List BodyEntry) (rest : List Piece) :
    separatedFrom false ((body.flatMap fun entry =>
        .entry entry :: if entry.isDeclaration then [.semicolon] else []) ++ rest) =
      separatedFrom false rest := by
  induction body with
  | nil => rfl
  | cons entry body ih =>
      rw [List.flatMap_cons, List.cons_append, List.cons_append, separatedFrom]
      cases entry.isDeclaration with
      | true => simpa [separatedFrom] using ih
      | false => simpa [separatedFrom] using ih

/-- Where semicolons stand between declarations, the last one is left to end. -/
theorem separatedFrom_intersperse {body : List BodyEntry}
    (hbody : ∀ entry ∈ body, entry.isDeclaration = true) (rest : List Piece) :
    separatedFrom false (List.intersperse .semicolon (body.map .entry) ++ rest) =
      separatedFrom (!body.isEmpty) rest := by
  induction body with
  | nil => rfl
  | cons first body ih =>
      have hfirst := hbody first List.mem_cons_self
      have hrest := ih fun entry hentry => hbody entry (List.mem_cons_of_mem _ hentry)
      cases body with
      | nil => simp [separatedFrom, hfirst]
      | cons second body =>
          rw [List.map_cons, List.map_cons, List.intersperse_cons_cons, ← List.map_cons,
            List.cons_append, List.cons_append, separatedFrom, separatedFrom, if_pos hfirst, hrest]
          rfl

/-- **When declarations are kept apart**: in every style but the compressed one, and there if no
declaration or no rule is written. -/
theorem separated_pieces_iff : Separated (style.pieces body items) ↔
    ¬ (style = .compressed ∧ (∃ entry ∈ body, entry.isDeclaration = true) ∧
      items.filterMap (Item.shown? style) ≠ []) := by
  unfold Separated Style.pieces Style.entryPieces
  by_cases hstyle : style = .compressed
  · have hsome : (∃ entry ∈ body, entry.isDeclaration = true) ↔
        body.filter BodyEntry.isDeclaration ≠ [] := by
      simp [List.filter_eq_nil_iff]
    rw [if_pos hstyle, Style.shownEntries, if_pos hstyle,
      separatedFrom_intersperse fun _ => List.of_mem_filter, separatedFrom_blocks, hsome]
    cases body.filter BodyEntry.isDeclaration <;> cases items.filterMap (Item.shown? style) <;>
      simp [hstyle]
  · rw [if_neg hstyle, separatedFrom_lined, separatedFrom_blocks]
    simp [hstyle]

theorem written_intersperse {ps : List Piece} (h : semicolon ∉ ps) :
    written (List.intersperse semicolon ps) = ps := by
  induction ps with
  | nil => rfl
  | cons first ps ih =>
      have hfirst : first ≠ semicolon := fun heq => h (heq ▸ List.mem_cons_self)
      have hrest := ih fun hmem => h (List.mem_cons_of_mem _ hmem)
      cases ps with
      | nil => simp [written, hfirst]
      | cons second ps =>
          rw [written] at hrest
          rw [written, List.intersperse_cons_cons, List.filter_cons_of_pos (by simpa using hfirst),
            List.filter_cons_of_neg (by simp), hrest]

/-- With a semicolon behind each declaration a body is still written as its entries. -/
theorem written_lined (body : List BodyEntry) :
    written (body.flatMap fun entry =>
      .entry entry :: if entry.isDeclaration then [.semicolon] else []) = body.map .entry := by
  induction body with
  | nil => rfl
  | cons entry body ih =>
      rw [written] at ih
      rw [written, List.flatMap_cons, List.filter_append, ih]
      cases entry <;> rfl

/-- **Semicolons apart**, a style writes the entries that it shows and then the items that it
shows. -/
theorem written_pieces (style : Style) (body : List BodyEntry) (items : List Item) :
    written (style.pieces body items) = (style.shownEntries body).map .entry ++
      (items.filterMap (Item.shown? style)).map .block := by
  have hentries : written (style.entryPieces body) = (style.shownEntries body).map .entry := by
    unfold Style.entryPieces
    split
    · exact written_intersperse (by simp)
    · exact written_lined _
  have hblocks : ∀ items : List Item, written (items.map .block) = items.map .block :=
    fun items => List.filter_eq_self.mpr (by simp)
  rw [Style.pieces, written, List.filter_append, ← written, ← written, hentries, hblocks]

end Piece

/-! ## Pieces without their blanks -/

section Ink

variable {style : Style}

theorem ink_join (texts : List String) : ink (String.join texts) = texts.flatMap ink := by
  rw [ink, String.toList_join, List.filter_flatMap]
  rfl

/-- Semicolons between the parts are what the ink of the parts is joined by. -/
theorem flatMap_ink_intersperse (ps : List Piece) :
    (List.intersperse .semicolon ps).flatMap (Piece.ink style) =
      List.intercalate [';'] (ps.map (Piece.ink style)) := by
  induction ps with
  | nil => rfl
  | cons first ps ih =>
      cases ps with
      | nil => simp
      | cons second ps =>
          rw [List.intersperse_cons_cons, List.flatMap_cons, List.flatMap_cons, ih, List.map_cons,
            List.map_cons, List.map_cons, List.intercalate_cons_cons, List.append_assoc]
          rfl

theorem flatMap_ink_lined (body : List BodyEntry) :
    (body.flatMap fun entry => Piece.entry entry :: if entry.isDeclaration then [.semicolon] else
      []).flatMap (Piece.ink style) = body.flatMap fun entry => entry.ink ++ entry.closing := by
  rw [List.flatMap_assoc]
  refine congrArg (List.flatMap · body) (funext fun entry => ?_)
  cases entry <;> simp [Piece.ink, BodyEntry.isDeclaration, BodyEntry.closing]

/-- **The text of a directive without its blanks** is its pieces, one after the other. -/
theorem ink_directive (style : Style) (head : String) (body : List BodyEntry)
    (placed : List Placed) : ink (style.directive head body placed) =
      ink head ++ '{' ::
        (style.pieces body (placed.map (·.item))).flatMap (Piece.ink style) ++ ['}'] := by
  have hblocks : (((placed.map (·.item)).filterMap (Item.shown? style)).map Piece.block).flatMap
      (Piece.ink style) = (style.prints placed).flatMap ink := by
    rw [Style.flatMap_ink_prints, List.flatMap_map]
    rfl
  rw [Style.pieces, List.flatMap_append, hblocks, Style.entryPieces, Style.shownEntries]
  by_cases hstyle : style = .compressed
  · subst hstyle
    rw [if_pos rfl, if_pos rfl, flatMap_ink_intersperse, List.map_map]
    rw [Style.directive, ink_append, ink_append, ink_append, ink_append, ink_intercalate, ink_join,
      renderBody_compressed, map_ink_renderBody_compressed fun _ => List.of_mem_filter]
    simp [ink, Function.comp_def, Piece.ink]
  · have hdirective : style.directive head body placed =
        wrap style 0 head (renderBody style body ++ style.prints placed) := by
      cases style with
      | compressed => exact absurd rfl hstyle
      | _ => rfl
    rw [if_neg hstyle, if_neg hstyle, flatMap_ink_lined, hdirective, ink_wrap, if_neg hstyle,
      List.flatMap_append, flatMap_ink_renderBody hstyle]

end Ink

/-! ## Directives in trees -/

namespace Block

/-- A directive with something in it is written as the entries of its body and the items beneath it.
-/
theorem render_group {style : Style} {children : List Node} {nested : List Block}
    (hflat : ∀ child ∈ children, child.Flat) (h : nestedIn none children = .ok nested)
    (head : String) (depth : Nat) :
    (group head (Node.body children) nested).render style depth =
      [style.directive head (Node.body children) (Node.placedBeneath none 0 children)] := by
  have hnested : ∀ style, renderAll style 0 nested =
      style.prints (Node.placedBeneath none 0 children) :=
    fun style => renderAll_of_nestedIn hflat (fun _ => rfl) h
  cases style with
  | _ => simp only [render, Style.directive, hnested]

end Block

namespace Node

mutual

/-- Where there are no directives, what is printed besides a body are rules that have one. -/
theorem exists_rule_of_mem_placed {p : Placed} :
    ∀ {node : Node} {parents : Option (List (List Char))} {depth : Nat},
      (∀ inner ∈ node.walk, inner.isDirective = false) → node.isBodyPart = false →
      p ∈ node.placed parents depth → ∃ selectors body, p.item = .rule selectors body ∧ body ≠ []
  | ⟨.rule own, line, filename, children⟩, parents, depth, hplain, _, h => by
    have hbeneath : ∀ child ∈ children, ∀ inner ∈ child.walk, inner.isDirective = false :=
      fun child hchild inner hinner => hplain inner (mem_walk_of_child hchild hinner)
    rw [placed] at h
    split at h
    -- a rule without a body is not printed, only what is nested in it
    · exact exists_rule_of_mem_placedBeneath hbeneath h
    · next hbody =>
        rcases List.mem_cons.mp h with rfl | h
        · exact ⟨_, _, rfl, mt List.isEmpty_iff.mpr hbody⟩
        · exact exists_rule_of_mem_placedBeneath hbeneath h
  | ⟨.directive _, _, _, _⟩, _, _, hplain, _, _ => by cases hplain _ (self_mem_walk _)
  | ⟨.comment _ _ _, _, _, _⟩, _, _, _, hpart, _ => by cases hpart
  | ⟨.attr _ _, _, _, _⟩, _, _, _, hpart, _ => by cases hpart
  | ⟨.root, _, _, _⟩, _, _, _, _, h => by
    rw [placed] at h
    cases h

/-- Without directives beneath, what is placed are rules with a body. -/
theorem exists_rule_of_mem_placedBeneath {p : Placed} :
    ∀ {nodes : List Node} {parents : Option (List (List Char))} {depth : Nat},
      (∀ node ∈ nodes, ∀ inner ∈ node.walk, inner.isDirective = false) →
      p ∈ placedBeneath parents depth nodes →
      ∃ selectors body, p.item = .rule selectors body ∧ body ≠ []
  | [], _, _, _, h => by cases h
  | node :: nodes, parents, depth, hplain, h => by
    rw [placedBeneath] at h
    rcases List.mem_append.mp h with h | h
    · split at h
      · cases h
      · next hpart =>
          exact exists_rule_of_mem_placed (hplain node List.mem_cons_self) (by simpa using hpart) h
    · exact exists_rule_of_mem_placedBeneath
        (fun later hlater => hplain later (List.mem_cons_of_mem _ hlater)) h

end

/-- A directive stands directly beneath the root, and no other one in it. -/
theorem WellFormed.directive_plain {tree node : Node} (h : tree.WellFormed)
    (hnode : node ∈ walkAll tree.children) (hdirective : node.isDirective = true) :
    node ∈ tree.children ∧
      ∀ child ∈ node.children, ∀ inner ∈ child.walk, inner.isDirective = false := by
  obtain ⟨top, htop, hinner⟩ := mem_walkAll_iff.mp hnode
  rw [walk_eq] at hinner
  rcases List.mem_cons.mp hinner with rfl | hinner
  · exact ⟨htop, fun child hchild inner hinner => h.directive_at_top node htop inner
      (mem_walkAll_iff.mpr ⟨child, hchild, hinner⟩)⟩
  · rw [h.directive_at_top top htop node hinner] at hdirective
    cases hdirective

end Node

/-- **What is printed of a directive with something in it.** In every style the sheet of an
assembled tree holds the text of the directive: in its braces stand the entries of its own body and
then the rules beneath it, those that the style shows and no others, the same ones for every style
apart from comments. Each declaration is kept apart by a semicolon from the declaration or rule
after it, except that the compressed style puts none between the last declaration and the first
rule. -/
theorem directives_of_assembleTemplate {options : Options} {disk : Disk} {template : String}
    {start after : State} {limit : Nat} {tree : Node}
    (h : assembleTemplate options disk template start limit = (.ok tree, after)) {style : Style}
    {css : String} (hcss : tree.render style = .ok css) :
    ∀ node ∈ Node.walkAll tree.children, ∀ text, node.content = .directive text →
      node.children ≠ [] →
      let body := Node.body node.children
      let placed := Node.placedBeneath none 0 node.children
      let items := placed.map (·.item)
      let pieces := style.pieces body items
      style.Shows (style.directive text body placed) css ∧
      ink (style.directive text body placed) =
        ink text ++ '{' :: pieces.flatMap (Piece.ink style) ++ ['}'] ∧
      (∀ item ∈ items, ∃ selectors entries, item = .rule selectors entries ∧ entries ≠ []) ∧
      Piece.written pieces = (style.shownEntries body).map .entry ++
        (items.filterMap (Item.shown? style)).map .block ∧
      (Piece.Separated pieces ↔ ¬ (style = .compressed ∧
        (∃ entry ∈ body, entry.isDeclaration = true) ∧
        items.filterMap (Item.shown? style) ≠ [])) := by
  intro node hnode text hcontent hchildren body placed items pieces
  have hwell := wellFormed_of_assembleTemplate h
  obtain ⟨htop, hplain⟩ := hwell.directive_plain hnode (by simp [Node.isDirective, hcontent])
  refine ⟨?_, ink_directive style text body placed, fun item hitem => ?_,
    Piece.written_pieces style body items, Piece.separated_pieces_iff⟩
  · obtain ⟨blocks, hblocks, hsheet⟩ := bind_eq_ok_iff.mp hcss
    cases hsheet
    obtain ⟨own, hown, hmem⟩ := Block.exists_ofNode_of_mem hblocks htop
    obtain ⟨content, line, filename, children⟩ := node
    obtain rfl : content = .directive text := hcontent
    rcases Block.ofNode_directive_eq_ok hown with ⟨hempty, -⟩ | ⟨nested, hnested, rfl⟩
    · exact absurd hempty hchildren
    · -- no directive is nested in the directive
      have hflat : ∀ child ∈ children, child.Flat := fun child hchild inner hinner hdirective => by
        rw [hplain child hchild inner hinner] at hdirective
        cases hdirective
      have hrender : (Block.group text (Node.body children) nested).render style 0 =
          [style.directive text (Node.body children) (Node.placedBeneath none 0 children)] :=
        Block.render_group hflat hnested text 0
      refine Block.shows_renderSheet (hmem _ List.mem_cons_self) ?_ (Style.Shows.self style _)
      rw [hrender]
      exact List.mem_singleton_self _
  · obtain ⟨p, hp, rfl⟩ := List.mem_map.mp hitem
    exact Node.exists_rule_of_mem_placedBeneath hplain hp

/-- A declaration and a rule in a directive, in a style that keeps them apart. -/
theorem directives_of_expanded_media :
    let rule : Node := ⟨.rule ⟨["c"], false⟩, some 3, none, [⟨.attr "d" "e", some 4, none, []⟩]⟩
    let media : Node := ⟨.directive "@media print", some 1, none,
      [⟨.attr "a" "b", some 2, none, []⟩, rule]⟩
    let tree : Node := ⟨.root, none, none, [media]⟩
    let css := "@media print \x7b\n  a: b;\n  c \x7b\n    d: e;\n  \x7d\n\x7d\n"
    let pieces : List Piece := [.entry (.declaration "a" "b"), .semicolon,
      .block (.rule [['c']] [.declaration "d" "e"])]
    assembleTemplate {} (Disk.ofKnown []) "@media print\n  :a b\n  c\n    :d e" {} 2 =
        (.ok tree, {}) ∧
      tree.render .expanded = .ok css ∧ media.children ≠ [] ∧
      Style.expanded.Shows (Style.expanded.directive "@media print" [.declaration "a" "b"]
        [⟨0, .rule [['c']] [.declaration "d" "e"]⟩]) css ∧
      Style.expanded.pieces [.declaration "a" "b"] [.rule [['c']] [.declaration "d" "e"]] = pieces ∧
      Piece.Separated pieces := by
  intro rule media tree css pieces
  have h : assembleTemplate {} (Disk.ofKnown []) "@media print\n  :a b\n  c\n    :d e" {} 2 =
      (.ok tree, {}) := by cbv
  have hcss : tree.render .expanded = .ok css := by decide +kernel
  have hmedia : media ∈ Node.walkAll tree.children := by
    dsimp only [tree]
    simp [Node.walk_eq, Node.walkAll]
  have hchildren : media.children ≠ [] := List.cons_ne_nil _ _
  obtain ⟨hshows, -, -, -, hseparated⟩ :=
    directives_of_assembleTemplate h hcss media hmedia "@media print" rfl hchildren
  have hstyle : Style.expanded ≠ .compressed := by decide
  exact ⟨h, hcss, hchildren, hshows, rfl, hseparated.mpr fun hcompressed => hstyle hcompressed.1⟩

/-- In the compressed style the value of the declaration runs into the selector of the rule. -/
theorem unseparated_compressed_media :
    let rule : Node := ⟨.rule ⟨["c"], false⟩, some 3, none, [⟨.attr "d" "e", some 4, none, []⟩]⟩
    let tree : Node := ⟨.root, none, none, [⟨.directive "@media print", some 1, none,
      [⟨.attr "a" "b", some 2, none, []⟩, rule]⟩]⟩
    let pieces : List Piece := [.entry (.declaration "a" "b"),
      .block (.rule [['c']] [.declaration "d" "e"])]
    assembleTemplate {} (Disk.ofKnown []) "@media print\n  :a b\n  c\n    :d e" {} 2 =
        (.ok tree, {}) ∧
      tree.render .compressed = .ok "@media print\x7ba:bc\x7bd:e\x7d\x7d\n" ∧
      Style.compressed.pieces [.declaration "a" "b"] [.rule [['c']] [.declaration "d" "e"]] =
        pieces ∧
      ¬ Piece.Separated pieces := by
  intro rule tree pieces
  refine ⟨by cbv, by decide +kernel, by decide +kernel, by decide⟩

end Stylesheet
