import Mathlib
import Stylesheet.Compilation
import Stylesheet.Proofs.Assembly.Continuation
import Stylesheet.Proofs.Assembly.Provenance
import Stylesheet.Proofs.Assembly.WellFormed
import Stylesheet.Proofs.Css.Selectors
import Stylesheet.Proofs.Line.Consistency

/-!
# The heads of rules

The head of a rule has a selector for every choice of a piece of each rule in the chain that leads
to it. Empty pieces are dropped, so that no selector is empty; but if a rule of the chain has no
piece at all, there is no choice and the head is empty.

A rule has no piece if none of its lines holds more than commas and blanks. Such a line leaves the
list open, and some line has to close it: this can only be a line that is nothing but the backslash
which marks it as a rule.

* `Node.selectors_eq_nil_iff` : a chain without selectors has a rule without pieces.
* `Sources.Lists.exists_backslash` : the lines of a rule without pieces.
* `heads_of_compileTemplate` : the heads in a sheet.
-/

namespace Stylesheet

/-! ## Selectors -/

/-- Cutting a text loses its separators only. -/
theorem Text.exists_mem_pieces {separator c : Char} {cs : List Char} (hc : c ∈ cs)
    (hne : c ≠ separator) : ∃ piece ∈ pieces separator cs, c ∈ piece := by
  induction cs with
  | nil => cases hc
  | cons d cs ih =>
      obtain ⟨first, rest, hpieces⟩ := List.exists_cons_of_ne_nil (pieces_ne_nil separator cs)
      rw [pieces, hpieces]
      rw [hpieces] at ih
      rcases List.mem_cons.mp hc with rfl | hc
      · rw [if_neg hne]
        exact ⟨_, List.mem_cons_self, List.mem_cons_self⟩
      · obtain ⟨piece, hpiece, hmem⟩ := ih hc
        split
        · exact ⟨piece, List.mem_cons_of_mem _ hpiece, hmem⟩
        · rcases List.mem_cons.mp hpiece with rfl | hpiece
          · exact ⟨_, List.mem_cons_self, List.mem_cons_of_mem _ hmem⟩
          · exact ⟨piece, List.mem_cons_of_mem _ hpiece, hmem⟩

namespace Selector

theorem ne_nil_of_mem_ofLines {rules : List String} {piece : List Char}
    (h : piece ∈ ofLines rules) : piece ≠ [] := by
  obtain ⟨rule, -, hpiece⟩ := List.mem_flatMap.mp h
  simpa using (List.mem_filter.mp hpiece).2

theorem inside_ne_nil {outer piece : List Char} (houter : outer ≠ []) (hpiece : piece ≠ []) :
    inside outer piece ≠ [] := by
  obtain ⟨c, rest, rfl⟩ := List.exists_cons_of_ne_nil hpiece
  rw [← beneath_eq_inside, beneath]
  split
  · rw [List.flatMap_cons]
    refine List.append_ne_nil_of_left_ne_nil ?_ _
    split
    · exact houter
    · exact List.cons_ne_nil _ _
  · exact List.append_ne_nil_of_left_ne_nil houter _

/-- Pieces that are not empty make up a selector that is not empty. -/
theorem inwards_ne_nil {choice : List (List Char)} (hchoice : choice ≠ [])
    (hpieces : ∀ piece ∈ choice, piece ≠ []) : inwards choice ≠ [] := by
  obtain ⟨outermost, rest, rfl⟩ := List.exists_cons_of_ne_nil hchoice
  obtain ⟨houtermost, hrest⟩ := List.forall_mem_cons.mp hpieces
  show rest.foldl inside outermost ≠ []
  clear hchoice hpieces
  induction rest generalizing outermost with
  | nil => exact houtermost
  | cons piece rest ih =>
      obtain ⟨hpiece, hrest⟩ := List.forall_mem_cons.mp hrest
      exact ih _ (inside_ne_nil houtermost hpiece) hrest

/-- A line that holds a character which is neither a comma nor blank writes a selector. -/
theorem ofLines_singleton_ne_nil {cs : List Char} {c : Char} (hc : c ∈ cs) (hcomma : c ≠ ',')
    (hblank : Text.isBlank c = false) : ofLines [String.ofList cs] ≠ [] := by
  obtain ⟨piece, hpiece, hmem⟩ := Text.exists_mem_pieces hc hcomma
  have htrim : Text.trim piece ≠ [] := trim_ne_nil ⟨c, hmem, hblank⟩
  have hkept : Text.trim piece ∈ ofLines [String.ofList cs] := by
    rw [ofLines, List.flatMap_singleton, String.toList_ofList, List.mem_filter]
    exact ⟨List.mem_map_of_mem hpiece, by simpa using htrim⟩
  exact List.ne_nil_of_mem hkept

end Selector

namespace Node

theorem ne_nil_of_mem_pieces {node : Node} {piece : List Char} (h : piece ∈ node.pieces) :
    piece ≠ [] := by
  unfold pieces at h
  split at h
  · exact Selector.ne_nil_of_mem_ofLines h
  · cases h

/-- No selector of a rule is empty. -/
theorem ne_nil_of_mem_selectors {chain : List Node} (hchain : chain ≠ []) {selector : List Char}
    (h : selector ∈ selectors chain) : selector ≠ [] := by
  obtain ⟨choice, hchoice, rfl⟩ := List.mem_map.mp h
  refine Selector.inwards_ne_nil (fun hempty => ?_) fun piece hpiece => ?_
  · have hlength := (mem_choices_iff.mp hchoice).length_eq
    rw [hempty, List.length_map] at hlength
    exact hchain (List.eq_nil_of_length_eq_zero hlength.symm)
  · have hlevels : ∀ level ∈ chain.map pieces, ∀ piece ∈ level, piece ≠ [] := by
      intro level hlevel piece hpiece
      obtain ⟨node, -, rfl⟩ := List.mem_map.mp hlevel
      exact ne_nil_of_mem_pieces hpiece
    exact forall_mem_of_forall₂ (mem_choices_iff.mp hchoice).flip hlevels
      (fun _ piece hpiece hlevel => hlevel piece hpiece) piece hpiece

/-- A chain leads to no selector exactly if one of its rules has no piece. -/
theorem selectors_eq_nil_iff (chain : List Node) :
    selectors chain = [] ↔ ∃ rule ∈ chain, rule.pieces = [] := by
  rw [← List.length_eq_zero_iff, selectors, List.length_map, length_choices, List.map_map,
    List.prod_eq_zero_iff]
  simp

mutual

/-- The rules of a chain are those around it, and rules in the tree of the node. -/
theorem mem_walk_of_mem_chains {around chain : List Node} {rule : Node} (hrule : rule ∈ chain) :
    ∀ {node : Node}, chain ∈ node.chains around → rule ∈ around ∨
      rule ∈ node.walk ∧ ∃ selectors, rule.content = .rule selectors
  | ⟨.rule own, line, filename, children⟩, h => by
    rw [chains] at h
    rw [walk_eq]
    have hself : rule ∈ around ++ [⟨.rule own, line, filename, children⟩] → rule ∈ around ∨
        rule ∈ ⟨.rule own, line, filename, children⟩ :: walkAll children ∧
          ∃ selectors, rule.content = .rule selectors := by
      intro hmem
      rcases List.mem_append.mp hmem with hmem | hmem
      · exact .inl hmem
      · rw [List.mem_singleton.mp hmem]
        exact .inr ⟨List.mem_cons_self, own, rfl⟩
    rcases List.mem_cons.mp h with rfl | h
    · exact hself hrule
    · rcases mem_walkAll_of_mem_chainsBeneath hrule h with hmem | ⟨hmem, hcontent⟩
      · exact hself hmem
      · exact .inr ⟨List.mem_cons_of_mem _ hmem, hcontent⟩
  | ⟨.directive _, _, _, children⟩, h => by
    rw [chains] at h
    rw [walk_eq]
    rcases mem_walkAll_of_mem_chainsBeneath hrule h with hmem | ⟨hmem, hcontent⟩
    · cases hmem
    · exact .inr ⟨List.mem_cons_of_mem _ hmem, hcontent⟩
  | ⟨.attr _ _, _, _, _⟩, h => by cases h
  | ⟨.comment _ _ _, _, _, _⟩, h => by cases h
  | ⟨.root, _, _, _⟩, h => by cases h

theorem mem_walkAll_of_mem_chainsBeneath {around chain : List Node} {rule : Node}
    (hrule : rule ∈ chain) :
    ∀ {nodes : List Node}, chain ∈ chainsBeneath around nodes → rule ∈ around ∨
      rule ∈ walkAll nodes ∧ ∃ selectors, rule.content = .rule selectors
  | [], h => by cases h
  | node :: nodes, h => by
    rw [chainsBeneath] at h
    rw [walkAll]
    rcases List.mem_append.mp h with h | h
    · exact (mem_walk_of_mem_chains hrule h).imp_right (And.imp_left (List.mem_append_left _))
    · exact (mem_walkAll_of_mem_chainsBeneath hrule h).imp_right
        (And.imp_left (List.mem_append_right _))

end

end Node

/-! ## The lines of a rule -/

/-- A line that is marked as a rule starts with a backslash. -/
theorem Shape.exists_of_escapedRule {cs : List Char} (h : Shape.of cs = .escapedRule) :
    ∃ rest, cs = '\\' :: rest := by
  unfold Shape.of plainShape at h
  split at h
  case h_7 rest => exact ⟨rest, rfl⟩
  all_goals first | cases h | (split at h <;> cases h)

/-- The selector lists that lines of a compilation write: one line, or a line that leaves its list
open and those that continue it. -/
inductive Sources.Lists (src : Sources) : SelectorList → Prop
  | line {filename : Option String} {line : Line} {selectors : SelectorList} :
      src.Allows filename line → line.Tells src (.rule selectors) → Lists src selectors
  | append {opening more : SelectorList} : Lists src opening → opening.continued = true →
      Lists src more → Lists src (opening.append more)

namespace Sources

variable {src : Sources}

/-- Every rule has a list that lines write. -/
theorem gives_lists : src.Gives fun _ _ content =>
    ∀ selectors, content = .rule selectors → src.Lists selectors where
  told hallows htells selectors hcontent := .line hallows (hcontent ▸ htells)
  joined hopening hopen hmore selectors hcontent := by
    cases hcontent
    exact .append (hopening _ rfl) hopen (hmore _ rfl)

end Sources

/-- The last character of a line is not blank. -/
theorem Line.StandsIn.exists_last {line : Line} {text : String} (h : line.StandsIn text) :
    ∃ c, line.text.toList.getLast? = some c ∧ Text.isBlank c = false := by
  obtain ⟨⟨raw, number⟩, hkept, -, htext⟩ := h.kept
  rw [htext, String.toList_ofList]
  exact Text.exists_last_of_trim (trim_ne_nil (mem_keptLines_iff.mp hkept).2.1)

/-- A text that closes a list writes a selector, if it does not end in a blank. -/
theorem SelectorList.ofLines_ofText_ne_nil {cs : List Char} {c : Char}
    (hlast : cs.getLast? = some c) (hblank : Text.isBlank c = false)
    (hclosed : (ofText cs).continued = false) :
    Selector.ofLines (ofText cs).rules ≠ [] := by
  unfold ofText at hclosed ⊢
  split at hclosed
  · cases hclosed
  · next hcomma =>
      rw [if_neg hcomma]
      refine Selector.ofLines_singleton_ne_nil (List.mem_of_getLast? hlast) (fun hc => ?_) hblank
      rw [hlast, hc] at hcomma
      exact hcomma rfl

/-- A line that closes a list without writing a selector is nothing but a backslash. -/
theorem Line.Tells.eq_backslash {src : Sources} {line : Line} {text : String}
    (hstands : line.StandsIn text) {selectors : SelectorList} (h : line.Tells src (.rule selectors))
    (hclosed : selectors.continued = false) (hempty : Selector.ofLines selectors.rules = []) :
    line.text = "\\" ∧ selectors.rules = [""] := by
  obtain ⟨c, hlast, hblank⟩ := hstands.exists_last
  cases h with
  | rule hshape => exact absurd hempty (SelectorList.ofLines_ofText_ne_nil hlast hblank hclosed)
  | escapedRule hshape =>
      obtain ⟨rest, hrest⟩ := Shape.exists_of_escapedRule hshape
      rw [hrest, List.drop_one, List.tail_cons] at hclosed hempty ⊢
      cases rest with
      | nil => exact ⟨String.toList_inj.mp (by rw [hrest]; rfl), rfl⟩
      | cons d rest =>
          rw [hrest, List.getLast?_cons_cons] at hlast
          exact absurd hempty (SelectorList.ofLines_ofText_ne_nil hlast hblank hclosed)
  | other _ hrule => exact absurd rfl (hrule _)

/-- Some text of the compilation has a line that is nothing but a backslash. -/
def Sources.HasLoneBackslash (src : Sources) : Prop :=
  ∃ (name : Option String) (text : String) (line : Line),
    src.Reads name text ∧ line.StandsIn text ∧ line.text = "\\"

/-- **The lines of a rule without pieces.** The one that closes the list is nothing but a
backslash. -/
theorem Sources.Lists.exists_backslash {src : Sources} (hmixins : src.mixins.entries = [])
    {selectors : SelectorList} (h : src.Lists selectors) (hclosed : selectors.continued = false)
    (hempty : Selector.ofLines selectors.rules = []) :
    selectors.rules.getLast? = some "" ∧ src.HasLoneBackslash := by
  induction h with
  | line hallows htells =>
      obtain ⟨name, text, htext, hstands⟩ := hallows.exists_standsIn hmixins
      obtain ⟨hline, hrules⟩ := htells.eq_backslash hstands hclosed hempty
      exact ⟨by rw [hrules]; rfl, name, text, _, htext, hstands, hline⟩
  | append _ _ _ _ ih =>
      -- the lines before the last one may hold commas only, the last one has to close the list
      rw [SelectorList.append, Selector.ofLines_append] at hempty
      obtain ⟨hlast, hline⟩ := ih hclosed (List.append_eq_nil_iff.mp hempty).2
      exact ⟨by simp [SelectorList.append, hlast], hline⟩

/-! ## The heads of a sheet -/

/-- A template that compiles comes to a tree, and its sheet is written from the blocks of that. -/
theorem exists_blocks_of_compileTemplate {options : Options} {disk : Disk} {template css : String}
    {after : State} (h : compileTemplate options disk template = (.ok css, after)) :
    ∃ tree blocks, assembleTemplate options disk template = (.ok tree, after) ∧
      Block.ofNodes tree.children = .ok blocks ∧
      css = Block.renderSheet options.style blocks := by
  unfold compileTemplate at h
  split at h
  · next tree after' htree =>
      obtain ⟨hcss, rfl⟩ := Prod.mk.inj h
      unfold renderAssembled at hcss
      split at hcss
      · next hrender =>
          cases hcss
          obtain ⟨blocks, hblocks, hsheet⟩ := bind_eq_ok_iff.mp hrender
          exact ⟨tree, blocks, htree, hblocks, (Except.ok.inj hsheet).symm⟩
      · cases hcss
  · cases h

/-- A rule of the tree without pieces comes from a line that is nothing but a backslash. -/
theorem exists_backslash_of_pieces {options : Options} {disk : Disk} {template : String}
    {after : State} {tree rule : Node}
    (h : assembleTemplate options disk template = (.ok tree, after))
    (hrule : rule ∈ Node.walkAll tree.children) {selectors : SelectorList}
    (hcontent : rule.content = .rule selectors) (hpieces : rule.pieces = []) :
    selectors.rules.getLast? = some "" ∧
      Sources.HasLoneBackslash ⟨options, disk, template, {}⟩ := by
  have hlists := Trait.on_of_assembleTemplate Sources.gives_lists h rule hrule _ hcontent
  have hclosed := ((wellFormed_of_assembleTemplate h).settled rule hrule).closed _ hcontent
  rw [Node.pieces, hcontent] at hpieces
  exact hlists.exists_backslash rfl hclosed hpieces

/-- **Which rules are printed without a selector.** Whatever the style, the sheet of a template is
written from blocks whose heads are those of the chains of rules in the tree. No selector in a head
is empty. A head without selectors stands over a rule in whose chain some rule has no piece; the
selector list of that rule ends in an empty text, which some line of the sources has left there that
is nothing but a backslash. If there is no such line, every head has a selector. -/
theorem heads_of_compileTemplate {options : Options} {disk : Disk} {template css : String}
    {after : State} (h : compileTemplate options disk template = (.ok css, after)) :
    let src : Sources := ⟨options, disk, template, {}⟩
    ∃ tree blocks, assembleTemplate options disk template = (.ok tree, after) ∧
      Block.ofNodes tree.children = .ok blocks ∧ css = Block.renderSheet options.style blocks ∧
      Block.headsOf blocks = (Node.chainsBeneath [] tree.children).map Node.selectors ∧
      (∀ head ∈ Block.headsOf blocks, ∀ selector ∈ head, selector ≠ []) ∧
      (∀ chain ∈ Node.chainsBeneath [] tree.children, Node.selectors chain = [] ↔
        ∃ rule ∈ chain, rule.pieces = []) ∧
      (∀ rule ∈ Node.walkAll tree.children, ∀ selectors, rule.content = .rule selectors →
        rule.pieces = [] → selectors.rules.getLast? = some "" ∧ src.HasLoneBackslash) ∧
      (¬ src.HasLoneBackslash → ∀ head ∈ Block.headsOf blocks, head ≠ []) := by
  intro src
  obtain ⟨tree, blocks, htree, hblocks, hsheet⟩ := exists_blocks_of_compileTemplate h
  have hheads := Block.heads_of_ofNodes hblocks
  refine ⟨tree, blocks, htree, hblocks, hsheet, hheads, ?_,
    fun chain _ => Node.selectors_eq_nil_iff chain,
    fun rule hrule selectors => exists_backslash_of_pieces htree hrule, ?_⟩
  · rw [hheads]
    intro head hhead selector hselector
    obtain ⟨chain, hchain, rfl⟩ := List.mem_map.mp hhead
    obtain ⟨outermost, inner, rfl, -⟩ := Node.outermost_of_mem_chainsBeneath hchain
    exact Node.ne_nil_of_mem_selectors (List.cons_ne_nil _ _) hselector
  · rw [hheads]
    intro hnone head hhead hempty
    obtain ⟨chain, hchain, rfl⟩ := List.mem_map.mp hhead
    obtain ⟨rule, hrule, hpieces⟩ := (Node.selectors_eq_nil_iff chain).mp hempty
    -- a rule of a chain is one of the tree
    rcases Node.mem_walkAll_of_mem_chainsBeneath hrule hchain with hnil | ⟨hmem, own, hcontent⟩
    · cases hnil
    · exact hnone (exists_backslash_of_pieces htree hmem hcontent hpieces).2

/-- Where no file can be read, only the template is. -/
theorem Sources.Reads.eq_template {options : Options} {template text : String} {mixins : Mixins}
    {name : Option String}
    (h : Sources.Reads ⟨options, Disk.ofKnown [], template, mixins⟩ name text) :
    text = template := by
  cases h with
  | template => rfl
  | file _ htext => cases htext

/-- A rule in a rule with two selectors, of a template without a line that is a backslash. -/
theorem heads_of_nested_lists :
    let template := "a, b\n  &:c\n    :p q"
    let css := "a:c, b:c \x7b\n  p: q; \x7d\n"
    compileTemplate {} (Disk.ofKnown []) template = (.ok css, {}) ∧
      ¬ Sources.HasLoneBackslash ⟨{}, Disk.ofKnown [], template, {}⟩ ∧
      ∃ blocks, css = Block.renderSheet .nested blocks ∧
        ∀ head ∈ Block.headsOf blocks, head ≠ [] ∧ ∀ selector ∈ head, selector ≠ [] := by
  intro template css
  let tree : Node := ⟨.root, none, none, [⟨.rule ⟨["a, b"], false⟩, some 1, none,
    [⟨.rule ⟨["&:c"], false⟩, some 2, none, [⟨.attr "p" "q", some 3, none, []⟩]⟩]⟩]⟩
  have htree : assembleTemplate {} (Disk.ofKnown []) template = (.ok tree, {}) := by
    dsimp only [template, tree]
    cbv
  have hrender : tree.render .nested = .ok css := by decide +kernel
  have h : compileTemplate {} (Disk.ofKnown []) template = (.ok css, {}) := by
    rw [compileTemplate, htree]
    dsimp only
    rw [renderAssembled, hrender]
  have hnone : ¬ Sources.HasLoneBackslash ⟨{}, Disk.ofKnown [], template, {}⟩ := by
    rintro ⟨name, text, line, hreads, hstands, hline⟩
    rw [hreads.eq_template] at hstands
    obtain ⟨kept, hkept, -, htext⟩ := hstands.kept
    have hlines : keptLines template.toList =
        [("a, b".toList, 1), ("  &:c".toList, 2), ("    :p q".toList, 3)] := by
      dsimp only [template]
      cbv
    rw [hlines] at hkept
    rw [hline] at htext
    simp only [List.mem_cons, List.not_mem_nil, or_false] at hkept
    rcases hkept with rfl | rfl | rfl <;> exact absurd htext (by decide)
  obtain ⟨_, blocks, -, -, hsheet, -, hselectors, -, -, hheads⟩ := heads_of_compileTemplate h
  exact ⟨h, hnone, blocks, hsheet, fun head hhead =>
    ⟨hheads hnone head hhead, hselectors head hhead⟩⟩

/-- A rule whose only line is a backslash is printed without a selector. -/
theorem head_without_selector :
    let options : Options := { style := .expanded }
    let tree : Node := ⟨.root, none, none, [⟨.rule ⟨[""], false⟩, some 1, none,
      [⟨.attr "color" "red", some 2, none, []⟩]⟩]⟩
    assembleTemplate options (Disk.ofKnown []) "\\\n  :color red" = (.ok tree, {}) ∧
      Node.chainsBeneath [] tree.children = [tree.children] ∧
      Node.selectors tree.children = [] ∧
      tree.render .expanded = .ok " \x7b\n  color: red;\n\x7d\n" := by
  intro options tree
  exact ⟨by cbv, rfl, by decide, by decide +kernel⟩

end Stylesheet
