import Mathlib
import Stylesheet.Proofs.Assembly.Siblings

/-!
# Assembled trees are well formed

Whatever mixture of open selector lists, inclusions and imports a tree comes from, no rule in it
is left open, directives stand directly beneath the root and nowhere else, comments are leaves and
every node but the root knows its line.

Nodes reach a tree in two ways: built from a line, or put in the place of a line that imports or
includes. The second kind is only looked at from above (`place`), so the invariant is carried by
whole forests: `Node.Deep` says of a node all that has to hold beneath it, and nothing but the node
itself is left to check where it is put.

* `arrange_yields` : sibling lines give deep nodes, and no directives beneath the root.
* `wellFormed_of_assembleTemplate` : an assembled tree is well formed.
-/

namespace Stylesheet

namespace Node

/-- What holds of every node beneath the root. -/
structure Settled (node : Node) : Prop where
  line_isSome : node.line.isSome
  ne_root : node.content ≠ .root
  closed : ∀ selectors, node.content = .rule selectors → selectors.continued = false
  leaf : ∀ text visible lines, node.content = .comment text visible lines → node.children = []

/-- What holds of an assembled tree. -/
structure WellFormed (tree : Node) : Prop where
  root : tree.content = .root
  settled : ∀ node ∈ walkAll tree.children, node.Settled
  directive_at_top : ∀ top ∈ tree.children, ∀ node ∈ walkAll top.children,
    node.isDirective = false

/-- Everything in the tree of a node is settled, and no directive stands beneath the node. -/
structure Deep (node : Node) : Prop where
  settled : ∀ inner ∈ node.walk, inner.Settled
  directive : ∀ inner ∈ walkAll node.children, inner.isDirective = false

/-- A node that may stand beneath another one than the root. -/
structure Inner (node : Node) : Prop extends Deep node where
  isDirective : node.isDirective = false

/-- An inner node has no directive in its walk. -/
theorem Inner.walk {node : Node} (h : node.Inner) :
    ∀ inner ∈ node.walk, inner.isDirective = false := by
  intro inner hin
  rw [walk_eq] at hin
  rcases List.mem_cons.mp hin with rfl | hin
  · exact h.isDirective
  · exact h.directive inner hin

/-- A settled node over inner ones is deep. -/
theorem Settled.deep {node : Node} (h : node.Settled) (hc : ∀ child ∈ node.children, child.Inner) :
    node.Deep where
  settled := by
    intro inner hin
    rw [walk_eq] at hin
    rcases List.mem_cons.mp hin with rfl | hin
    · exact h
    · obtain ⟨child, hchild, hin⟩ := mem_walkAll_iff.mp hin
      exact (hc child hchild).settled inner hin
  directive := by
    intro inner hin
    obtain ⟨child, hchild, hin⟩ := mem_walkAll_iff.mp hin
    exact (hc child hchild).walk inner hin

/-- A forest of deep nodes makes up a well-formed tree. -/
theorem wellFormed_of_deep {filename : Option String} {nodes : List Node}
    (h : ∀ node ∈ nodes, node.Deep) :
    WellFormed ⟨.root, none, filename, nodes⟩ where
  root := rfl
  settled := by
    intro inner hin
    obtain ⟨node, hnode, hin⟩ := mem_walkAll_iff.mp hin
    exact (h node hnode).settled inner hin
  directive_at_top := fun node hnode => (h node hnode).directive

/-- A node as it is built from a line: all but a selector list that may still be open. -/
structure Built (node : Node) : Prop where
  line_isSome : node.line.isSome
  ne_root : node.content ≠ .root
  leaf : ∀ text visible lines, node.content = .comment text visible lines → node.children = []
  children : ∀ child ∈ node.children, child.Inner

theorem Built.deep {node : Node} (h : node.Built)
    (hc : ∀ selectors, node.content = .rule selectors → selectors.continued = false) :
    node.Deep :=
  Settled.deep ⟨h.line_isSome, h.ne_root, hc, h.leaf⟩ h.children

end Node

open Assembly

/-- Nodes that may be put at the root or not. -/
def FitFor (root : Bool) (nodes : List Node) : Prop :=
  ∀ node ∈ nodes, node.Deep ∧ (root = false → node.isDirective = false)

/-- Nodes that are fit for a place below the root hold no directives. -/
theorem FitFor.inner {nodes : List Node} (h : FitFor false nodes) : ∀ node ∈ nodes, node.Inner :=
  fun node hnode => ⟨(h node hnode).1, (h node hnode).2 rfl⟩

theorem FitFor.deep {root : Bool} {nodes : List Node} (h : FitFor root nodes) :
    ∀ node ∈ nodes, node.Deep :=
  fun node hnode => (h node hnode).1

theorem FitFor.append {root : Bool} {xs ys : List Node} (hx : FitFor root xs)
    (hy : FitFor root ys) : FitFor root (xs ++ ys) := by
  intro node hnode
  rcases List.mem_append.mp hnode with h | h
  · exact hx node h
  · exact hy node h

/-- Lines that stand elsewhere give nodes that are fit for where they are put. -/
def Elsewhere.Fit (elsewhere : Elsewhere) : Prop :=
  ∀ context root lines, Yields (elsewhere context root lines) (FitFor root)

variable {elsewhere : Elsewhere} {context : Context}

/-! ## Lines -/

/-- What a line means is no root, and nodes that it puts in its place are deep. -/
def Meaning.Sound : Meaning Content → Prop
  | .item content => content ≠ .root
  | .nodes _ inserted => ∀ node ∈ inserted, node.Deep
  | _ => True

/-- The reference that stands for a passed-through import is well formed. -/
theorem reference_deep (line : Int) (name : String) : (reference context line name).Deep :=
  Node.Settled.deep
    ⟨rfl, by simp [reference], by simp [reference], by simp [reference]⟩ (by simp [reference])

/-- A document yields a root whose nodes are well formed. -/
theorem document_yields (h : elsewhere.Fit) (template : String) :
    Yields (document elsewhere context template) fun tree =>
      ∃ filename nodes, tree = ⟨.root, none, filename, nodes⟩ ∧ ∀ node ∈ nodes, node.Deep := by
  refine Yields.mapDiagnostic ?_
  cases parseLines template.toList with
  | error d => exact Yields.throw _
  | ok lines =>
      refine Yields.bind (h context true lines) ?_
      intro nodes hn
      exact Yields.pure ⟨_, nodes, rfl, hn.deep⟩

theorem importFile_yields (h : elsewhere.Fit) (line : Int) (target path : String) :
    Yields (importFile elsewhere context line target path) fun nodes =>
      ∀ node ∈ nodes, node.Deep := by
  unfold importFile
  split
  · exact Yields.refuse _ _
  · exact Yields.throw _
  · refine Yields.bind (Yields.any _) ?_
    intro _ _
    refine Yields.bind (Yields.mapDiagnostic (Yields.restoring (document_yields h _))) ?_
    rintro _ ⟨filename, nodes, rfl, hn⟩
    exact Yields.pure hn

theorem importTarget_yields (h : elsewhere.Fit) (line : Int) (target : List Char) :
    Yields (importTarget elsewhere context line target) fun nodes =>
      ∀ node ∈ nodes, node.Deep := by
  have href : ∀ name, ∀ node ∈ [reference context line name], node.Deep := by
    intro name node hnode
    rw [List.mem_singleton.mp hnode]
    exact reference_deep line name
  unfold importTarget
  split
  · exact Yields.bind (Yields.any _) fun _ _ => importFile_yields h line _ _
  · exact Yields.bind (Yields.any _) fun _ _ => Yields.pure (href _)
  · exact Yields.pure (href _)
  · exact Yields.refuse _ _

theorem importTargets_yields (h : elsewhere.Fit) (line : Int) (targets : List (List Char)) :
    Yields (importTargets elsewhere context line targets) fun nodes =>
      ∀ node ∈ nodes, node.Deep := by
  induction targets with
  | nil => exact Yields.pure (by simp)
  | cons target targets ih =>
      rw [importTargets]
      refine Yields.bind (importTarget_yields h line target) ?_
      intro nodes hn
      refine Yields.bind ih ?_
      intro more hm
      refine Yields.pure ?_
      intro node hnode
      rcases List.mem_append.mp hnode with hnode | hnode
      · exact hn node hnode
      · exact hm node hnode

/-- Including a mixin yields well-formed nodes. -/
theorem includeMixin_yields (h : elsewhere.Fit) (text : List Char) (line : Int) :
    Yields (includeMixin elsewhere context text line) fun nodes => ∀ node ∈ nodes, node.Deep := by
  unfold includeMixin
  refine Yields.bind (Yields.any _) ?_
  intro state _
  split
  · exact Yields.refuse _ _
  · split
    · exact Yields.refuse _ _
    · exact (h _ false _).mono fun nodes => FitFor.deep

theorem attribute?_yields (way : AttributeSyntax) (text : List Char) (line : Int) :
    Yields (attribute? context way text line) (· ≠ .root) := by
  unfold attribute?
  split
  · exact Yields.refuse _ _
  · split
    · exact Yields.refuse _ _
    · exact Yields.bind (Yields.any _) fun _ _ => Yields.pure (by simp)
    · exact Yields.pure (by simp)

/-- What a line means is sound: no root, and nodes that are well formed. -/
theorem meaning_yields (h : elsewhere.Fit) (line : Line) :
    Yields (meaning elsewhere context line) Meaning.Sound := by
  dsimp only [meaning]
  cases Shape.of line.text.toList with
  | attr way => exact Yields.bind (attribute?_yields way _ _) fun _ hc => Yields.pure hc
  | constant => exact Yields.bind (Yields.any _) fun _ _ => Yields.pure trivial
  | silentComment => exact Yields.pure trivial
  | comment => exact Yields.pure (by simp [Meaning.Sound])
  | directive =>
      dsimp only
      split
      · split
        · exact Yields.refuse _ _
        · exact Yields.bind (importTargets_yields h _ _) fun _ hn => Yields.pure hn
      · exact Yields.pure (by simp [Meaning.Sound])
  | escapedRule => exact Yields.pure (by simp [Meaning.Sound])
  | mixinDefinition => exact Yields.bind (Yields.any _) fun _ _ => Yields.pure trivial
  | mixinInclusion => exact Yields.bind (includeMixin_yields h _ _) fun _ hn => Yields.pure hn
  | rule => exact Yields.pure (by simp [Meaning.Sound])

/-! ## Siblings -/

def Meaning.Built : Meaning Node → Prop
  | .item node => node.Built
  | .nodes _ inserted => ∀ node ∈ inserted, node.Deep
  | _ => True

def OpenRule.Located (opened : Option OpenRule) : Prop :=
  ∀ first ∈ opened, first.line.isSome

theorem place_item_yields (root : Bool) (line : Int) {node : Node} (h : node.Deep) :
    Yields (place root line (.item node)) (FitFor root) := by
  dsimp only [place]
  split
  · exact Yields.refuse _ _
  · next hd =>
      refine Yields.pure ?_
      intro n hn
      rw [List.mem_singleton.mp hn]
      refine ⟨h, fun hr => ?_⟩
      simpa [hr] using hd

theorem place_nodes_yields (root : Bool) (line : Int) (origin : Origin) {nodes : List Node}
    (h : ∀ node ∈ nodes, node.Deep) :
    Yields (place root line (.nodes origin nodes)) (FitFor root) := by
  dsimp only [place]
  split
  · exact Yields.refuse _ _
  · next hd =>
      refine Yields.pure ?_
      intro n hn
      refine ⟨h n hn, fun hr => ?_⟩
      rw [hr] at hd
      simp only [Bool.not_false, Bool.true_and, Bool.not_eq_true, List.any_eq_false] at hd
      simpa using hd n hn

/-- What is put in the place of a built line, whose selector list is not open, is fit for it. -/
theorem place_yields (root : Bool) (line : Int) {found : Meaning Node} (h : found.Built)
    (hc : ∀ node selectors, found = .item node → node.content = .rule selectors →
      selectors.continued = false) :
    Yields (place root line found) (FitFor root) := by
  have hempty : Yields (pure [] : Assembly (List Node)) (FitFor root) :=
    Yields.pure (by simp [FitFor])
  cases found with
  | item node => exact place_item_yields root line (h.deep fun selectors => hc node selectors rfl)
  | nodes origin nodes => exact place_nodes_yields root line origin h
  | silent => exact hempty
  | constant =>
      dsimp only [place]
      split
      · exact hempty
      · exact Yields.refuse _ _
  | mixin =>
      dsimp only [place]
      split
      · exact hempty
      · exact Yields.refuse _ _

/-- The node that closes an open rule keeps the children it has and a line. -/
theorem OpenRule.join_built {opened : Option OpenRule} (ho : OpenRule.Located opened)
    {selectors : SelectorList} {number : Option Int} {filename : Option String}
    {children : List Node} (h : Node.Built ⟨.rule selectors, number, filename, children⟩) :
    (OpenRule.join opened selectors ⟨.rule selectors, number, filename, children⟩).2.Built := by
  cases opened with
  | none => exact h
  | some first =>
      exact ⟨ho first rfl, by simp [OpenRule.join], by simp [OpenRule.join], h.children⟩

/-- Joining rules yields nodes fit for their place and leaves an open rule with its line. -/
theorem continueRule_yields (root : Bool) (line : Int) {opened : Option OpenRule}
    (ho : OpenRule.Located opened) {found : Meaning Node} (h : found.Built) :
    Yields (continueRule root line opened found) fun result =>
      FitFor root result.1 ∧ OpenRule.Located result.2 := by
  unfold continueRule
  split
  · next selectors number filename children =>
      have hb := OpenRule.join_built ho h
      obtain ⟨hcontent, hcontinued⟩ :=
        OpenRule.join_content opened selectors number filename children
      dsimp only
      split
      · split
        · refine Yields.pure ⟨by simp [FitFor], ?_⟩
          intro first hf
          cases hf
          exact hb.line_isSome
        · exact Yields.refuse _ _
      · next hclosed =>
          refine Yields.pure ⟨?_, by simp [OpenRule.Located]⟩
          intro node hn
          rw [List.mem_singleton.mp hn]
          refine ⟨hb.deep fun s hs => ?_, fun _ => ?_⟩
          · rw [hcontent] at hs
            cases hs
            simpa [hcontinued] using hclosed
          · simp [Node.isDirective, hcontent]
  · next hne =>
      split
      · exact Yields.refuse _ _
      · refine Yields.bind (place_yields root line h fun node selectors hitem hrule => ?_) ?_
        · obtain ⟨content, number, filename, children⟩ := node
          cases hrule
          exact absurd hitem (hne _ _ _ _)
        · exact fun nodes hn => Yields.pure ⟨hn, by simp [OpenRule.Located]⟩

mutual

/-- A line comes to a node that is built, or to deep nodes. -/
theorem build_yields (h : elsewhere.Fit) :
    ∀ line, Yields (build elsewhere context line) Meaning.Built
  | ⟨text, depth, index, children⟩ => by
    rw [build_eq]
    refine Yields.bind (meaning_yields h _) fun found hfound => ?_
    refine Yields.bind (Yields.any _) fun _ _ => ?_
    cases found with
    | item content =>
        refine Yields.bind (P := fun nodes : List Node => (∀ node ∈ nodes, node.Inner) ∧
          ∀ text visible lines, content = .comment text visible lines → nodes = []) ?_ ?_
        · unfold beneath
          split
          · exact Yields.pure (by simp)
          · next hne =>
              refine (arrange_yields h false children none (by simp [OpenRule.Located])).mono ?_
              exact fun nodes hn => ⟨hn.inner, fun _ _ _ hc => absurd hc (hne _ _ _)⟩
        · intro nodes hn
          exact Yields.pure ⟨rfl, hfound, hn.2, hn.1⟩
    | nodes origin nodes => exact Yields.pure hfound
    | constant => exact Yields.pure trivial
    | mixin => exact Yields.pure trivial
    | silent => exact Yields.pure trivial

/-- Sibling lines come to deep nodes, and to no directives beneath the root. -/
theorem arrange_yields (h : elsewhere.Fit) (root : Bool) :
    ∀ lines opened, OpenRule.Located opened →
      Yields (arrange elsewhere context root opened lines) (FitFor root)
  | [], none, _ => by
    rw [arrange]
    exact Yields.pure (by simp [FitFor])
  | [], some first, _ => by
    rw [arrange]
    exact Yields.refuse _ _
  | line :: lines, opened, ho => by
    rw [arrange_cons]
    refine Yields.bind (build_yields h line) fun found hfound => ?_
    refine Yields.bind (continueRule_yields root line.index ho hfound) ?_
    rintro ⟨nodes, opened⟩ ⟨hn, ho⟩
    exact Yields.bind (arrange_yields h root lines opened ho) fun more hm =>
      Yields.pure (hn.append hm)

end

/-! ## Documents -/

/-- Assembling gives fit nodes, however deep inclusions and imports may be nested. -/
theorem assemble_fit (limit : Nat) : (assemble limit).Fit := by
  induction limit with
  | zero => exact fun _ _ _ => Yields.throw _
  | succ limit ih =>
      exact fun context root lines => arrange_yields ih root lines none (by simp [OpenRule.Located])

/-- **An assembled tree is well formed**, whatever state the assembly starts from. -/
theorem wellFormed_of_assembleTemplate {options : Options} {disk : Disk} {template : String}
    {limit : Nat} {before after : State} {tree : Node}
    (h : assembleTemplate options disk template before limit = (.ok tree, after)) :
    tree.WellFormed := by
  obtain ⟨filename, nodes, rfl, hn⟩ :=
    document_yields (assemble_fit limit) template before tree after h
  exact Node.wellFormed_of_deep hn

/-- A selector list over two lines with an inclusion beneath it, a comment and a directive. -/
theorem wellFormed_open_list_over_inclusion :
    let tree : Node := ⟨.root, none, none,
      [⟨.rule ⟨["a", "b"], false⟩, some 3, none, [⟨.attr "p" "q", some 2, none, []⟩]⟩,
        ⟨.comment "/* c" true [⟨"d", 1, 7, []⟩], some 6, none, []⟩,
        ⟨.directive "@page", some 8, none, []⟩]⟩
    let after : State := ⟨.standard, ⟨[("m", [⟨":p q", 1, 2, []⟩])]⟩, []⟩
    assembleTemplate {} (Disk.ofKnown []) "=m\n  :p q\na,\nb\n  +m\n/* c\n  d\n@page" {} 3 =
        (.ok tree, after) ∧
      tree.WellFormed := by
  intro tree after
  have h : assembleTemplate {} (Disk.ofKnown []) "=m\n  :p q\na,\nb\n  +m\n/* c\n  d\n@page" {} 3 =
      (.ok tree, after) := by cbv
  exact ⟨h, wellFormed_of_assembleTemplate h⟩

end Stylesheet
