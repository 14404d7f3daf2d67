import Mathlib
import Stylesheet.Proofs.Css.Selectors

/-!
# Namespaced attributes

Attributes may stand beneath attributes. What an attribute with all that is beneath it declares can
be read off the paths that lead from it to each attribute: the names on the path, joined by hyphens,
and the value at its end, if there is one. If something else than an attribute stands on one of the
paths, the first such node in reading order is what the tree is refused for, unless something
before it is wrong.

* `Node.declared_eq_trails` : what is declared, path by path.
* `Block.declarations_eq_trails` : the pairs of an attribute, or the node that is refused.
* `Node.filter_refusals` : what is wrong with attributes among all that is wrong with a tree.
* `Node.attributes_flatten` : attributes, the bodies of rules and whole trees.
-/

namespace Stylesheet

namespace Node

def isAttr (node : Node) : Bool :=
  match node.content with
  | .attr _ _ => true
  | _ => false

def attrName (node : Node) : String :=
  match node.content with
  | .attr name _ => name
  | _ => ""

/-! ## Paths in a tree -/

mutual

/-- The paths to a node and to everything beneath it, every node before what is beneath it. The path
to the node itself comes after the nodes above it. -/
def trails (above : List Node) : Node → List (List Node)
  | ⟨content, line, filename, children⟩ =>
    (above ++ [⟨content, line, filename, children⟩]) ::
      trailsBeneath (above ++ [⟨content, line, filename, children⟩]) children

def trailsBeneath (above : List Node) : List Node → List (List Node)
  | [] => []
  | node :: nodes => node.trails above ++ trailsBeneath above nodes

end

mutual

/-- The paths lead to the nodes of the tree, to each one in its turn. -/
theorem map_getLast?_trails :
    ∀ (above : List Node) (node : Node), (node.trails above).map List.getLast? = node.walk.map some
  | above, ⟨content, line, filename, children⟩ => by
    rw [trails, walk, List.map_cons, List.map_cons, List.getLast?_concat,
      map_getLast?_trailsBeneath _ children]

/-- The trails beneath a forest end in the nodes of its walk, in order. -/
theorem map_getLast?_trailsBeneath :
    ∀ (above nodes : List Node),
      (trailsBeneath above nodes).map List.getLast? = (walkAll nodes).map some
  | _, [] => rfl
  | above, node :: nodes => by
    rw [trailsBeneath, walkAll, List.map_append, List.map_append, map_getLast?_trails above node,
      map_getLast?_trailsBeneath above nodes]

end

/-- Nodes of which each one stands directly beneath the one before it. -/
def IsTrail (trail : List Node) : Prop :=
  trail.IsChain fun node inner => inner ∈ node.children

mutual

/-- A trail goes from each node to a child of it. -/
theorem isTrail_of_mem_trails :
    ∀ {above trail : List Node} {node : Node}, trail ∈ node.trails above →
      ∃ inner, trail = above ++ node :: inner ∧ IsTrail (node :: inner)
  | above, trail, ⟨content, line, filename, children⟩, h => by
    rw [trails] at h
    rcases List.mem_cons.mp h with rfl | h
    · exact ⟨[], rfl, List.isChain_singleton _⟩
    · obtain ⟨child, hchild, inner, rfl, hinner⟩ := isTrail_of_mem_trailsBeneath h
      refine ⟨child :: inner, ?_, List.isChain_cons_cons.mpr ⟨hchild, hinner⟩⟩
      rw [List.append_assoc]
      rfl

theorem isTrail_of_mem_trailsBeneath :
    ∀ {above trail nodes : List Node}, trail ∈ trailsBeneath above nodes →
      ∃ node ∈ nodes, ∃ inner, trail = above ++ node :: inner ∧ IsTrail (node :: inner)
  | _, _, [], h => by cases h
  | above, trail, node :: nodes, h => by
    rw [trailsBeneath] at h
    rcases List.mem_append.mp h with h | h
    · exact ⟨node, List.mem_cons_self, isTrail_of_mem_trails h⟩
    · obtain ⟨later, hlater, htrail⟩ := isTrail_of_mem_trailsBeneath h
      exact ⟨later, List.mem_cons_of_mem _ hlater, htrail⟩

end

/-! ## What attributes declare -/

def joinedName (trail : List Node) : String :=
  String.intercalate "-" (trail.map attrName)

/-- What the attribute at the end of a path declares. An empty value declares nothing. -/
def declared? (trail : List Node) : Option BodyEntry :=
  match trail.getLast? with
  | some ⟨.attr _ value, _, _, _⟩ =>
    if value.isEmpty then none else some (.declaration (joinedName trail) value)
  | _ => none

/-- What comes before the names of attributes that stand beneath some nodes. -/
def stem (above : List Node) : String :=
  if above.isEmpty then "" else joinedName above ++ "-"

theorem joinedName_concat (above : List Node) (node : Node) :
    joinedName (above ++ [node]) = stem above ++ node.attrName := by
  unfold joinedName stem
  cases above with
  | nil => simp
  | cons first rest =>
      rw [List.map_append, String.intercalate_append_of_ne_nil (by simp) (by simp)]
      simp [joinedName]

/-- A stem grows by a name and a hyphen. -/
theorem stem_concat (above : List Node) (node : Node) :
    stem (above ++ [node]) = stem above ++ node.attrName ++ "-" := by
  rw [← joinedName_concat]
  cases above <;> rfl

mutual

/-- What an attribute and those beneath it declare is declared path by path. -/
theorem declared_eq_trails :
    ∀ (above : List Node) (node : Node), (∀ inner ∈ node.walk, inner.isAttr = true) →
      node.declared (stem above) = (node.trails above).filterMap declared?
  | above, ⟨.attr name value, line, filename, children⟩, h => by
    have hbeneath := declaredAll_eq_trails (above ++ [⟨.attr name value, line, filename, children⟩])
      children fun inner hinner => h inner (List.mem_cons_of_mem _ hinner)
    have hown : declared? (above ++ [⟨.attr name value, line, filename, children⟩]) =
        if value.isEmpty then none else some (.declaration (stem above ++ name) value) := by
      rw [declared?, List.getLast?_concat, joinedName_concat]
      rfl
    -- one more node above is one more name and a hyphen in front
    rw [stem_concat] at hbeneath
    rw [declared, trails, List.filterMap_cons, hown, ← hbeneath]
    cases value.isEmpty <;> rfl
  | _, ⟨.rule _, _, _, _⟩, h => absurd (h _ (self_mem_walk _)) Bool.false_ne_true
  | _, ⟨.comment _ _ _, _, _, _⟩, h => absurd (h _ (self_mem_walk _)) Bool.false_ne_true
  | _, ⟨.directive _, _, _, _⟩, h => absurd (h _ (self_mem_walk _)) Bool.false_ne_true
  | _, ⟨.root, _, _, _⟩, h => absurd (h _ (self_mem_walk _)) Bool.false_ne_true

/-- What a stem declares over attributes only is what their trails declare. -/
theorem declaredAll_eq_trails :
    ∀ (above nodes : List Node), (∀ inner ∈ walkAll nodes, inner.isAttr = true) →
      declaredAll (stem above) nodes = (trailsBeneath above nodes).filterMap declared?
  | _, [], _ => rfl
  | above, node :: nodes, h => by
    obtain ⟨hnode, hnodes⟩ := List.forall_mem_append.mp h
    rw [declaredAll, trailsBeneath, List.filterMap_append, declared_eq_trails above node hnode,
      declaredAll_eq_trails above nodes hnodes]

end

/-! ## What is wrong with attributes -/

def misplaced? (node : Node) : Option Node :=
  node.walk.find? fun inner => !inner.isAttr

/-- The refusal of a node that is not an attribute and stands beneath one. -/
def nestingRefusal (node : Node) : Diagnostic :=
  { fault := .nestedBeneathAttribute, line := node.line, filename := node.filename }

mutual

/-- The first refusal beneath an attribute is that of the first node which is none. -/
theorem head?_attrRefusals :
    ∀ node : Node, node.attrRefusals.head? = node.misplaced?.map nestingRefusal
  | ⟨.attr _ _, _, _, children⟩ => head?_attrRefusalsAll children
  | ⟨.rule _, _, _, _⟩ => rfl
  | ⟨.comment _ _ _, _, _, _⟩ => rfl
  | ⟨.directive _, _, _, _⟩ => rfl
  | ⟨.root, _, _, _⟩ => rfl

theorem head?_attrRefusalsAll :
    ∀ nodes : List Node, (attrRefusalsAll nodes).head? =
      ((walkAll nodes).find? fun inner => !inner.isAttr).map nestingRefusal
  | [] => rfl
  | node :: nodes => by
    rw [attrRefusalsAll, walkAll, List.head?_append, List.find?_append, Option.map_or,
      head?_attrRefusals node, head?_attrRefusalsAll nodes]
    rfl

end

end Node

/-! ## What is declared, and what is refused -/

namespace Node

/-- What the attributes in a tree declare, in the order in which they are written. -/
def pairs (node : Node) : List BodyEntry :=
  (node.trails []).filterMap declared?

theorem isDeclaration_of_mem_pairs {node : Node} {entry : BodyEntry} (h : entry ∈ node.pairs) :
    entry.isDeclaration = true := by
  obtain ⟨trail, -, h⟩ := List.mem_filterMap.mp h
  unfold declared? at h
  split at h
  · split at h
    · cases h
    · cases h
      rfl
  · cases h

/-- Nothing is misplaced where an attribute holds attributes only. -/
theorem misplaced?_eq_none_iff (node : Node) :
    node.misplaced? = none ↔ ∀ inner ∈ node.walk, inner.isAttr = true := by
  simp [misplaced?, List.find?_eq_none]

end Node

namespace Block

/-- **The pairs of an attribute.** They are read off the paths from it to all attributes beneath
it; if a node in its tree is not an attribute, the first such node is refused. -/
theorem declarations_eq_trails (node : Node) :
    declarations "" node =
      match node.misplaced? with
      | none => .ok node.pairs
      | some inner => .error inner.nestingRefusal := by
  have hrefused := refusedFor_declarations "" node
  have hhead := Node.head?_attrRefusals node
  cases hmisplaced : node.misplaced? with
  | some inner =>
      rw [hmisplaced] at hhead
      exact (hrefused.error_iff _).mpr hhead
  | none =>
      rw [hmisplaced] at hhead
      have hattrs := node.misplaced?_eq_none_iff.mp hmisplaced
      rw [List.head?_eq_none_iff.mp hhead] at hrefused
      obtain ⟨hok⟩ := hrefused
      rw [hok, declarations_eq hok]
      exact congrArg Except.ok (Node.declared_eq_trails [] node hattrs)

example :
    let attr (name value : String) (children : List Node) : Node :=
      { content := .attr name value, children }
    Node.pairs (attr "font" "" [attr "size" "1px" [attr "adjust" "2" []], attr "family" "x" []]) =
      [.declaration "font-size" "1px", .declaration "font-size-adjust" "2",
        .declaration "font-family" "x"] := by
  decide +kernel

end Block

/-! ## Bodies -/

namespace Node

/-- What is wrong with a body is what is wrong with its attributes. -/
theorem head?_bodyRefusals (children : List Node) :
    (bodyRefusals children).head? =
      ((children.filter isAttr).findSome? misplaced?).map nestingRefusal := by
  induction children with
  | nil => rfl
  | cons child children ih =>
      obtain ⟨content, line, filename, inner⟩ := child
      rw [bodyRefusals, List.flatMap_cons, ← bodyRefusals]
      cases content with
      | attr name value =>
          rw [List.filter_cons_of_pos rfl, List.findSome?_cons, List.head?_append, ih]
          dsimp only
          rw [head?_attrRefusals]
          cases misplaced? _ <;> rfl
      | _ => exact ih

/-- The declarations in a body are the pairs of its attributes, in their order. -/
theorem filter_body {children : List Node}
    (h : ∀ child ∈ children, child.isAttr = true → child.misplaced? = none) :
    (body children).filter BodyEntry.isDeclaration = (children.filter isAttr).flatMap pairs := by
  induction children with
  | nil => rfl
  | cons child children ih =>
      obtain ⟨hchild, hchildren⟩ := List.forall_mem_cons.mp h
      obtain ⟨content, line, filename, inner⟩ := child
      rw [body, List.flatMap_cons, ← body, List.filter_append, ih hchildren]
      cases content with
      | attr name value =>
          have hattrs := (misplaced?_eq_none_iff _).mp (hchild rfl)
          have hpairs : declared "" ⟨.attr name value, line, filename, inner⟩ =
              pairs ⟨.attr name value, line, filename, inner⟩ := declared_eq_trails [] _ hattrs
          rw [List.filter_cons_of_pos rfl, List.flatMap_cons]
          dsimp only
          rw [hpairs, List.filter_eq_self.mpr fun _ hentry => isDeclaration_of_mem_pairs hentry]
      | comment text visible lines =>
          dsimp only
          cases Block.comment? text visible lines <;> rfl
      | _ => rfl

end Node

namespace Block

/-- Beneath the attributes in a body that can be made up are only attributes. -/
theorem misplaced?_of_bodyOf {children : List Node} {entries : List BodyEntry}
    (h : bodyOf children = .ok entries) :
    ∀ child ∈ children, child.isAttr = true → child.misplaced? = none := by
  intro child hchild hattr
  have hhead := Node.head?_bodyRefusals children
  have hrefused := refusedFor_bodyOf children
  rw [h] at hrefused
  generalize Node.bodyRefusals children = wrong at hhead hrefused
  cases hrefused with
  | first herror => cases herror
  | nothing _ =>
      have hnone := List.findSome?_eq_none_iff.mp (Option.map_eq_none_iff.mp hhead.symm)
      exact hnone child (List.mem_filter.mpr ⟨hchild, hattr⟩)

/-- The body of a rule or directive that is taken over can be made up. -/
theorem bodyOf_of_ofNode {parents : Option (List (List Char))} {node : Node} {blocks : List Block}
    (h : ofNode parents node = .ok blocks) (hpart : node.isBodyPart = false)
    (hroot : node.content ≠ .root) : ∃ entries, bodyOf node.children = .ok entries := by
  obtain ⟨content, line, filename, children⟩ := node
  cases content with
  | root => exact absurd rfl hroot
  | attr name value => cases hpart
  | comment text visible lines => cases hpart
  | rule own =>
      rw [ofNode] at h
      split at h
      · obtain ⟨resolved, -, h⟩ := bind_eq_ok_iff.mp h
        obtain ⟨entries, hentries, -⟩ := bind_eq_ok_iff.mp h
        exact ⟨entries, hentries⟩
      · cases h
  | directive text =>
      rw [ofNode] at h
      split at h
      · next hempty =>
          obtain rfl := List.isEmpty_iff.mp hempty
          exact ⟨[], rfl⟩
      · obtain ⟨entries, hentries, -⟩ := bind_eq_ok_iff.mp h
        exact ⟨entries, hentries⟩

/-- The texts of a rule: that of its body, if there is one, and then those of what is nested in
it. -/
theorem render_rule (style : Style) (depth : Nat) (selectors : List (List Char))
    (body : List BodyEntry) (nested : List Block) :
    ∃ inner, (rule selectors body nested).render style depth =
      (if renderBody style body = [] then [] else
        [wrap style depth (String.intercalate style.selectorSeparator (selectors.map String.ofList))
          (renderBody style body)]) ++ renderAll style inner nested := by
  rw [render]
  cases renderBody style body with
  | nil => exact ⟨depth, rfl⟩
  | cons first rest => exact ⟨depth + 1, rfl⟩

end Block

/-! ## Whole trees -/

namespace Node

mutual

/-- The nodes in a tree that are written with a body: the rules and directives that no attribute and
no comment stands above. -/
def owners : Node → List Node
  | ⟨.rule selectors, line, filename, children⟩ =>
    ⟨.rule selectors, line, filename, children⟩ :: ownersBeneath children
  | ⟨.directive text, line, filename, children⟩ =>
    ⟨.directive text, line, filename, children⟩ :: ownersBeneath children
  | _ => []

def ownersBeneath : List Node → List Node
  | [] => []
  | node :: nodes => node.owners ++ ownersBeneath nodes

end

/-- The first node that is not an attribute and stands beneath an attribute of some body. -/
def firstMisplaced? (tree : Node) : Option Node :=
  (ownersBeneath tree.children).findSome? fun owner =>
    (owner.children.filter isAttr).findSome? misplaced?

theorem owners_of_isBodyPart {node : Node} (h : node.isBodyPart = true) : node.owners = [] := by
  obtain ⟨content, line, filename, children⟩ := node
  cases content with
  | attr _ _ => rfl
  | comment _ _ _ => rfl
  | _ => cases h

def isNesting (d : Diagnostic) : Bool :=
  d.fault = .nestedBeneathAttribute

theorem filter_bodyRefusals (children : List Node) :
    (bodyRefusals children).filter isNesting = bodyRefusals children :=
  List.filter_eq_self.mpr fun _ hd => decide_eq_true (fault_of_mem_bodyRefusals hd)

mutual

/-- What is wrong with attributes among all that is wrong with a node: what is wrong with the
bodies, one after the other. -/
theorem filter_refusals :
    ∀ (base : Bool) (node : Node), (node.refusals base).filter isNesting =
      node.owners.flatMap fun owner => bodyRefusals owner.children
  | base, ⟨.rule selectors, line, filename, children⟩ => by
    rw [refusals, owners, List.filter_append, List.filter_append, filter_bodyRefusals,
      filter_refusalsBeneath false children, List.flatMap_cons]
    -- the selectors are refused for a fault of their own or not at all
    split <;> rfl
  | _, ⟨.directive _, _, _, children⟩ => by
    rw [refusals, owners, List.filter_append, filter_bodyRefusals,
      filter_refusalsBeneath true children, List.flatMap_cons]
  | _, ⟨.attr _ _, _, _, _⟩ => rfl
  | _, ⟨.comment _ _ _, _, _, _⟩ => rfl
  | _, ⟨.root, _, _, _⟩ => rfl

/-- The refusals of nesting are those of the bodies, owner by owner. -/
theorem filter_refusalsBeneath :
    ∀ (base : Bool) (nodes : List Node), (refusalsBeneath base nodes).filter isNesting =
      (ownersBeneath nodes).flatMap fun owner => bodyRefusals owner.children
  | _, [] => rfl
  | base, node :: nodes => by
    rw [refusalsBeneath, ownersBeneath, List.filter_append, List.flatMap_append,
      filter_refusalsBeneath base nodes]
    congr 1
    split
    · next hpart =>
        rw [owners_of_isBodyPart hpart]
        rfl
    · exact filter_refusals base node

end

theorem ownersBeneath_eq (nodes : List Node) : ownersBeneath nodes = nodes.flatMap owners := by
  induction nodes with
  | nil => rfl
  | cons node nodes ih => rw [ownersBeneath, ih, List.flatMap_cons]

/-- A tree with a misplaced descendant has a first one. -/
theorem exists_firstMisplaced? {tree owner attr : Node} (howner : owner ∈ ownersBeneath tree.children)
    (hchild : attr ∈ owner.children) (hattr : attr.isAttr = true)
    (h : ∃ inner ∈ attr.walk, inner.isAttr = false) :
    ∃ inner, tree.firstMisplaced? = some inner := by
  refine Option.ne_none_iff_exists'.mp fun hnone => ?_
  have hbody := List.findSome?_eq_none_iff.mp hnone owner howner
  have hown := List.findSome?_eq_none_iff.mp hbody attr (List.mem_filter.mpr ⟨hchild, hattr⟩)
  obtain ⟨inner, hinner, hfalse⟩ := h
  rw [attr.misplaced?_eq_none_iff.mp hown inner hinner] at hfalse
  cases hfalse

/-- The first thing that is wrong with attributes in a tree. -/
theorem head?_filter_refusals (tree : Node) :
    ((tree.children.flatMap (refusals true)).filter isNesting).head? =
      tree.firstMisplaced?.map nestingRefusal := by
  have hfilter : (tree.children.flatMap (refusals true)).filter isNesting =
      (ownersBeneath tree.children).flatMap fun owner => bodyRefusals owner.children := by
    rw [List.filter_flatMap, ownersBeneath_eq, List.flatMap_assoc]
    exact List.flatMap_congr fun node _ => filter_refusals true node
  rw [hfilter, List.head?_flatMap, firstMisplaced?, List.map_findSome?]
  exact congrArg (List.findSome? · _) (funext fun owner => head?_bodyRefusals owner.children)

/-- **Attributes are flattened to their paths.** An attribute comes to one pair for each attribute in
its tree that has a value, the names on the path to it joined by hyphens, in reading order; unless
there is something else than attributes in the tree, of which the first is then refused. In the body
of a rule that is written stand the pairs of its attributes, one attribute after the other, and the
body stands before all that is nested in the rule. A tree that has an attribute of a body with
something else beneath it is refused, and if it is refused for such a thing, it is for the first. -/
theorem attributes_flatten (style : Style) (tree : Node) :
    (∀ attr : Node, attr.isAttr = true →
      (attr.trails []).map List.getLast? = attr.walk.map some ∧
      (∀ trail ∈ attr.trails [], trail.head? = some attr ∧ IsTrail trail) ∧
      Block.declarations "" attr =
        match attr.walk.find? fun inner => !inner.isAttr with
        | none => .ok ((attr.trails []).filterMap declared?)
        | some inner => .error
            { fault := .nestedBeneathAttribute, line := inner.line, filename := inner.filename }) ∧
    (∀ parents own line filename children blocks,
      Block.ofNode parents ⟨.rule own, line, filename, children⟩ = .ok blocks →
      ∃ selectors body nested, blocks = [.rule selectors body nested] ∧
        body.filter BodyEntry.isDeclaration =
          (children.filter isAttr).flatMap (fun attr => (attr.trails []).filterMap declared?) ∧
        ∀ depth, ∃ inner, (Block.rule selectors body nested).render style depth =
          (if renderBody style body = [] then [] else [wrap style depth
            (String.intercalate style.selectorSeparator (selectors.map String.ofList))
            (renderBody style body)]) ++ Block.renderAll style inner nested) ∧
    (∀ d, tree.render style = .error d → d.fault = .nestedBeneathAttribute →
      d.message = "Illegal nesting: Only attributes may be nested beneath attributes." ∧
      ∃ inner, tree.firstMisplaced? = some inner ∧ d.line = inner.line ∧
        d.filename = inner.filename) ∧
    ∀ owner ∈ ownersBeneath tree.children, ∀ attr ∈ owner.children, attr.isAttr = true →
      (∃ inner ∈ attr.walk, inner.isAttr = false) →
      ∃ inner, tree.firstMisplaced? = some inner ∧ (∃ d, tree.render style = .error d) ∧
        ((∀ d ∈ tree.children.flatMap (refusals true), d.fault = .nestedBeneathAttribute) →
          tree.render style = .error
            { fault := .nestedBeneathAttribute, line := inner.line, filename := inner.filename }) := by
  -- a tree is refused for the first of its refusals, of whatever kind it is
  have herror : ∀ d, tree.render style = .error d ↔
      (tree.children.flatMap (refusals true)).head? = some d :=
    ((Block.refusedFor_ofNodes tree.children).map (Block.renderSheet style)).error_iff
  have hfirst := head?_filter_refusals tree
  refine ⟨?_, ?_, ?_, ?_⟩
  · intro attr _
    refine ⟨map_getLast?_trails [] attr, fun trail htrail => ?_, Block.declarations_eq_trails attr⟩
    obtain ⟨inner, rfl, hchain⟩ := isTrail_of_mem_trails htrail
    exact ⟨rfl, hchain⟩
  · intro parents own line filename children blocks h
    obtain ⟨entries, hbody⟩ := Block.bodyOf_of_ofNode h rfl nofun
    obtain ⟨nested, -, rfl⟩ := Block.ofNode_rule_eq_ok h
    exact ⟨_, _, nested, rfl, filter_body (Block.misplaced?_of_bodyOf hbody), fun depth =>
      Block.render_rule style depth _ _ nested⟩
  · intro d hd hfault
    obtain ⟨rest, hwrong⟩ := List.head?_eq_some_iff.mp ((herror d).mp hd)
    have hnesting : isNesting d = true := decide_eq_true hfault
    rw [hwrong, List.filter_cons_of_pos hnesting] at hfirst
    obtain ⟨inner, hinner, rfl⟩ := Option.map_eq_some_iff.mp hfirst.symm
    exact ⟨rfl, inner, hinner, rfl, rfl⟩
  · intro owner howner attr hchild hattr hmisplaced
    obtain ⟨inner, hinner⟩ := exists_firstMisplaced? howner hchild hattr hmisplaced
    rw [hinner] at hfirst
    obtain ⟨rest, hnestings⟩ := List.head?_eq_some_iff.mp hfirst
    have hmem : inner.nestingRefusal ∈ tree.children.flatMap (refusals true) :=
      List.mem_of_mem_filter (hnestings ▸ List.mem_cons_self)
    refine ⟨inner, hinner, ?_, fun honly => ?_⟩
    · obtain ⟨d, more, hwrong⟩ := List.exists_cons_of_ne_nil (List.ne_nil_of_mem hmem)
      exact ⟨d, (herror d).mpr (by rw [hwrong]; rfl)⟩
    · -- without refusals of other kinds the first one is the first of this kind
      have hall : (tree.children.flatMap (refusals true)).filter isNesting =
          tree.children.flatMap (refusals true) :=
        List.filter_eq_self.mpr fun d hd => decide_eq_true (honly d hd)
      rw [hall] at hfirst
      exact (herror _).mpr hfirst

/-- A rule beneath an attribute beneath an attribute. -/
theorem attributes_flatten_of_misplaced_rule :
    let misplaced : Node := ⟨.rule ⟨["b"], false⟩, some 4, some "f", []⟩
    let attr : Node := ⟨.attr "font" "", some 2, none,
      [⟨.attr "size" "1px", some 3, none, [misplaced]⟩]⟩
    let owner : Node := ⟨.rule ⟨["a"], false⟩, some 1, none, [attr]⟩
    let tree : Node := ⟨.root, none, none, [owner]⟩
    owner ∈ ownersBeneath tree.children ∧ attr ∈ owner.children ∧ attr.isAttr = true ∧
    (∃ inner ∈ attr.walk, inner.isAttr = false) ∧
    (∀ d ∈ tree.children.flatMap (refusals true), d.fault = .nestedBeneathAttribute) ∧
    tree.firstMisplaced? = some misplaced ∧
    tree.render .nested = .error
      { fault := .nestedBeneathAttribute, line := some 4, filename := some "f" } := by
  intro misplaced attr owner tree
  have howner : owner ∈ ownersBeneath tree.children := List.mem_cons_self
  have hchild : attr ∈ owner.children := List.mem_cons_self
  have hmisplaced : ∃ inner ∈ attr.walk, inner.isAttr = false :=
    ⟨misplaced, List.mem_cons_of_mem _ (List.mem_cons_of_mem _ List.mem_cons_self), rfl⟩
  have honly : ∀ d ∈ tree.children.flatMap (refusals true), d.fault = .nestedBeneathAttribute := by
    decide
  obtain ⟨inner, hinner, -, herror⟩ :=
    (attributes_flatten .nested tree).2.2.2 owner howner attr hchild rfl hmisplaced
  have hfirst : tree.firstMisplaced? = some misplaced := rfl
  obtain rfl : misplaced = inner := Option.some.inj (hfirst.symm.trans hinner)
  exact ⟨howner, hchild, rfl, hmisplaced, honly, hfirst, herror honly⟩

end Node

end Stylesheet
