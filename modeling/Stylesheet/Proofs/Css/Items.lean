import Stylesheet.Css.Layout
import Stylesheet.Proofs.Results

/-!
# The items of a tree

What a stylesheet says can be listed without saying how it is written: the rules that have a body,
each with all its selectors and the declarations and comments of its body, the comments outside of
rules, and the directives. The list is read off the tree by one walk, every rule before what is
nested in it; selectors and names of attributes are put together on the way.

A style that can write the tree prints the items of this list, one after the other. Only
directives with something in them are no items, so they are left out here.

* `Node.placed`, `Node.groups` : the items of a node and of a tree.
* `renderAll_of_ofNode` : what a style prints of a node are its items.
-/

namespace Stylesheet

/-- Something that a stylesheet prints in one piece. -/
inductive Item where
  | rule (selectors : List (List Char)) (body : List BodyEntry)
  | comment (comment : Comment)
  | directive (text : String)
  deriving DecidableEq, Repr

/-- An item and the number of rules with a body around it. -/
structure Placed where
  depth : Nat
  item : Item
  deriving DecidableEq, Repr

/-! ## Reading items off a tree -/

/-- The selectors of a rule with the given lines: each of its own with each of the rule around it,
or its own alone. -/
def Selector.combined (parents : Option (List (List Char))) (rules : List String) :
    List (List Char) :=
  match parents with
  | none => ofLines rules
  | some parents => parents.flatMap fun parent => (ofLines rules).map (beneath parent)

namespace Node

mutual

/-- The declarations of an attribute and of those beneath it, whose names follow after a hyphen. -/
def declared (stem : String) : Node → List BodyEntry
  | ⟨.attr name value, _, _, children⟩ =>
    if value.isEmpty then declaredAll (stem ++ name ++ "-") children
    else .declaration (stem ++ name) value :: declaredAll (stem ++ name ++ "-") children
  | _ => []

def declaredAll (stem : String) : List Node → List BodyEntry
  | [] => []
  | node :: nodes => node.declared stem ++ declaredAll stem nodes

end

/-- Whether a node belongs to the body of the node around it. -/
def isBodyPart (node : Node) : Bool :=
  match node.content with
  | .attr _ _ => true
  | .comment _ _ _ => true
  | _ => false

def body (children : List Node) : List BodyEntry :=
  children.flatMap fun child =>
    match child.content with
    | .attr _ _ => child.declared ""
    | .comment text visible lines => ((Block.comment? text visible lines).map .comment).toList
    | _ => []

mutual

def placed (parents : Option (List (List Char))) (depth : Nat) : Node → List Placed
  | ⟨.rule selectors, _, _, children⟩ =>
    if (body children).isEmpty then
      placedBeneath (some (Selector.combined parents selectors.rules)) depth children
    else
      ⟨depth, .rule (Selector.combined parents selectors.rules) (body children)⟩ ::
        placedBeneath (some (Selector.combined parents selectors.rules)) (depth + 1) children
  | ⟨.comment text visible lines, _, _, _⟩ =>
    ((Block.comment? text visible lines).map fun comment => ⟨depth, .comment comment⟩).toList
  | ⟨.directive text, _, _, _⟩ => [⟨depth, .directive text⟩]
  | ⟨.attr _ _, _, _, _⟩ => []
  | ⟨.root, _, _, _⟩ => []

def placedBeneath (parents : Option (List (List Char))) (depth : Nat) : List Node → List Placed
  | [] => []
  | node :: nodes =>
    (if node.isBodyPart then [] else node.placed parents depth) ++ placedBeneath parents depth nodes

end

def groups (tree : Node) : List (List Placed) :=
  tree.children.map (placed none 0)

def items (tree : Node) : List Item :=
  tree.groups.flatten.map (·.item)

end Node

/-! ## Printing items -/

def BodyEntry.isDeclaration : BodyEntry → Bool
  | declaration _ _ => true
  | comment _ => false

/-- What is left of an item without its comments. A rule without a declaration is not printed. -/
def Item.withoutComments? : Item → Option Item
  | rule selectors body =>
    let declarations := body.filter BodyEntry.isDeclaration
    if declarations.isEmpty then none else some (rule selectors declarations)
  | comment _ => none
  | directive text => some (directive text)

/-- What a style prints of an item: all of it, or what is left without comments. -/
def Item.shown? (style : Style) (item : Item) : Option Item :=
  if style = .compressed then item.withoutComments? else some item

def Item.print (style : Style) (depth : Nat) : Item → String
  | rule selectors body =>
    wrap style depth (String.intercalate style.selectorSeparator (selectors.map String.ofList))
      (renderBody style body)
  | comment c => c.render style 0
  | directive text => text ++ ";"

def Style.prints (style : Style) (placed : List Placed) : List String :=
  placed.filterMap fun p => (p.item.shown? style).map (Item.print style p.depth)

def Style.sheet (style : Style) (groups : List (List Placed)) : String :=
  let texts := (groups.map style.prints).filter fun texts => !texts.isEmpty
  if texts.isEmpty then ""
  else
    String.intercalate style.nodeSeparator
      (texts.map (String.intercalate style.blockSeparator)) ++ "\n"

/-! ## What is read off -/

/-- Selectors that resolve are the combinations with their parents. -/
theorem Selector.eq_combined_of_resolve {parents : Option (List (List Char))} {rules : List String}
    {selectors : List (List Char)} (h : resolve parents rules = .ok selectors) :
    selectors = combined parents rules := by
  unfold resolve at h
  cases parents with
  | none =>
      dsimp only at h
      split at h
      · cases h
      · cases h
        rfl
  | some parents =>
      cases h
      rfl

namespace Block

mutual

/-- Declarations that are not refused are those of the attribute tree. -/
theorem declarations_eq {stem : String} :
    ∀ {node : Node} {entries}, declarations stem node = .ok entries → entries = node.declared stem
  | ⟨.attr name value, line, filename, children⟩, entries, h => by
    rw [declarations] at h
    obtain ⟨rest, hrest, h⟩ := bind_eq_ok_iff.mp h
    rw [Node.declared, ← allDeclarations_eq hrest]
    split at h
    all_goals
      cases h
      simp_all
  | ⟨.rule _, _, _, _⟩, entries, h => by cases h
  | ⟨.comment _ _ _, _, _, _⟩, entries, h => by cases h
  | ⟨.directive _, _, _, _⟩, entries, h => by cases h
  | ⟨.root, _, _, _⟩, entries, h => by cases h

theorem allDeclarations_eq {stem : String} :
    ∀ {nodes : List Node} {entries}, allDeclarations stem nodes = .ok entries →
      entries = Node.declaredAll stem nodes
  | [], entries, h => by
    cases h
    rfl
  | node :: nodes, entries, h => by
    rw [allDeclarations] at h
    obtain ⟨first, hfirst, h⟩ := bind_eq_ok_iff.mp h
    obtain ⟨rest, hrest, h⟩ := bind_eq_ok_iff.mp h
    cases h
    rw [Node.declaredAll, ← declarations_eq hfirst, ← allDeclarations_eq hrest]

end

/-- A body that is not refused is the nodes' own. -/
theorem bodyOf_eq {nodes : List Node} {entries : List BodyEntry}
    (h : bodyOf nodes = .ok entries) : entries = Node.body nodes := by
  induction nodes generalizing entries with
  | nil =>
      cases h
      rfl
  | cons node nodes ih =>
      obtain ⟨content, line, filename, children⟩ := node
      rw [Node.body, List.flatMap_cons, ← Node.body]
      cases content with
      | attr name value =>
          obtain ⟨first, hfirst, h⟩ := bind_eq_ok_iff.mp h
          obtain ⟨rest, hrest, h⟩ := bind_eq_ok_iff.mp h
          cases h
          rw [ih hrest, declarations_eq hfirst]
      | _ =>
          obtain ⟨first, hfirst, h⟩ := bind_eq_ok_iff.mp h
          obtain ⟨rest, hrest, h⟩ := bind_eq_ok_iff.mp h
          cases hfirst
          cases h
          rw [ih hrest]

/-- A rule is taken over if its selectors, its body and what is nested in it can be. -/
theorem ofNode_rule_eq_ok {parents : Option (List (List Char))} {selectors : SelectorList}
    {line : Option Int} {filename : Option String} {children : List Node} {blocks : List Block}
    (h : ofNode parents ⟨.rule selectors, line, filename, children⟩ = .ok blocks) :
    ∃ nested, nestedIn (some (Selector.combined parents selectors.rules)) children = .ok nested ∧
      blocks = [rule (Selector.combined parents selectors.rules) (Node.body children) nested] := by
  rw [ofNode] at h
  split at h
  · next resolved hresolved =>
      obtain rfl := Selector.eq_combined_of_resolve hresolved
      obtain ⟨_, hpure, h⟩ := bind_eq_ok_iff.mp h
      cases hpure
      obtain ⟨body, hbody, h⟩ := bind_eq_ok_iff.mp h
      obtain ⟨nested, hnested, h⟩ := bind_eq_ok_iff.mp h
      cases h
      rw [← bodyOf_eq hbody]
      exact ⟨nested, hnested, rfl⟩
  · cases h

/-- Nested blocks are those of the first node, unless it is part of the body, and of the rest. -/
theorem nestedIn_cons_eq_ok {parents : Option (List (List Char))} {node : Node}
    {nodes : List Node} {blocks : List Block}
    (h : nestedIn parents (node :: nodes) = .ok blocks) :
    ∃ first rest, (if node.isBodyPart then .ok [] else ofNode parents node) = .ok first ∧
      nestedIn parents nodes = .ok rest ∧ blocks = first ++ rest := by
  obtain ⟨content, line, filename, children⟩ := node
  rw [nestedIn] at h
  cases content
  all_goals
    obtain ⟨first, hfirst, h⟩ := bind_eq_ok_iff.mp h
    obtain ⟨rest, hrest, h⟩ := bind_eq_ok_iff.mp h
    cases h
    exact ⟨first, rest, hfirst, hrest, rfl⟩

theorem ofNodes_cons_eq_ok {node : Node} {nodes : List Node} {blocks : List Block}
    (h : ofNodes (node :: nodes) = .ok blocks) :
    ∃ first rest, ofNode none node = .ok first ∧ ofNodes nodes = .ok rest ∧
      blocks = first ++ rest := by
  obtain ⟨first, hfirst, h⟩ := bind_eq_ok_iff.mp h
  obtain ⟨rest, hrest, h⟩ := bind_eq_ok_iff.mp h
  cases h
  exact ⟨first, rest, hfirst, hrest, rfl⟩

end Block

/-! ## What is printed -/

theorem Style.prints_append (style : Style) (xs ys : List Placed) :
    style.prints (xs ++ ys) = style.prints xs ++ style.prints ys :=
  List.filterMap_append

theorem Style.prints_cons (style : Style) (p : Placed) (ps : List Placed) :
    style.prints (p :: ps) =
      ((p.item.shown? style).map (Item.print style p.depth)).toList ++ style.prints ps := by
  rw [prints, List.filterMap_cons]
  cases (p.item.shown? style).map (Item.print style p.depth) <;> rfl

/-- Only the nested style minds the depth. -/
theorem wrap_eq {style : Style} {depth depth' : Nat} (h : style = .nested → depth = depth')
    (head : String) (body : List String) :
    wrap style depth head body = wrap style depth' head body := by
  cases style with
  | nested => rw [h rfl]
  | _ => rfl

/-- A body that has parts is written as nothing in the compressed style only. -/
theorem eq_compressed_of_renderBody {style : Style} {body : List BodyEntry} (hbody : body ≠ [])
    (h : renderBody style body = []) : style = .compressed := by
  obtain ⟨entry, rest, rfl⟩ := List.exists_cons_of_ne_nil hbody
  by_cases hstyle : style = .compressed
  · exact hstyle
  · cases entry <;> simp [renderBody, BodyEntry.render?, hstyle] at h

/-- The compressed style prints the declarations among the entries of a body. -/
theorem renderBody_compressed (body : List BodyEntry) :
    renderBody .compressed body = renderBody .compressed (body.filter BodyEntry.isDeclaration) := by
  rw [renderBody, renderBody, List.filterMap_filter]
  refine congrArg (List.filterMap · body) (funext fun entry => ?_)
  cases entry <;> rfl

/-- A compressed body is empty exactly when it declares nothing. -/
theorem renderBody_compressed_eq_nil_iff (body : List BodyEntry) :
    renderBody .compressed body = [] ↔ body.filter BodyEntry.isDeclaration = [] := by
  induction body with
  | nil => simp [renderBody]
  | cons entry body ih =>
      cases entry <;>
        simp_all [renderBody, BodyEntry.render?, BodyEntry.isDeclaration]

/-- A rule is printed if any of its body is. -/
theorem Item.print_rule {style : Style} {depth : Nat} {selectors : List (List Char)}
    {body : List BodyEntry} (hbody : body ≠ []) :
    ((Item.rule selectors body).shown? style).map (Item.print style depth) =
      match renderBody style body with
      | [] => none
      | first :: rest => some (wrap style depth
          (String.intercalate style.selectorSeparator (selectors.map String.ofList))
          (first :: rest)) := by
  cases hprinted : renderBody style body with
  | nil =>
      obtain rfl := eq_compressed_of_renderBody hbody hprinted
      simp [shown?, withoutComments?, (renderBody_compressed_eq_nil_iff body).mp hprinted]
  | cons first rest =>
      by_cases hstyle : style = .compressed
      · subst hstyle
        have hleft : body.filter BodyEntry.isDeclaration ≠ [] := by
          rw [Ne, ← renderBody_compressed_eq_nil_iff, hprinted]
          simp
        simp [shown?, withoutComments?, hleft, Item.print, ← renderBody_compressed, hprinted]
      · simp [shown?, hstyle, Item.print, hprinted]

namespace Block

theorem renderAll_append (style : Style) (depth : Nat) (xs ys : List Block) :
    renderAll style depth (xs ++ ys) = renderAll style depth xs ++ renderAll style depth ys := by
  induction xs with
  | nil => simp [renderAll]
  | cons x xs ih => simp [renderAll, ih]

end Block

/-! ## Nodes -/

namespace Node

/-- No directive in the tree of the node has anything in it. -/
def Flat (node : Node) : Prop :=
  ∀ inner ∈ node.walk, inner.isDirective = true → inner.children = []

theorem Flat.child {content : Content} {line : Option Int} {filename : Option String}
    {children : List Node} (h : Flat ⟨content, line, filename, children⟩) :
    ∀ child ∈ children, child.Flat := by
  intro child hchild inner hinner
  exact h inner (mem_walk_of_child hchild hinner)

end Node

namespace Block

variable {style : Style}

mutual

/-- What a style prints of a node are the items of the node. Only the nested style looks at how deep
they stand. -/
theorem renderAll_of_ofNode :
    ∀ {node : Node} {parents} {depth depth' : Nat} {blocks}, node.Flat →
      (style = .nested → depth = depth') → (node.isBodyPart = true → depth = 0) →
      ofNode parents node = .ok blocks →
      renderAll style depth blocks = style.prints (node.placed parents depth')
  | ⟨.rule selectors, line, filename, children⟩, parents, depth, depth', blocks, hflat, hdepth, _,
      h => by
    obtain ⟨nested, hnested, rfl⟩ := ofNode_rule_eq_ok h
    have hinner : ∀ {depth depth'}, (style = .nested → depth = depth') → _ :=
      fun h => renderAll_of_nestedIn hflat.child h hnested
    rw [renderAll, renderAll, List.append_nil, render, Node.placed]
    by_cases hbody : Node.body children = []
    · rw [hbody]
      exact hinner hdepth
    · rw [if_neg (mt List.isEmpty_iff.mp hbody), Style.prints_cons, Item.print_rule hbody]
      cases hprinted : renderBody style (Node.body children) with
      | nil =>
          -- without its comments the body is empty, and then the style looks at no depth
          refine hinner fun hstyle => ?_
          rw [eq_compressed_of_renderBody hbody hprinted] at hstyle
          cases hstyle
      | cons first rest =>
          dsimp only
          have hdeeper : style = .nested → depth + 1 = depth' + 1 := fun h => by rw [hdepth h]
          rw [wrap_eq hdepth, hinner hdeeper]
          rfl
  | ⟨.comment text visible lines, _, _, _⟩, parents, depth, depth', blocks, _, _, hmargin, h => by
    obtain rfl := hmargin rfl
    rw [ofNode] at h
    cases h
    rw [Node.placed]
    cases comment? text visible lines with
    | none => rfl
    | some c =>
        by_cases hstyle : style = .compressed <;>
          simp [renderAll, render, Style.prints, Item.shown?, Item.withoutComments?, Item.print, hstyle]
  | ⟨.directive text, line, filename, children⟩, parents, depth, depth', blocks, hflat, _, _, h => by
    have hchildren : children = [] := hflat _ (Node.self_mem_walk _) rfl
    subst hchildren
    rw [ofNode] at h
    cases h
    rw [Node.placed]
    by_cases hstyle : style = .compressed <;>
      simp [renderAll, render, Style.prints, Item.shown?, Item.withoutComments?, Item.print, hstyle]
  | ⟨.attr _ _, _, _, _⟩, _, _, _, _, _, _, _, h => by cases h
  | ⟨.root, _, _, _⟩, _, _, _, _, _, _, _, h => by
    rw [ofNode] at h
    cases h
    rw [Node.placed]
    rfl

/-- Nested blocks are rendered to what the style prints for the items placed there. -/
theorem renderAll_of_nestedIn :
    ∀ {nodes : List Node} {parents} {depth depth' : Nat} {blocks}, (∀ node ∈ nodes, node.Flat) →
      (style = .nested → depth = depth') → nestedIn parents nodes = .ok blocks →
      renderAll style depth blocks = style.prints (Node.placedBeneath parents depth' nodes)
  | [], _, _, _, _, _, _, h => by
    cases h
    rfl
  | node :: nodes, parents, depth, depth', blocks, hflat, hdepth, h => by
    obtain ⟨first, rest, hfirst, hrest, rfl⟩ := nestedIn_cons_eq_ok h
    rw [renderAll_append, Node.placedBeneath, Style.prints_append]
    have hlater : ∀ later ∈ nodes, later.Flat :=
      fun later hmem => hflat later (List.mem_cons_of_mem _ hmem)
    refine congr (congrArg _ ?_) (renderAll_of_nestedIn hlater hdepth hrest)
    by_cases hpart : node.isBodyPart = true
    · rw [if_pos hpart] at hfirst ⊢
      cases hfirst
      rfl
    · rw [if_neg hpart] at hfirst ⊢
      exact renderAll_of_ofNode (hflat _ List.mem_cons_self) hdepth (absurd · hpart) hfirst

end

/-- A node is one block at most. -/
theorem eq_toList_of_ofNode {parents : Option (List (List Char))} {node : Node}
    {blocks : List Block} (h : ofNode parents node = .ok blocks) :
    ∃ block? : Option Block, blocks = block?.toList := by
  obtain ⟨content, line, filename, children⟩ := node
  cases content with
  | rule selectors =>
      obtain ⟨nested, -, rfl⟩ := ofNode_rule_eq_ok h
      exact ⟨some _, rfl⟩
  | comment text visible lines =>
      rw [ofNode] at h
      cases h
      exact ⟨_, rfl⟩
  | directive text =>
      rw [ofNode] at h
      split at h
      · cases h
        exact ⟨some _, rfl⟩
      · obtain ⟨body, -, h⟩ := bind_eq_ok_iff.mp h
        obtain ⟨nested, -, h⟩ := bind_eq_ok_iff.mp h
        cases h
        exact ⟨some _, rfl⟩
  | attr name value =>
      rw [ofNode] at h
      cases h
  | root =>
      rw [ofNode] at h
      cases h
      exact ⟨none, rfl⟩

/-- The texts of the nodes beneath the root; where a node has none, none is counted. -/
theorem filter_render_of_ofNodes {nodes : List Node} {blocks : List Block}
    (hflat : ∀ node ∈ nodes, node.Flat) (h : ofNodes nodes = .ok blocks) :
    (blocks.map (render style 0)).filter (fun texts => !texts.isEmpty) =
      ((nodes.map (Node.placed none 0)).map style.prints).filter fun texts => !texts.isEmpty := by
  induction nodes generalizing blocks with
  | nil =>
      cases h
      rfl
  | cons node nodes ih =>
      obtain ⟨first, rest, hfirst, hrest, rfl⟩ := ofNodes_cons_eq_ok h
      have hprints : renderAll style 0 first = style.prints (node.placed none 0) :=
        renderAll_of_ofNode (hflat node List.mem_cons_self) (fun _ => rfl) (fun _ => rfl) hfirst
      have hlater := ih (fun later hmem => hflat later (List.mem_cons_of_mem _ hmem)) hrest
      obtain ⟨block?, rfl⟩ := eq_toList_of_ofNode hfirst
      rw [List.map_append, List.filter_append, hlater, List.map_cons, List.map_cons, ← hprints]
      cases block? with
      | none => rfl
      | some block =>
          simp only [Option.toList_some, renderAll, List.append_nil, List.map_cons, List.map_nil,
            List.filter_cons, List.filter_nil]
          split <;> rfl

end Block

/-- **A tree is written as its items**, if it can be written and its directives are empty. -/
theorem Node.sheet_of_render {style : Style} {tree : Node} {text : String}
    (hflat : ∀ node ∈ tree.children, node.Flat) (h : tree.render style = .ok text) :
    text = style.sheet tree.groups := by
  obtain ⟨blocks, hblocks, h⟩ := bind_eq_ok_iff.mp h
  cases h
  unfold Block.renderSheet Style.sheet
  rw [Block.filter_render_of_ofNodes hflat hblocks]
  rfl

end Stylesheet
