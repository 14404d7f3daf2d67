import Mathlib.Data.List.Forall2
import Mathlib.Algebra.BigOperators.Group.List.Basic
import Stylesheet.Proofs.Css.Items

/-!
# Selectors of nested rules

A rule is reached through a chain of rules, from one that stands in no rule inwards; inside a directive
chains start anew. The selectors of a rule are one for every choice of a piece of each rule of its
chain, put together going inwards. No `&` is left in any of them: the outermost rule may not write one,
and every other one is replaced by a selector without it.

Everything that is wrong with a tree is listed in the order in which it is looked at. A tree is refused
for the first thing on the list.

* `length_choices`, `mem_choices_iff` : the choices of a piece per level.
* `heads_of_ofNode` : the selectors of all rules in a node.
* `Node.render_products_or_refusal` : what the selectors of a stylesheet are.
-/

namespace Stylesheet

/-! ## Choices -/

/-- The ways to choose an element of each level, in lexicographic order: the first level is the most
significant one. -/
def choices {α : Type} : List (List α) → List (List α)
  | [] => [[]]
  | level :: levels => level.flatMap fun x => (choices levels).map (x :: ·)

section

variable {α : Type}

/-- There are as many choices as the product of the levels' sizes. -/
theorem length_choices (levels : List (List α)) :
    (choices levels).length = (levels.map List.length).prod := by
  induction levels with
  | nil => rfl
  | cons level levels ih =>
      rw [choices, List.length_flatMap, List.map_cons, List.prod_cons, ← ih]
      simp

/-- A choice takes one of each level. -/
theorem mem_choices_iff {levels : List (List α)} {choice : List α} :
    choice ∈ choices levels ↔ List.Forall₂ (· ∈ ·) choice levels := by
  induction levels generalizing choice with
  | nil => simp [choices]
  | cons level levels ih =>
      rw [choices, List.mem_flatMap, List.forall₂_cons_right_iff]
      constructor
      · rintro ⟨x, hx, hchoice⟩
        obtain ⟨rest, hrest, rfl⟩ := List.mem_map.mp hchoice
        exact ⟨x, rest, hx, ih.mp hrest, rfl⟩
      · rintro ⟨x, rest, hx, hrest, rfl⟩
        exact ⟨x, hx, List.mem_map.mpr ⟨rest, ih.mpr hrest, rfl⟩⟩

/-- One level more at the end is the least significant one. -/
theorem choices_concat (levels : List (List α)) (level : List α) :
    choices (levels ++ [level]) =
      (choices levels).flatMap fun choice => level.map fun x => choice ++ [x] := by
  induction levels with
  | nil => simp [choices, List.map_eq_flatMap]
  | cons first levels ih =>
      rw [List.cons_append, choices, ih, choices, List.flatMap_assoc]
      simp [List.flatMap_map, List.map_flatMap, Function.comp_def]

end

/-! ## Putting selectors together -/

namespace Selector

def inside (outer piece : List Char) : List Char :=
  if parentReference ∈ piece then List.intercalate outer (Text.pieces parentReference piece)
  else outer ++ ' ' :: piece

/-- The selector that pieces make up going inwards from the first one. -/
def inwards : List (List Char) → List Char
  | [] => []
  | outermost :: pieces => pieces.foldl inside outermost

theorem intercalate_cons_head (separator : List Char) (c : Char) (piece : List Char)
    (rest : List (List Char)) : List.intercalate separator ((c :: piece) :: rest) =
      c :: List.intercalate separator (piece :: rest) := by
  cases rest with
  | nil => simp
  | cons next rest => simp [List.intercalate_cons_cons]

/-- Replacing a character is putting the text for it between the parts that it separates. -/
theorem flatMap_eq_intercalate (separator : Char) (outer piece : List Char) :
    (piece.flatMap fun c => if c = separator then outer else [c]) =
      List.intercalate outer (Text.pieces separator piece) := by
  induction piece with
  | nil => rfl
  | cons c piece ih =>
      obtain ⟨first, rest, hpieces⟩ :=
        List.exists_cons_of_ne_nil (Text.pieces_ne_nil separator piece)
      rw [hpieces] at ih
      rw [List.flatMap_cons, ih, Text.pieces, hpieces]
      split
      · simp [List.intercalate, List.intersperse]
      · rw [intercalate_cons_head]
        rfl

/-- Replacing each parent reference is putting the parent between the pieces around them. -/
theorem beneath_eq_inside (outer piece : List Char) : beneath outer piece = inside outer piece := by
  unfold beneath inside
  rw [flatMap_eq_intercalate]
  simp only [List.contains_iff_mem]

/-- A selector without `&` leaves none in a piece. -/
theorem parentReference_notMem_beneath {outer : List Char} (h : parentReference ∉ outer)
    (piece : List Char) : parentReference ∉ beneath outer piece := by
  unfold beneath
  split
  · rw [List.mem_flatMap]
    rintro ⟨c, -, hc⟩
    split at hc
    · exact h hc
    · next hne => exact hne (List.mem_singleton.mp hc).symm
  · next hpiece =>
      have hpiece' : parentReference ∉ piece := by simpa using hpiece
      simp only [List.mem_append, List.mem_cons, not_or]
      exact ⟨h, by decide, hpiece'⟩

theorem inwards_concat {choice : List (List Char)} (h : choice ≠ []) (piece : List Char) :
    inwards (choice ++ [piece]) = beneath (inwards choice) piece := by
  obtain ⟨outermost, rest, rfl⟩ := List.exists_cons_of_ne_nil h
  rw [beneath_eq_inside]
  simp [inwards]

end Selector

/-! ## Chains of rules -/

namespace Node

def pieces (node : Node) : List (List Char) :=
  match node.content with
  | .rule selectors => Selector.ofLines selectors.rules
  | _ => []

mutual

/-- The chains of rules that lead to the rules of a node, in source order. The rules `around` it come
first in each of them; a directive starts anew. -/
def chains (around : List Node) : Node → List (List Node)
  | ⟨.rule selectors, line, filename, children⟩ =>
    let chain := around ++ [⟨.rule selectors, line, filename, children⟩]
    chain :: chainsBeneath chain children
  | ⟨.directive _, _, _, children⟩ => chainsBeneath [] children
  | _ => []

def chainsBeneath (around : List Node) : List Node → List (List Node)
  | [] => []
  | node :: nodes => node.chains around ++ chainsBeneath around nodes

end

def selectors (chain : List Node) : List (List Char) :=
  (choices (chain.map pieces)).map Selector.inwards

/-- The selectors that the rules around a node pass on to it, if there are any. -/
def passedOn (around : List Node) : Option (List (List Char)) :=
  if around = [] then none else some (selectors around)

theorem combined_passedOn (around : List Node) (rule : SelectorList) (line : Option Int)
    (filename : Option String) (children : List Node) :
    Selector.combined (passedOn around) rule.rules =
      selectors (around ++ [⟨.rule rule, line, filename, children⟩]) := by
  rw [selectors, List.map_append, List.map_singleton, choices_concat, List.map_flatMap]
  unfold passedOn
  split
  · next hnone =>
      subst hnone
      simp [Selector.combined, choices, Selector.inwards, pieces, Function.comp_def]
  · next hsome =>
      -- a choice of one piece per rule is empty only if there is no rule
      have hne : ∀ choice ∈ choices (around.map pieces), choice ≠ [] := by
        intro choice hchoice hnil
        have hlength := (mem_choices_iff.mp hchoice).length_eq
        rw [hnil] at hlength
        exact hsome (by simpa using hlength.symm)
      rw [Selector.combined, selectors, List.flatMap_map]
      refine List.flatMap_congr fun choice hchoice => ?_
      rw [List.map_map]
      refine List.map_congr_left fun piece _ => ?_
      exact (Selector.inwards_concat (hne choice hchoice) piece).symm

end Node

/-! ## The selectors of blocks -/

namespace Block

mutual

def heads : Block → List (List (List Char))
  | rule selectors _ nested => selectors :: headsOf nested
  | group _ _ nested => headsOf nested
  | comment _ => []
  | statement _ => []

def headsOf : List Block → List (List (List Char))
  | [] => []
  | block :: blocks => block.heads ++ headsOf blocks

end

theorem headsOf_append (xs ys : List Block) : headsOf (xs ++ ys) = headsOf xs ++ headsOf ys := by
  induction xs with
  | nil => rfl
  | cons x xs ih => rw [List.cons_append, headsOf, headsOf, ih, List.append_assoc]

/-- A directive is a statement if it is empty, and a group otherwise. -/
theorem ofNode_directive_eq_ok {parents : Option (List (List Char))} {text : String}
    {line : Option Int} {filename : Option String} {children : List Node} {blocks : List Block}
    (h : ofNode parents ⟨.directive text, line, filename, children⟩ = .ok blocks) :
    children = [] ∧ blocks = [statement text] ∨
      ∃ nested, nestedIn none children = .ok nested ∧
        blocks = [group text (Node.body children) nested] := by
  rw [ofNode] at h
  split at h
  · next hempty =>
      cases h
      exact .inl ⟨List.isEmpty_iff.mp hempty, rfl⟩
  · obtain ⟨body, hbody, h⟩ := bind_eq_ok_iff.mp h
    obtain ⟨nested, hnested, h⟩ := bind_eq_ok_iff.mp h
    cases h
    rw [← bodyOf_eq hbody]
    exact .inr ⟨nested, hnested, rfl⟩

mutual

/-- The rules in a node have the selectors of the chains that lead to them. -/
theorem heads_of_ofNode (around : List Node) :
    ∀ {node : Node} {blocks}, ofNode (Node.passedOn around) node = .ok blocks →
      headsOf blocks = (node.chains around).map Node.selectors
  | ⟨.rule own, line, filename, children⟩, blocks, h => by
    obtain ⟨nested, hnested, rfl⟩ := ofNode_rule_eq_ok h
    rw [Node.combined_passedOn around own line filename children] at hnested ⊢
    -- the rule passes the selectors of its own chain on to what is nested in it
    have hpassed : Node.passedOn (around ++ [⟨.rule own, line, filename, children⟩]) =
        some (Node.selectors (around ++ [⟨.rule own, line, filename, children⟩])) := by
      simp [Node.passedOn]
    rw [← hpassed] at hnested
    have hbeneath := heads_of_nestedIn _ hnested
    rw [headsOf, heads, hbeneath, Node.chains]
    simp [headsOf]
  | ⟨.directive text, line, filename, children⟩, blocks, h => by
    rw [Node.chains]
    rcases ofNode_directive_eq_ok h with ⟨rfl, rfl⟩ | ⟨nested, hnested, rfl⟩
    · rfl
    · rw [headsOf, heads, headsOf, List.append_nil]
      exact heads_of_nestedIn [] hnested
  | ⟨.comment text visible lines, _, _, _⟩, blocks, h => by
    rw [ofNode] at h
    cases h
    cases comment? text visible lines <;> rfl
  | ⟨.attr _ _, _, _, _⟩, _, h => by cases h
  | ⟨.root, _, _, _⟩, _, h => by
    rw [ofNode] at h
    cases h
    rfl

theorem heads_of_nestedIn (around : List Node) :
    ∀ {nodes : List Node} {blocks}, nestedIn (Node.passedOn around) nodes = .ok blocks →
      headsOf blocks = (Node.chainsBeneath around nodes).map Node.selectors
  | [], _, h => by
    cases h
    rfl
  | node :: nodes, blocks, h => by
    obtain ⟨first, rest, hfirst, hrest, rfl⟩ := nestedIn_cons_eq_ok h
    rw [headsOf_append, Node.chainsBeneath, List.map_append, heads_of_nestedIn around hrest]
    congr 1
    split at hfirst
    · next hpart =>
        cases hfirst
        obtain ⟨content, line, filename, children⟩ := node
        cases content <;> first | rfl | cases hpart
    · exact heads_of_ofNode around hfirst

end

end Block

namespace Node

/-! ## No reference is left -/

mutual

/-- A chain starts with the outermost rule around the node, or with a rule in no rule that a chain of its
own leads to. -/
theorem outermost_of_mem_chains {around chain : List Node} :
    ∀ {node : Node}, chain ∈ node.chains around →
      ∃ outermost inner, chain = outermost :: inner ∧
        (around.head? = some outermost ∨ [outermost] ∈ node.chains around)
  | ⟨.rule own, line, filename, children⟩, h => by
    rw [chains] at h ⊢
    rcases List.mem_cons.mp h with rfl | h
    · cases around with
      | nil => exact ⟨_, [], rfl, .inr List.mem_cons_self⟩
      | cons outermost around => exact ⟨outermost, _, rfl, .inl rfl⟩
    · obtain ⟨outermost, inner, rfl, hhead | hown⟩ := outermost_of_mem_chainsBeneath h
      · refine ⟨outermost, inner, rfl, ?_⟩
        cases around with
        | nil =>
            cases hhead
            exact .inr List.mem_cons_self
        | cons _ _ => exact .inl hhead
      · exact ⟨outermost, inner, rfl, .inr (List.mem_cons_of_mem _ hown)⟩
  | ⟨.directive _, _, _, children⟩, h => by
    rw [chains] at h ⊢
    obtain ⟨outermost, inner, rfl, hhead | hown⟩ := outermost_of_mem_chainsBeneath h
    · cases hhead
    · exact ⟨outermost, inner, rfl, .inr hown⟩
  | ⟨.attr _ _, _, _, _⟩, h => by cases h
  | ⟨.comment _ _ _, _, _, _⟩, h => by cases h
  | ⟨.root, _, _, _⟩, h => by cases h

theorem outermost_of_mem_chainsBeneath {around chain : List Node} :
    ∀ {nodes : List Node}, chain ∈ chainsBeneath around nodes →
      ∃ outermost inner, chain = outermost :: inner ∧
        (around.head? = some outermost ∨ [outermost] ∈ chainsBeneath around nodes)
  | [], h => by cases h
  | node :: nodes, h => by
    rw [chainsBeneath] at h ⊢
    rcases List.mem_append.mp h with h | h
    · obtain ⟨outermost, inner, hchain, hfirst⟩ := outermost_of_mem_chains h
      exact ⟨outermost, inner, hchain, hfirst.imp_right (List.mem_append_left _)⟩
    · obtain ⟨outermost, inner, hchain, hfirst⟩ := outermost_of_mem_chainsBeneath h
      exact ⟨outermost, inner, hchain, hfirst.imp_right (List.mem_append_right _)⟩

end

/-- A rule that writes an `&` in one of its selectors. -/
def RefersToParent (node : Node) : Prop :=
  ∃ piece ∈ node.pieces, Selector.parentReference ∈ piece

instance (node : Node) : Decidable node.RefersToParent :=
  inferInstanceAs (Decidable (∃ piece ∈ node.pieces, Selector.parentReference ∈ piece))

/-- If the outermost rule writes no `&`, none is left going inwards. -/
theorem parentReference_notMem_selectors {outermost : Node} (h : ¬ outermost.RefersToParent)
    (inner : List Node) : ∀ s ∈ selectors (outermost :: inner), Selector.parentReference ∉ s := by
  intro s hs
  obtain ⟨choice, hchoice, rfl⟩ := List.mem_map.mp hs
  obtain ⟨first, rest, hfirst, -, rfl⟩ :=
    List.forall₂_cons_right_iff.mp (mem_choices_iff.mp hchoice)
  have hfree : Selector.parentReference ∉ first := fun hmem => h ⟨first, hfirst, hmem⟩
  show Selector.parentReference ∉ rest.foldl Selector.inside first
  clear hchoice hfirst hs
  induction rest generalizing first with
  | nil => exact hfree
  | cons piece rest ih =>
      refine ih (Selector.inside first piece) ?_
      rw [← Selector.beneath_eq_inside]
      exact Selector.parentReference_notMem_beneath hfree piece

end Node

/-! ## What is wrong with a tree -/

namespace Node

mutual

/-- What is wrong with an attribute: only attributes may be nested beneath it. -/
def attrRefusals : Node → List Diagnostic
  | ⟨.attr _ _, _, _, children⟩ => attrRefusalsAll children
  | ⟨_, line, filename, _⟩ => [{ fault := .nestedBeneathAttribute, line, filename }]

def attrRefusalsAll : List Node → List Diagnostic
  | [] => []
  | node :: nodes => node.attrRefusals ++ attrRefusalsAll nodes

end

def bodyRefusals (children : List Node) : List Diagnostic :=
  children.flatMap fun child =>
    match child.content with
    | .attr _ _ => child.attrRefusals
    | _ => []

mutual

/-- All that is wrong with a node, in the order in which it is looked at; at the base a node is in no
rule. -/
def refusals (base : Bool) : Node → List Diagnostic
  | ⟨.rule selectors, line, filename, children⟩ =>
    (if base ∧ RefersToParent ⟨.rule selectors, line, filename, children⟩ then
      [{ fault := .parentReferenceAtBase, line, filename }] else []) ++
      (bodyRefusals children ++ refusalsBeneath false children)
  | ⟨.directive _, _, _, children⟩ => bodyRefusals children ++ refusalsBeneath true children
  | ⟨.attr _ _, line, filename, _⟩ => [{ fault := .attributeAtRoot, line, filename }]
  | ⟨.comment _ _ _, _, _, _⟩ => []
  | ⟨.root, _, _, _⟩ => []

/-- What is wrong with those nodes that are no part of the body of the node around them. -/
def refusalsBeneath (base : Bool) : List Node → List Diagnostic
  | [] => []
  | node :: nodes =>
    (if node.isBodyPart then [] else node.refusals base) ++ refusalsBeneath base nodes

end

end Node

/-- A computation that is refused for the first of some reasons, and comes to a result if there is
none. -/
inductive RefusedFor {α : Type} (x : Except Diagnostic α) : List Diagnostic → Prop
  | nothing {a : α} : x = .ok a → RefusedFor x []
  | first {d : Diagnostic} {ds : List Diagnostic} : x = .error d → RefusedFor x (d :: ds)

namespace RefusedFor

variable {α β : Type} {x : Except Diagnostic α} {ds es : List Diagnostic}

theorem bind {f : α → Except Diagnostic β} (hx : RefusedFor x ds)
    (hf : ∀ a, RefusedFor (f a) es) : RefusedFor (x >>= f) (ds ++ es) := by
  cases hx with
  | nothing hok =>
      rw [hok]
      exact hf _
  | first herror =>
      rw [herror]
      exact .first rfl

theorem map (hx : RefusedFor x ds) (f : α → β) : RefusedFor (x >>= fun a => pure (f a)) ds := by
  have h : RefusedFor (x >>= fun a => pure (f a)) (ds ++ []) := hx.bind fun _ => .nothing rfl
  rwa [List.append_nil] at h

theorem error_iff (h : RefusedFor x ds) (d : Diagnostic) : x = .error d ↔ ds.head? = some d := by
  cases h with
  | nothing hok => simp [hok]
  | first herror => simp [herror]

end RefusedFor

namespace Block

mutual

theorem refusedFor_declarations :
    ∀ (stem : String) (node : Node), RefusedFor (declarations stem node) node.attrRefusals
  | stem, ⟨.attr name value, line, filename, children⟩ => by
    rw [declarations, Node.attrRefusals]
    exact (refusedFor_allDeclarations (stem ++ name ++ "-") children).map _
  | _, ⟨.rule _, _, _, _⟩ => .first rfl
  | _, ⟨.comment _ _ _, _, _, _⟩ => .first rfl
  | _, ⟨.directive _, _, _, _⟩ => .first rfl
  | _, ⟨.root, _, _, _⟩ => .first rfl

theorem refusedFor_allDeclarations :
    ∀ (stem : String) (nodes : List Node),
      RefusedFor (allDeclarations stem nodes) (Node.attrRefusalsAll nodes)
  | _, [] => .nothing rfl
  | stem, node :: nodes => by
    rw [allDeclarations, Node.attrRefusalsAll]
    exact (refusedFor_declarations stem node).bind fun _ =>
      (refusedFor_allDeclarations stem nodes).map _

end

theorem refusedFor_bodyOf (children : List Node) :
    RefusedFor (bodyOf children) (Node.bodyRefusals children) := by
  induction children with
  | nil => exact .nothing rfl
  | cons child children ih =>
      obtain ⟨content, line, filename, inner⟩ := child
      rw [bodyOf, Node.bodyRefusals, List.flatMap_cons, ← Node.bodyRefusals]
      cases content with
      | attr name value => exact (refusedFor_declarations "" _).bind fun _ => ih.map _
      | _ => exact RefusedFor.bind (.nothing rfl) fun _ => ih.map _

/-- Selectors can only fail to be put together at the base. -/
theorem resolve_cases (parents : Option (List (List Char))) (own : SelectorList)
    (line : Option Int) (filename : Option String) (children : List Node) :
    let node : Node := ⟨.rule own, line, filename, children⟩
    (parents.isNone = true ∧ node.RefersToParent) ∧
        Selector.resolve parents own.rules = .error .parentReferenceAtBase ∨
      ¬ (parents.isNone = true ∧ node.RefersToParent) ∧
        ∃ resolved, Selector.resolve parents own.rules = .ok resolved := by
  intro node
  have hrefers : node.RefersToParent ↔
      (Selector.ofLines own.rules).any (·.contains Selector.parentReference) = true := by
    simp [Node.RefersToParent, Node.pieces, node]
  rw [hrefers]
  cases parents with
  | none =>
      by_cases hany : (Selector.ofLines own.rules).any (·.contains Selector.parentReference) = true
      · exact .inl ⟨⟨rfl, hany⟩, if_pos hany⟩
      · exact .inr ⟨fun h => hany h.2, _, if_neg hany⟩
  | some outer => exact .inr ⟨by simp, _, rfl⟩

mutual

/-- A node is refused for the first thing that is wrong with it. -/
theorem refusedFor_ofNode :
    ∀ (parents : Option (List (List Char))) (node : Node),
      RefusedFor (ofNode parents node) (node.refusals parents.isNone)
  | parents, ⟨.rule own, line, filename, children⟩ => by
    rw [ofNode, Node.refusals]
    rcases resolve_cases parents own line filename children with ⟨hrefers, herror⟩ |
      ⟨hfree, resolved, hok⟩
    · rw [herror, if_pos hrefers]
      exact .first rfl
    · rw [hok, if_neg hfree, List.nil_append]
      exact (refusedFor_bodyOf children).bind fun _ =>
        (refusedFor_nestedIn (some resolved) children).map _
  | parents, ⟨.directive text, line, filename, children⟩ => by
    rw [ofNode, Node.refusals]
    cases children with
    | nil => exact .nothing rfl
    | cons child children =>
        exact (refusedFor_bodyOf _).bind fun _ => (refusedFor_nestedIn none _).map _
  | _, ⟨.comment _ _ _, _, _, _⟩ => .nothing rfl
  | _, ⟨.attr _ _, _, _, _⟩ => .first rfl
  | _, ⟨.root, _, _, _⟩ => .nothing rfl

theorem refusedFor_nestedIn :
    ∀ (parents : Option (List (List Char))) (nodes : List Node),
      RefusedFor (nestedIn parents nodes) (Node.refusalsBeneath parents.isNone nodes)
  | _, [] => .nothing rfl
  | parents, ⟨content, line, filename, children⟩ :: nodes => by
    have hrest := refusedFor_nestedIn parents nodes
    rw [nestedIn, Node.refusalsBeneath]
    cases content with
    | attr name value => exact RefusedFor.bind (.nothing rfl) fun _ => hrest.map _
    | comment text visible lines => exact RefusedFor.bind (.nothing rfl) fun _ => hrest.map _
    | _ => exact (refusedFor_ofNode parents _).bind fun _ => hrest.map _

end

theorem refusedFor_ofNodes (nodes : List Node) :
    RefusedFor (ofNodes nodes) (nodes.flatMap (Node.refusals true)) := by
  induction nodes with
  | nil => exact .nothing rfl
  | cons node nodes ih =>
      rw [ofNodes, List.flatMap_cons]
      exact (refusedFor_ofNode none node).bind fun _ => ih.map _

end Block

/-! ## Whole trees -/

namespace Node

variable {d : Diagnostic}

mutual

theorem fault_of_mem_attrRefusals :
    ∀ {node : Node}, d ∈ node.attrRefusals → d.fault = .nestedBeneathAttribute
  | ⟨.attr _ _, _, _, _⟩, h => fault_of_mem_attrRefusalsAll h
  | ⟨.rule _, _, _, _⟩, h => by rw [List.mem_singleton.mp h]
  | ⟨.comment _ _ _, _, _, _⟩, h => by rw [List.mem_singleton.mp h]
  | ⟨.directive _, _, _, _⟩, h => by rw [List.mem_singleton.mp h]
  | ⟨.root, _, _, _⟩, h => by rw [List.mem_singleton.mp h]

theorem fault_of_mem_attrRefusalsAll :
    ∀ {nodes : List Node}, d ∈ attrRefusalsAll nodes → d.fault = .nestedBeneathAttribute
  | [], h => by cases h
  | node :: nodes, h => by
    rw [attrRefusalsAll] at h
    rcases List.mem_append.mp h with h | h
    · exact fault_of_mem_attrRefusals h
    · exact fault_of_mem_attrRefusalsAll h

end

theorem fault_of_mem_bodyRefusals {children : List Node} (h : d ∈ bodyRefusals children) :
    d.fault = .nestedBeneathAttribute := by
  obtain ⟨child, -, h⟩ := List.mem_flatMap.mp h
  split at h
  · exact fault_of_mem_attrRefusals h
  · cases h

def baseRefusal (rule : Node) : Diagnostic :=
  { fault := .parentReferenceAtBase, line := rule.line, filename := rule.filename }

mutual

/-- An `&` is wrong in just those rules to which a chain of their own leads. -/
theorem mem_refusals_iff (hd : d.fault = .parentReferenceAtBase) :
    ∀ (base : Bool) (around : List Node) (node : Node), (base = true ↔ around = []) →
      (d ∈ node.refusals base ↔
        ∃ rule, [rule] ∈ node.chains around ∧ rule.RefersToParent ∧ d = rule.baseRefusal)
  | base, around, ⟨.rule own, line, filename, children⟩, hbase => by
    have hbody : d ∉ bodyRefusals children := fun h => by
      rw [fault_of_mem_bodyRefusals h] at hd
      cases hd
    have hbeneath := mem_refusalsBeneath_iff hd false
      (around ++ [⟨.rule own, line, filename, children⟩]) children (by simp)
    -- the chain to this rule has a single rule just at the base
    have hown : ∀ rule, [rule] = around ++ [⟨.rule own, line, filename, children⟩] ↔
        base = true ∧ rule = ⟨.rule own, line, filename, children⟩ := by
      intro rule
      cases around with
      | nil => simp [hbase.mpr rfl]
      | cons first around => simp [hbase]
    simp only [refusals, chains, List.mem_append, List.mem_cons, hbody, false_or, hbeneath, hown]
    constructor
    · rintro (h | ⟨rule, hrule, h⟩)
      · split at h
        · next hrefers => exact ⟨_, .inl ⟨hrefers.1, rfl⟩, hrefers.2, List.mem_singleton.mp h⟩
        · cases h
      · exact ⟨rule, .inr hrule, h⟩
    · rintro ⟨rule, ⟨hin, rfl⟩ | hrule, hrefers, h⟩
      · rw [if_pos ⟨hin, hrefers⟩]
        exact .inl (List.mem_singleton.mpr h)
      · exact .inr ⟨rule, hrule, hrefers, h⟩
  | _, _, ⟨.directive _, _, _, children⟩, _ => by
    have hbody : d ∉ bodyRefusals children := fun h => by
      rw [fault_of_mem_bodyRefusals h] at hd
      cases hd
    rw [refusals, chains, List.mem_append,
      mem_refusalsBeneath_iff hd true [] children (by simp)]
    exact or_iff_right hbody
  | _, _, ⟨.attr _ _, _, _, _⟩, _ => by
    constructor
    · intro h
      rw [List.mem_singleton.mp h] at hd
      cases hd
    · rintro ⟨_, ⟨⟩, -⟩
  | _, _, ⟨.comment _ _ _, _, _, _⟩, _ => by simp [refusals, chains]
  | _, _, ⟨.root, _, _, _⟩, _ => by simp [refusals, chains]

theorem mem_refusalsBeneath_iff (hd : d.fault = .parentReferenceAtBase) :
    ∀ (base : Bool) (around : List Node) (nodes : List Node), (base = true ↔ around = []) →
      (d ∈ refusalsBeneath base nodes ↔
        ∃ rule, [rule] ∈ chainsBeneath around nodes ∧ rule.RefersToParent ∧ d = rule.baseRefusal)
  | _, _, [], _ => by simp [refusalsBeneath, chainsBeneath]
  | base, around, node :: nodes, hbase => by
    have hnode : d ∈ (if node.isBodyPart then [] else node.refusals base) ↔
        ∃ rule, [rule] ∈ node.chains around ∧ rule.RefersToParent ∧ d = rule.baseRefusal := by
      split
      · next hpart =>
          have hnone : node.chains around = [] := by
            obtain ⟨content, line, filename, children⟩ := node
            cases content <;> first | rfl | cases hpart
          simp [hnone]
      · exact mem_refusals_iff hd base around node hbase
    rw [refusalsBeneath, chainsBeneath, List.mem_append, hnode,
      mem_refusalsBeneath_iff hd base around nodes hbase]
    simp only [List.mem_append, or_and_right, exists_or]

end

theorem mem_refusals_nodes_iff (hd : d.fault = .parentReferenceAtBase) (nodes : List Node) :
    d ∈ nodes.flatMap (refusals true) ↔
      ∃ rule, [rule] ∈ chainsBeneath [] nodes ∧ rule.RefersToParent ∧ d = rule.baseRefusal := by
  induction nodes with
  | nil => simp [chainsBeneath]
  | cons node nodes ih =>
      rw [List.flatMap_cons, List.mem_append, ih, chainsBeneath,
        mem_refusals_iff hd true [] node (by simp)]
      simp only [List.mem_append, or_and_right, exists_or]

end Node

/-- The heads of a forest's blocks are the products along its chains of rules. -/
theorem Block.heads_of_ofNodes {nodes : List Node} {blocks : List Block}
    (h : ofNodes nodes = .ok blocks) :
    headsOf blocks = (Node.chainsBeneath [] nodes).map Node.selectors := by
  induction nodes generalizing blocks with
  | nil =>
      cases h
      rfl
  | cons node nodes ih =>
      obtain ⟨first, rest, hfirst, hrest, rfl⟩ := ofNodes_cons_eq_ok h
      rw [headsOf_append, ih hrest, heads_of_ofNode [] hfirst, Node.chainsBeneath,
        List.map_append]

/-- **What the selectors of a stylesheet are.** In every style a tree is refused for the first thing that
is wrong with it; an `&` is wrong exactly in the outermost rule of a chain. If nothing is wrong, the
blocks that are written have the selectors of the chains that lead to the rules, one for every choice of
a piece of each rule in the chain, and none of them holds an `&`. -/
theorem Node.render_products_or_refusal (style : Style) (tree : Node) :
    let wrong := tree.children.flatMap (refusals true)
    let chains := chainsBeneath [] tree.children
    (∀ chain ∈ chains, ∃ outermost inner, chain = outermost :: inner ∧ [outermost] ∈ chains) ∧
    (∀ d, tree.render style = .error d ↔ wrong.head? = some d) ∧
    (∀ d, d.fault = .parentReferenceAtBase → (d ∈ wrong ↔
      ∃ rule, [rule] ∈ chains ∧ (∃ piece ∈ rule.pieces, '&' ∈ piece) ∧
        d = { fault := .parentReferenceAtBase, line := rule.line, filename := rule.filename })) ∧
    ((∀ d ∈ wrong, d.fault = .parentReferenceAtBase) → ((∃ d, tree.render style = .error d) ↔
      ∃ rule, [rule] ∈ chains ∧ ∃ piece ∈ rule.pieces, '&' ∈ piece)) ∧
    ∀ sheet, tree.render style = .ok sheet → ∃ blocks,
      Block.ofNodes tree.children = .ok blocks ∧ sheet = Block.renderSheet style blocks ∧
      Block.headsOf blocks = chains.map selectors ∧
      (∀ chain ∈ chains,
        (selectors chain).length = (chain.map fun rule => rule.pieces.length).prod) ∧
      ∀ head ∈ Block.headsOf blocks, ∀ selector ∈ head, '&' ∉ selector := by
  intro wrong chains
  have herror : ∀ d, tree.render style = .error d ↔ wrong.head? = some d :=
    ((Block.refusedFor_ofNodes tree.children).map (Block.renderSheet style)).error_iff
  have hrefused : (∃ d, tree.render style = .error d) ↔ wrong ≠ [] := by
    simp only [herror, ← Option.isSome_iff_exists, List.isSome_head?]
  have hbase : ∀ rule, [rule] ∈ chains → rule.RefersToParent → rule.baseRefusal ∈ wrong :=
    fun rule hrule hrefers => (mem_refusals_nodes_iff rfl _).mpr ⟨rule, hrule, hrefers, rfl⟩
  have houtermost : ∀ chain ∈ chains, ∃ outermost inner, chain = outermost :: inner ∧
      [outermost] ∈ chains := by
    intro chain hchain
    obtain ⟨outermost, inner, hchain, hhead | hown⟩ := outermost_of_mem_chainsBeneath hchain
    · cases hhead
    · exact ⟨outermost, inner, hchain, hown⟩
  refine ⟨houtermost, herror, fun d hd => mem_refusals_nodes_iff hd _, fun honly => ?_,
    fun sheet hsheet => ?_⟩
  · rw [hrefused]
    constructor
    · intro hwrong
      obtain ⟨d, hd⟩ := List.exists_mem_of_ne_nil wrong hwrong
      obtain ⟨rule, hrule, hrefers, -⟩ := (mem_refusals_nodes_iff (honly d hd) _).mp hd
      exact ⟨rule, hrule, hrefers⟩
    · rintro ⟨rule, hrule, hrefers⟩
      exact List.ne_nil_of_mem (hbase rule hrule hrefers)
  · obtain ⟨blocks, hok, hwritten⟩ := bind_eq_ok_iff.mp hsheet
    have hheads : Block.headsOf blocks = chains.map selectors := Block.heads_of_ofNodes hok
    refine ⟨blocks, hok, (Except.ok.inj hwritten).symm, hheads, fun chain _ => ?_, ?_⟩
    · rw [selectors, List.length_map, length_choices, List.map_map]
      rfl
    · rw [hheads]
      intro head hhead
      obtain ⟨chain, hchain, rfl⟩ := List.mem_map.mp hhead
      obtain ⟨outermost, inner, rfl, hown⟩ := houtermost chain hchain
      refine parentReference_notMem_selectors (fun hrefers => ?_) inner
      -- a tree that is rendered is not refused
      obtain ⟨d, hd⟩ := hrefused.mpr (List.ne_nil_of_mem (hbase outermost hown hrefers))
      rw [hsheet] at hd
      cases hd

example :
    let rule (text : String) : Node := { content := .rule ⟨[text], false⟩ }
    (Node.selectors [rule "a, b", rule "&:hover, i"]).map String.ofList =
      ["a:hover", "a i", "b:hover", "b i"] := by
  decide

end Stylesheet
