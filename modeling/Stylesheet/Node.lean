import Stylesheet.Line
import Stylesheet.Line.Shape

/-!
# Stylesheet trees

A stylesheet is a tree of rules, attributes, comments and directives. Every node knows the line and
the file it comes from, if it comes from one.

* `Node.mem_walkAll_iff` : the nodes of a forest are those of its trees.
-/

namespace Stylesheet

/-- The selectors of a rule, a text for each source line; the list is open while the last line
ended in a comma. -/
structure SelectorList where
  rules : List String
  continued : Bool := false
  deriving DecidableEq, Repr

namespace SelectorList

/-- The selectors that one line writes; a comma at its end leaves the list open. -/
def ofText (text : List Char) : SelectorList :=
  if text.getLast? = some ',' then ⟨[String.ofList (Text.trimEnd text.dropLast)], true⟩
  else ⟨[String.ofList text], false⟩

/-- A list continued by another one, which says whether the whole is open. -/
def append (a b : SelectorList) : SelectorList :=
  ⟨a.rules ++ b.rules, b.continued⟩

def text (s : SelectorList) : String :=
  String.intercalate ", " s.rules

end SelectorList

inductive Content where
  /-- The whole document. -/
  | root
  /-- A rule for everything that its selectors match. -/
  | rule (selectors : SelectorList)
  /-- A property and its value; attributes beneath it have its name before theirs. -/
  | attr (name value : String)
  /-- A comment with the lines beneath it, which are not interpreted; it may be hidden. -/
  | comment (text : String) (visible : Bool) (lines : List Line)
  /-- A directive that is passed on. -/
  | directive (text : String)
  deriving BEq, Repr, Inhabited

structure Node where
  content : Content
  line : Option Int := none
  filename : Option String := none
  children : List Node := []
  deriving BEq, Repr, Inhabited

namespace Node

def isDirective (node : Node) : Bool :=
  match node.content with
  | .directive _ => true
  | _ => false

mutual

/-- A node and everything beneath it, every node before what is beneath it. -/
def walk : Node → List Node
  | ⟨content, line, filename, children⟩ =>
    ⟨content, line, filename, children⟩ :: walkAll children

/-- The nodes of a forest, every node before what is beneath it. -/
def walkAll : List Node → List Node
  | [] => []
  | node :: nodes => node.walk ++ walkAll nodes

end

/-- A node is walked before what is beneath it. -/
theorem walk_eq (node : Node) : node.walk = node :: walkAll node.children := by
  cases node
  rfl

/-- What a walk over a forest meets is what the walks of its trees meet. -/
theorem mem_walkAll_iff {node : Node} {forest : List Node} :
    node ∈ walkAll forest ↔ ∃ top ∈ forest, node ∈ top.walk := by
  induction forest with
  | nil => simp [walkAll]
  | cons top rest ih => simp [walkAll, ih]

theorem self_mem_walk (node : Node) : node ∈ node.walk := by
  rw [walk_eq]
  exact List.mem_cons_self

/-- What a child's walk meets is met from the node above it too. -/
theorem mem_walk_of_child {node child inner : Node} (hchild : child ∈ node.children)
    (h : inner ∈ child.walk) : inner ∈ node.walk := by
  rw [walk_eq]
  exact List.mem_cons_of_mem _ (mem_walkAll_iff.mpr ⟨child, hchild, h⟩)

/-- The name of a directive; a blank after the marker leaves it without one. -/
def directiveName? (text : List Char) : Option (List Char) :=
  if text.length ≤ 1 then some []
  else
    let name := (directiveParts text).1
    if name.isEmpty then none else some name

end Node

end Stylesheet
