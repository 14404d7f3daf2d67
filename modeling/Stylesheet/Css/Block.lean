import Stylesheet.Css.Selector
import Stylesheet.Diagnostic
import Stylesheet.Node

/-!
# What a stylesheet says

The blocks of a tree are what has to be written of it, whatever the style: every rule with all its
selectors and its declarations, the comments that are shown, and the directives. All faults of a
tree are found here, so that the styles can differ in the layout only.

* `Block.ofNodes` : the blocks of the nodes beneath the root.
-/

namespace Stylesheet

/-- A shown comment: its first line, and the lines beneath it. -/
structure Comment where
  text : String
  lines : List String
  deriving DecidableEq, Repr

/-- What stands in the body of a rule. -/
inductive BodyEntry where
  | declaration (name value : String)
  | comment (comment : Comment)
  deriving DecidableEq, Repr

/-- What is written of a node. -/
inductive Block where
  /-- A rule with its selectors, its body, and what is nested in it. -/
  | rule (selectors : List (List Char)) (body : List BodyEntry) (nested : List Block)
  /-- A comment that stands in no body. -/
  | comment (comment : Comment)
  /-- A directive with nothing in it. -/
  | statement (text : String)
  /-- A directive with its body and what is nested in it. -/
  | group (text : String) (body : List BodyEntry) (nested : List Block)

namespace Block

def refuse {α : Type} (fault : Fault) (line : Option Int) (filename : Option String) :
    Except Diagnostic α :=
  .error { fault, line, filename }

def comment? (text : String) (visible : Bool) (lines : List Line) : Option Comment :=
  if visible then some ⟨text, (Line.flattenAll lines).map (·.text)⟩ else none

mutual

/-- The declarations of an attribute with the given name and value, and of those beneath it, whose
names follow after a hyphen. An empty value declares nothing. -/
def declarations (stem : String) : Node → Except Diagnostic (List BodyEntry)
  | ⟨.attr name value, _, _, children⟩ => do
    let name := stem ++ name
    let rest ← allDeclarations (name ++ "-") children
    pure (if value.isEmpty then rest else .declaration name value :: rest)
  | ⟨_, line, filename, _⟩ => refuse .nestedBeneathAttribute line filename

def allDeclarations (stem : String) : List Node → Except Diagnostic (List BodyEntry)
  | [] => .ok []
  | node :: nodes => do
    let first ← declarations stem node
    pure (first ++ (← allDeclarations stem nodes))

end

/-- The body that the attributes and comments among nodes make up. -/
def bodyOf : List Node → Except Diagnostic (List BodyEntry)
  | [] => .ok []
  | node :: nodes => do
    let first ← match node.content with
      | .attr _ _ => declarations "" node
      | .comment text visible lines =>
        pure ((comment? text visible lines).map BodyEntry.comment).toList
      | _ => pure []
    pure (first ++ (← bodyOf nodes))

mutual

/-- The blocks of a node that stands in a rule with the given selectors, or in no rule. -/
def ofNode (parents : Option (List (List Char))) : Node → Except Diagnostic (List Block)
  | ⟨.rule selectors, line, filename, children⟩ => do
    let resolved ← match Selector.resolve parents selectors.rules with
      | .ok resolved => pure resolved
      | .error fault => refuse fault line filename
    let body ← bodyOf children
    pure [rule resolved body (← nestedIn (some resolved) children)]
  | ⟨.comment text visible lines, _, _, _⟩ =>
    pure ((comment? text visible lines).map comment).toList
  | ⟨.directive text, _, _, children⟩ =>
    if children.isEmpty then pure [statement text]
    else do
      let body ← bodyOf children
      pure [group text body (← nestedIn none children)]
  | ⟨.attr _ _, line, filename, _⟩ => refuse .attributeAtRoot line filename
  | ⟨.root, _, _, _⟩ => pure []

/-- The blocks of those nodes that are no part of the body of the node around them. -/
def nestedIn (parents : Option (List (List Char))) :
    List Node → Except Diagnostic (List Block)
  | [] => .ok []
  | node :: nodes => do
    let first ← match node.content with
      | .attr _ _ => pure []
      | .comment _ _ _ => pure []
      | _ => ofNode parents node
    pure (first ++ (← nestedIn parents nodes))

end

def ofNodes : List Node → Except Diagnostic (List Block)
  | [] => .ok []
  | node :: nodes => do
    let first ← ofNode none node
    pure (first ++ (← ofNodes nodes))

end Block

end Stylesheet
