import Stylesheet.Data.Graph
import Stylesheet.Node

/-!
# Stylesheet trees as data

A tree is saved as maps that hold the fields of its nodes, and read back from them. In a map that is
read, most fields may be missing, and fields of other names are passed over.

* `Data.complete` : the map of a tree with all its fields.
* `Node.ofData` : the tree itself.
-/

namespace Stylesheet

inductive DataFault where
  /-- A value that is no map stands for a node. -/
  | notAMap
  /-- A map lacks a field. -/
  | missingField (name : String)
  /-- A map names a type of nodes that does not exist. -/
  | unknownType (shown : String)
  /-- A field holds a value of the wrong kind. -/
  | wrongKind
  /-- An integer that is too long to be written. -/
  | tooLong (fault : Number.TooLong)
  deriving DecidableEq, Repr

def DataFault.message? : DataFault → Option String
  | notAMap => none
  | missingField name => some (Text.quoted name)
  | unknownType shown => some ("Unsupported node dict type: " ++ shown)
  | wrongKind => none
  | tooLong fault => some fault.message

/-! ## Writing -/

def Data.ofOption {α : Type} (f : α → Data) : Option α → Data
  | none => null
  | some a => f a

mutual

def Line.toData : Line → Data
  | ⟨text, depth, index, children⟩ => .ofFields
    [("text", .text text), ("depth", .int depth), ("index", .int index),
      ("children", .list (Line.allToData children))]

def Line.allToData : List Line → List Data
  | [] => []
  | line :: lines => line.toData :: Line.allToData lines

end

/-- The fields that only some nodes have, after the name of their type. -/
def Content.fields : Content → List (String × Data)
  | root => [("type", .text "root")]
  | rule selectors =>
    [("type", .text "rule"), ("rules", .list (selectors.rules.map Data.text))]
  | attr name value =>
    [("type", .text "attr"), ("name", .text name), ("value", .text value)]
  | comment text visible lines =>
    [("type", .text "comment"), ("text", .text text), ("output", .bool visible),
      ("lines", .list (Line.allToData lines))]
  | directive text => [("type", .text "directive"), ("text", .text text)]

mutual

def Node.toData : Node → Data
  | ⟨content, line, filename, children⟩ => .ofFields
    ([("line", .ofOption .int line), ("filename", .ofOption .text filename)] ++ content.fields ++
      [("children", .list (Node.allToData children))])

def Node.allToData : List Node → List Data
  | [] => []
  | node :: nodes => node.toData :: Node.allToData nodes

end

/-! ## Filling in

A tree that is read may leave out fields. The complete form of a tree has all of them, in the order in
which they are written, whatever kinds of values it gives them. -/

namespace Data

section

variable {α : Type} (v : Viewer α)

def fieldOr (entries : List (Atom × α)) (name : String) (default : Data) : Data :=
  ((lookup? entries name).map v.data).getD default

def elementsOf (entries : List (Atom × α)) (name : String) : Except DataFault (List α) :=
  match lookup? entries name with
  | none => .ok []
  | some a => match v.elements? a with
    | some items => .ok items
    | none => .error .wrongKind

def required (entries : List (Atom × α)) (name : String) : Except DataFault Data :=
  match lookup? entries name with
  | some a => .ok (v.data a)
  | none => .error (.missingField name)

/-- The complete form of a line. Nested lines take one unit of `fuel` for each level. -/
def completeLine : Nat → α → Except DataFault Data
  | 0, _ => .error .wrongKind
  | fuel + 1, a =>
    match v.view a with
    | .map entries => do
      let text ← required v entries "text"
      let children ← (← elementsOf v entries "children").mapM (completeLine fuel)
      pure (.ofFields [("text", text), ("depth", fieldOr v entries "depth" (.int 0)),
        ("index", fieldOr v entries "index" (.int 0)), ("children", .list children)])
    | _ => .error .wrongKind

def typeOf (entries : List (Atom × α)) : Except DataFault String :=
  match lookup? entries "type" with
  | none => .error (.unknownType "None")
  | some a =>
    match v.view a, v.shown a with
    | .atom (.text name), _ =>
      if ["root", "rule", "attr", "comment", "directive"].contains name then .ok name
      else .error (.unknownType name)
    | _, .ok shown => .error (.unknownType shown)
    | _, .error fault => .error (.tooLong fault)

def completeContent (fuel : Nat) (entries : List (Atom × α)) :
    Except DataFault (List (String × Data)) := do
  let type ← typeOf v entries
  let fields ←
    if type = "rule" then do
      pure [("rules", Data.list ((← elementsOf v entries "rules").map v.data))]
    else if type = "attr" then do
      pure [("name", ← required v entries "name"), ("value", fieldOr v entries "value" (.text ""))]
    else if type = "comment" then do
      let lines ← (← elementsOf v entries "lines").mapM (completeLine v fuel)
      pure [("text", fieldOr v entries "text" (.text "")),
        ("output", fieldOr v entries "output" (.bool true)), ("lines", .list lines)]
    else if type = "directive" then pure [("text", fieldOr v entries "text" (.text ""))]
    else pure []
  pure (("type", .text type) :: fields)

/-- The complete form of a tree. Nested nodes and lines take one unit of `fuel` for each level. -/
def completeTree : Nat → α → Except DataFault Data
  | 0, _ => .error .wrongKind
  | fuel + 1, a =>
    match v.view a with
    | .map entries => do
      let content ← completeContent v fuel entries
      let children ← (← elementsOf v entries "children").mapM (completeTree fuel)
      pure (.ofFields ([("line", fieldOr v entries "line" .null),
        ("filename", fieldOr v entries "filename" .null)] ++ content ++
        [("children", .list children)]))
    | _ => .error .notAMap

end

def complete (d : Data) : Except DataFault Data :=
  completeTree viewer (d.depth + 1) d

end Data

/-- The complete form of the tree that data with shared values stands for. Nodes that stand one within
the other have boxes of their own. -/
def Graph.complete (g : Graph) : Except DataFault Data :=
  Data.completeTree g.viewer (g.boxes.size + 1) g.root

/-! ## Reading -/

namespace Data

def field? (d : Data) (name : String) : Option Data :=
  match d with
  | map entries => lookup? entries name
  | _ => none

def items? : Data → Option (List Data)
  | list items => some items
  | _ => none

def text? : Data → Option String
  | text s => some s
  | _ => none

def int? : Data → Option Int
  | int n => some n
  | _ => none

def shown? (d : Data) : Option String :=
  (viewer.shown d).toOption

end Data

/-- The line of a complete map. A value that is no text counts as the text it is shown as, and one that
is no integer as zero. Nested lines take one unit of `fuel` for each level. -/
def Line.ofComplete? : Nat → Data → Option Line
  | 0, _ => none
  | fuel + 1, d => do
    let text ← (← d.field? "text").shown?
    let depth := (← d.field? "depth").int?.getD 0
    let index := (← d.field? "index").int?.getD 0
    let children ← (← (← d.field? "children").items?).mapM (ofComplete? fuel)
    pure ⟨text, depth, index, children⟩

/-- What the node of a complete map is; `fuel` is for the lines beneath a comment. The value of an
attribute counts as the text it is shown as, and any value says whether a comment is visible. -/
def Content.ofComplete? (fuel : Nat) (d : Data) : Option Content := do
  match ← (← d.field? "type").text? with
  | "root" => pure .root
  | "rule" => pure (.rule ⟨← (← (← d.field? "rules").items?).mapM Data.text?, false⟩)
  | "attr" =>
    let value ← d.field? "value"
    let text ← if value.isEmpty then some "" else value.shown?
    pure (.attr (← (← d.field? "name").text?) text)
  | "comment" =>
    let visible := !(← d.field? "output").isEmpty
    let lines ← (← (← d.field? "lines").items?).mapM (Line.ofComplete? fuel)
    pure (.comment (← (← d.field? "text").text?) visible lines)
  | _ => pure (.directive (← (← d.field? "text").text?))

/-- The tree of a complete map. A line that is no integer is unknown, and so is a file without a text as
its name. Nested nodes and lines take one unit of `fuel` for each level. -/
def Node.ofComplete? : Nat → Data → Option Node
  | 0, _ => none
  | fuel + 1, d => do
    let content ← Content.ofComplete? fuel d
    let line := (← d.field? "line").int?
    let filename := (← d.field? "filename").text?
    let children ← (← (← d.field? "children").items?).mapM (ofComplete? fuel)
    pure ⟨content, line, filename, children⟩

/-- The tree of which data is the complete form. -/
def Node.ofComplete (complete : Data) : Except DataFault Node :=
  match Node.ofComplete? (complete.depth + 1) complete with
  | some node => .ok node
  | none => .error .wrongKind

def Node.ofData (d : Data) : Except DataFault Node := do
  Node.ofComplete (← d.complete)

def Node.ofGraph (g : Graph) : Except DataFault Node := do
  Node.ofComplete (← g.complete)

end Stylesheet
