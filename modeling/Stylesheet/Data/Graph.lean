import Stylesheet.Data

/-!
# Data with shared values

In a document that gives names to its values, a value can stand in several places, even within
itself. Such data is a list of boxes: a box holds one level of a value, and what stands in it is an
atom or another box. Only boxes that are asked for are looked into.

* `Graph.viewer` : the view of such data.
-/

namespace Stylesheet

/-- What stands in a place: an atom, or the box of a number. -/
inductive Ref where
  | atom (value : Atom)
  | box (number : Nat)
  deriving BEq, Inhabited

inductive Box where
  | list (items : List Ref)
  | map (entries : List (Atom × Ref))
  | set (items : List Atom)
  | pair (first second : Ref)
  deriving BEq, Inhabited

def Box.placeholder : Box → String
  | list _ => "[...]"
  | map _ => "\x7b...\x7d"
  | set _ => "set(...)"
  | pair _ _ => "(...)"

/-- Data whose values stand in boxes. -/
structure Graph where
  boxes : Array Box
  root : Ref

namespace Graph

/-- What stands in a place, one level deep. A number without a box stands for nothing. -/
def view (g : Graph) : Ref → View Ref
  | .atom a => .atom a
  | .box n => match g.boxes[n]? with
    | some (.list items) => .list items
    | some (.map entries) => .map entries
    | some (.set items) => .set items
    | some (.pair first second) => .pair first second
    | none => .atom .null

/-- A value as it is quoted in messages, within the boxes of `path`, which are not shown again. Every
box that is entered takes one unit of `fuel`. -/
def quotedWithin (g : Graph) : Nat → List Nat → Ref → Except Number.TooLong String
  | _, _, .atom a => a.quoted
  | 0, _, .box _ => .ok ""
  | fuel + 1, path, .box n =>
    match g.boxes[n]? with
    | none => .ok "None"
    | some box =>
      if path.contains n then .ok box.placeholder
      else
        let inner := quotedWithin g fuel (n :: path)
        match box with
        | .list items => do
          pure ("[" ++ String.intercalate ", " (← items.mapM inner) ++ "]")
        | .map entries => do
          let shown ← entries.mapM fun entry => do
            pure ((← entry.1.quoted) ++ ": " ++ (← inner entry.2))
          pure ("\x7b" ++ String.intercalate ", " shown ++ "\x7d")
        | .set [] => .ok "set()"
        | .set items => do
          pure ("\x7b" ++ String.intercalate ", " (← items.mapM Atom.quoted) ++ "\x7d")
        | .pair first second => do
          pure ("(" ++ (← inner first) ++ ", " ++ (← inner second) ++ ")")

/-- A value as it is quoted in messages. The boxes that are entered one within the other are all
different. -/
def quoted (g : Graph) (r : Ref) : Except Number.TooLong String :=
  quotedWithin g (g.boxes.size + 1) [] r

/-- A value as data, with every box written out wherever it stands. Nested boxes take one unit of
`fuel` for each level; null stands where it does not reach. -/
def dataWithin (g : Graph) : Nat → Ref → Data
  | _, .atom a => .atom a
  | 0, .box _ => .null
  | fuel + 1, .box n =>
    match g.boxes[n]? with
    | some (.list items) => .list (items.map (dataWithin g fuel))
    | some (.map entries) => .map (entries.map fun entry => (entry.1, dataWithin g fuel entry.2))
    | some (.set items) => .list (items.map .atom)
    | some (.pair first second) => .list [dataWithin g fuel first, dataWithin g fuel second]
    | none => .null

/-- A value as data. A box that stands within itself is written out only as often as there are
boxes. -/
def data (g : Graph) (r : Ref) : Data :=
  dataWithin g g.boxes.size r

def viewer (g : Graph) : Viewer Ref :=
  ⟨view g, .atom, quoted g, data g⟩

end Graph

end Stylesheet
