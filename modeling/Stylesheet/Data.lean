import Stylesheet.Data.Atom

/-!
# Data

The values that data files hold: what a stylesheet tree is saved as and what options are read from.
The entries of a map keep the order in which their keys first came.

Values can be looked into without being known as a whole: a `Viewer` says of a value what it consists
of, one level at a time. Data is its own view, `Data.viewer`.
-/

namespace Stylesheet

/-- A value of a data file. -/
inductive Data where
  | atom (value : Atom)
  | list (items : List Data)
  | map (entries : List (Atom × Data))
  deriving BEq, Inhabited

namespace Data

@[match_pattern] abbrev null : Data := .atom .null

@[match_pattern] abbrev bool (value : Bool) : Data := .atom (.bool value)

@[match_pattern] abbrev int (value : Int) : Data := .atom (.int value)

@[match_pattern] abbrev float (value : Float) : Data := .atom (.float value)

@[match_pattern] abbrev text (value : String) : Data := .atom (.text value)

/-! ## Maps -/

variable {α : Type}

/-- The entries of a map after one more; a key that is there already gets the new value and keeps
its place. -/
def setEntry (key : Atom) (value : α) : List (Atom × α) → List (Atom × α)
  | [] => [(key, value)]
  | (k, v) :: rest =>
    if k.sameKey key then (k, value) :: rest else (k, v) :: setEntry key value rest

/-- Entries in the order in which their keys first come, the last of several for one key. -/
def settle (entries : List (Atom × α)) : List (Atom × α) :=
  entries.foldl (fun settled entry => setEntry entry.1 entry.2 settled) []

/-- The value of a text among the keys of a map. -/
def lookup? (entries : List (Atom × α)) (key : String) : Option α :=
  (entries.find? fun entry => match entry.1 with | .text s => s == key | _ => false).map (·.2)

end Data

/-! ## Views -/

/-- What a value consists of, one level deep. -/
inductive View (α : Type) where
  | atom (value : Atom)
  | list (items : List α)
  | map (entries : List (Atom × α))
  /-- Atoms of which every one counts once. -/
  | set (items : List Atom)
  | pair (first second : α)

/-- How the values of a type are looked into, and how they are shown. -/
structure Viewer (α : Type) where
  view : α → View α
  ofAtom : Atom → α
  /-- A value as it is quoted in messages. -/
  quoted : α → Except Number.TooLong String
  /-- A value as data. -/
  data : α → Data

namespace Viewer

variable {α : Type}

/-- A value as a text: a text itself, and everything else as it is quoted. -/
def shown (v : Viewer α) (a : α) : Except Number.TooLong String :=
  match v.view a with
  | .atom a => a.shown
  | _ => v.quoted a

/-- The values of which a value consists one by one: the items of a list, the keys of a map, the
characters of a text. -/
def elements? (v : Viewer α) (a : α) : Option (List α) :=
  match v.view a with
  | .atom a => a.elements?.map (·.map v.ofAtom)
  | .list items => some items
  | .map entries => some (entries.map fun entry => v.ofAtom entry.1)
  | .set items => some (items.map v.ofAtom)
  | .pair first second => some [first, second]

end Viewer

namespace Data

mutual

/-- A value as it is quoted in messages. -/
def quoted : Data → Except Number.TooLong String
  | atom a => a.quoted
  | list items => do
    pure ("[" ++ String.intercalate ", " (← quotedAll items) ++ "]")
  | map entries => do
    pure ("\x7b" ++ String.intercalate ", " (← quotedEntries entries) ++ "\x7d")

def quotedAll : List Data → Except Number.TooLong (List String)
  | [] => .ok []
  | d :: ds => do
    pure ((← d.quoted) :: (← quotedAll ds))

def quotedEntries : List (Atom × Data) → Except Number.TooLong (List String)
  | [] => .ok []
  | (k, v) :: rest => do
    pure (((← k.quoted) ++ ": " ++ (← v.quoted)) :: (← quotedEntries rest))

end

def view : Data → View Data
  | atom a => .atom a
  | list items => .list items
  | map entries => .map entries

def viewer : Viewer Data :=
  ⟨view, atom, quoted, id⟩

/-- Whether a value counts as nothing given: null, false, zero, or empty. -/
def isEmpty : Data → Bool
  | atom a => a.isEmpty
  | list items => items.isEmpty
  | map entries => entries.isEmpty

mutual

/-- How deep data is nested. -/
def depth : Data → Nat
  | list items => depthAll items + 1
  | map entries => depthEntries entries + 1
  | atom _ => 1

def depthAll : List Data → Nat
  | [] => 0
  | d :: ds => max d.depth (depthAll ds)

def depthEntries : List (Atom × Data) → Nat
  | [] => 0
  | (_, v) :: rest => max v.depth (depthEntries rest)

end

/-- A map with texts as keys. -/
def ofFields (fields : List (String × Data)) : Data :=
  map (fields.map fun field => (.text field.1, field.2))

end Data

end Stylesheet
