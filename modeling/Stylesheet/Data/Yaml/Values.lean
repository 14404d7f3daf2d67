import Stylesheet.Data.Graph
import Stylesheet.Data.NumberSet
import Stylesheet.Data.Yaml.Tree

/-!
# The values of a document

Scalars become atoms, and every list or map of a document gets a box, however often its name stands
for it. Boxes are filled in the order in which they were met, so that a value may stand within itself.
Of two equal keys of a map the last one counts, and a map has the entries of others before its own
where it has the mark for it.

* `Document.values` : the values of a document.
-/

namespace Stylesheet.Data.Yaml

/-- What is known while the values of a document are made. -/
structure Building where
  /-- The trees that have names. -/
  named : Array Tree
  /-- The entries of the maps that have been changed, by the numbers of the maps. -/
  changed : Array (Option (Array (Tree × Tree)))
  /-- What lists and maps have become, by their numbers. -/
  made : Array (Option Ref)
  boxes : Array Box := #[]
  /-- The boxes to be filled, with what they are filled from. -/
  waiting : Array (Nat × Tree) := #[]

abbrev Build := StateT Building (Except YamlFault)

namespace Build

def refuse {α : Type} : Build α :=
  throw .malformed

def resolved (tree : Tree) : Build Tree := do
  match tree with
  | .named number => pure ((← get).named.getD number .empty)
  | tree => pure tree

def entriesOf (number : Nat) (entries : List (Tree × Tree)) : Build (Array (Tree × Tree)) := do
  pure (((← get).changed.getD number none).getD entries.toArray)

/-! ## Marks among keys

A key may be the mark of entries to be merged, or a mark that is nothing but a text where it stands
among the keys of a map. -/

def kindOf (tree : Tree) : Build Kind := do
  match ← resolved tree with
  | .scalar kind _ => pure kind
  | .list _ kind _ => pure kind
  | .map _ kind _ => pure kind
  | .named _ => pure .unknown

def asText : Tree → Tree
  | .scalar _ written => .scalar .text written
  | .list number _ items => .list number .text items
  | .map number _ entries => .map number .text entries
  | .named number => .named number

/-- The position of the first key of one of some kinds, and its kind; the first of the given entries
stands at `position`. -/
def firstKey? (kinds : List Kind) : Nat → List (Tree × Tree) → Build (Option (Nat × Kind))
  | _, [] => pure none
  | position, (key, _) :: entries => do
    let kind ← kindOf key
    if kinds.contains kind then pure (some (position, kind))
    else firstKey? kinds (position + 1) entries

def change (number : Nat) (entries : Array (Tree × Tree)) : Build Unit :=
  modify fun s => { s with changed := s.changed.setIfInBounds number (some entries) }

/-- Makes the key at a position a text. -/
def unmark (number : Nat) (entries : Array (Tree × Tree)) (position : Nat) : Build Unit := do
  let (key, value) := entries.getD position (.empty, .empty)
  match key with
  | .named name =>
    modify fun s =>
      { s with named := s.named.setIfInBounds name (asText (s.named.getD name .empty)) }
  | key => change number (entries.setIfInBounds position (asText key, value))

mutual

/-- Takes the marks away from the keys of a map and gives the entries to be merged, after those that
have been found. Every mark takes one unit of `fuel`. -/
def drain : Nat → Nat → List (Tree × Tree) → Array (Tree × Tree) → Build (Array (Tree × Tree))
  | 0, _, _, _ => refuse
  | fuel + 1, number, own, found => do
    let entries ← entriesOf number own
    match ← firstKey? [.merge, .default] 0 entries.toList with
    | none => pure found
    | some (position, .merge) =>
      change number (entries.eraseIdxIfInBounds position)
      let more ← merged fuel (entries.getD position (.empty, .empty)).2
      drain fuel number own (found ++ more)
    | some (position, _) =>
      unmark number entries position
      drain fuel number own found

/-- The entries that a value gives to the map it is merged into: those of a map, or those of the maps of
a list, the last map first. -/
def merged : Nat → Tree → Build (Array (Tree × Tree))
  | 0, _ => refuse
  | fuel + 1, tree => do
    match ← resolved tree with
    | .map number _ entries => flattened fuel number entries
    | .list _ _ items =>
      let parts ← items.mapM fun item => do
        match ← resolved item with
        | .map number _ entries => flattened fuel number entries
        | _ => refuse
      pure (parts.reverse.foldl (· ++ ·) #[])
    | _ => refuse

/-- The entries of a map, of which none has a mark any more. -/
def flattened : Nat → Nat → List (Tree × Tree) → Build (Array (Tree × Tree))
  | 0, _, _ => refuse
  | fuel + 1, number, own => do
    let found ← drain fuel number own #[]
    let entries ← entriesOf number own
    if found.isEmpty then pure entries
    else
      change number (found ++ entries)
      pure (found ++ entries)

end

/-! ## Making values -/

/-- The text of a tree that is read as an atom. A map stands for the value of its first key that is the
mark for that. -/
def writtenOf : Nat → Tree → Build Written
  | 0, _ => refuse
  | fuel + 1, tree => do
    match ← resolved tree with
    | .scalar _ written => pure written
    | .map number _ entries =>
      let entries ← entriesOf number entries
      match ← firstKey? [.default] 0 entries.toList with
      | some (position, _) => writtenOf fuel (entries.getD position (.empty, .empty)).2
      | none => refuse
    | _ => refuse

def newBox (empty : Box) (tree : Tree) : Build Ref := do
  let number := (← get).boxes.size
  modify fun s => { s with boxes := s.boxes.push empty, waiting := s.waiting.push (number, tree) }
  pure (.box number)

def madeOf (fuel : Nat) (kind : Kind) (tree : Tree) : Build Ref := do
  match kind with
  | .list | .pairs => newBox (.list []) tree
  | .map => newBox (.map []) tree
  | .set => newBox (.set []) tree
  | kind =>
    let written ← writtenOf fuel tree
    match kind, tree with
    | .timestamp, .map _ _ _ => throw .dateOfMap
    | kind, _ => pure (.atom (← kind.read written))

/-- What a list or map becomes; it becomes the same wherever it stands. -/
def once (number : Nat) (make : Build Ref) : Build Ref := do
  match (← get).made.getD number none with
  | some ref => pure ref
  | none =>
    let ref ← make
    modify fun s => { s with made := s.made.setIfInBounds number (some ref) }
    pure ref

def value (fuel : Nat) (tree : Tree) : Build Ref := do
  let tree ← resolved tree
  match tree with
  | .scalar kind _ => madeOf fuel kind tree
  | .list number kind _ => once number (madeOf fuel kind tree)
  | .map number kind _ => once number (madeOf fuel kind tree)
  | .named _ => refuse

def keyOf (fuel : Nat) (tree : Tree) : Build Atom := do
  match ← value fuel tree with
  | .atom a => pure a
  | .box _ => refuse

/-! ## Filling boxes -/

def fillEntries (fuel : Nat) (tree : Tree) : Build (List (Atom × Ref)) := do
  match tree with
  | .map number _ entries =>
    let entries ← (← flattened fuel number entries).toList.mapM fun (key, item) => do
      let key ← keyOf fuel key
      pure (key, ← value fuel item)
    pure (Data.settle entries)
  | _ => refuse

def pairOf (fuel : Nat) (tree : Tree) : Build Ref := do
  match ← resolved tree with
  | .map number _ entries => match (← entriesOf number entries).toList with
    | [(first, second)] =>
      let first ← value fuel first
      let pair := Box.pair first (← value fuel second)
      let number := (← get).boxes.size
      modify fun s => { s with boxes := s.boxes.push pair }
      pure (.box number)
    | _ => refuse
  | _ => refuse

def content (fuel : Nat) (tree : Tree) : Build Box := do
  match ← kindOf tree, tree with
  | .list, .list _ _ items => pure (.list (← items.mapM (value fuel)))
  | .pairs, .list _ _ items => pure (.list (← items.mapM (pairOf fuel)))
  | .map, tree => pure (.map (← fillEntries fuel tree))
  | .set, tree => pure (.set (NumberSet.arranged ((← fillEntries fuel tree).map (·.1))))
  | _, _ => refuse

/-- Fills the boxes that wait, from the given one on. Every box takes one unit of `steps`. -/
def fillAll (fuel : Nat) : Nat → Nat → Build Unit
  | 0, next => do
    match (← get).waiting[next]? with
    | none => pure ()
    | some _ => refuse
  | steps + 1, next => do
    match (← get).waiting[next]? with
    | none => pure ()
    | some (number, tree) =>
      let box ← content fuel tree
      modify fun s => { s with boxes := s.boxes.setIfInBounds number box }
      fillAll fuel steps (next + 1)

end Build

/-- The values of a document. Every list and map has one box that is filled; there are no more marks
than trees, of which `size` is a bound. -/
def Document.values (size : Nat) (document : Document) : Except YamlFault Graph := do
  let start : Building :=
    { named := document.named
      changed := Array.replicate document.count none
      made := Array.replicate document.count none }
  let fuel := 4 * size + 9
  let build : Build Ref := do
    let root ← Build.value fuel document.root
    Build.fillAll fuel (document.count + 1) 0
    pure root
  let (root, made) ← build.run start
  pure ⟨made.boxes, root⟩

end Stylesheet.Data.Yaml
