import Stylesheet.Disk
import Stylesheet.Text.Pieces

/-!
# A disk held in memory

A folder of files and folders, with the look-up of paths in it: a path is followed name by name from
the folder, `..` goes back to the folder around, and every name on the way has to be that of a
folder. Nothing is known to exist outside of the folder.

* `Entry.disk` : the folder as the disk of a compilation.
* `Entry.write` : the folder after a file has been written.
-/

namespace Stylesheet

inductive Entry where
  | file (bytes : List UInt8)
  | folder (entries : List (String × Entry))
  deriving Inhabited

namespace Entry

def entries : Entry → List (String × Entry)
  | file _ => []
  | folder es => es

def isFolder : Entry → Bool
  | file _ => false
  | folder _ => true

def child? (e : Entry) (name : String) : Option Entry :=
  (e.entries.find? (·.1 = name)).map (·.2)

def setChild (name : String) (e : Entry) : List (String × Entry) → List (String × Entry)
  | [] => [(name, e)]
  | (n, old) :: rest => if n = name then (name, e) :: rest else (n, old) :: setChild name e rest

/-- The entry with a file at a path of names; folders on the way are made. -/
def insert (bytes : List UInt8) : List String → Entry → Entry
  | [], _ => file bytes
  | name :: names, e =>
    folder (setChild name (insert bytes names ((e.child? name).getD (folder []))) e.entries)

mutual

/-- All files of an entry with their paths, which start with the given names. -/
def filesAt (names : List String) : Entry → List (String × List UInt8)
  | file bytes => [(String.intercalate "/" names, bytes)]
  | folder es => filesOf names es

def filesOf (names : List String) : List (String × Entry) → List (String × List UInt8)
  | [] => []
  | (name, e) :: rest => filesAt (names ++ [name]) e ++ filesOf names rest

end

def files (e : Entry) : List (String × List UInt8) :=
  e.filesAt []

/-! ## Following paths -/

/-- The longest name of a file, in bytes. -/
def maxName : Nat := 255

/-- The longest path, in bytes. -/
def maxPath : Nat := 4095

/-- Where a path leads: the entry with its names from the folder on, and the folders around it,
the innermost first. A place outside of the folder has no names and looks empty. -/
structure Place where
  names : Option (List String)
  entry : Entry
  around : List Entry

def Place.step (place : Place) (name : String) : Except AccessFault Place :=
  if !place.entry.isFolder then .error .notAFolder
  else if name = "" ∨ name = "." then .ok place
  else if name = ".." then
    match place.around with
    | e :: around => .ok ⟨place.names.map List.dropLast, e, around⟩
    | [] => .ok ⟨none, folder [], []⟩
  else if maxName < name.utf8ByteSize then .error .nameTooLong
  else match place.entry.child? name with
    | some e => .ok ⟨place.names.map (· ++ [name]), e, place.entry :: place.around⟩
    | none => .error .notFound

def namesOf (path : String) : List String :=
  (Text.pieces '/' path.toList).map String.ofList

/-- What is wrong with a path whatever the folder holds. -/
def pathFault? (path : String) : Option AccessFault :=
  if path.toList.contains '\x00' then some .holdsNul
  else if path.isEmpty then some .notFound
  else if maxPath < path.utf8ByteSize then some .nameTooLong
  else none

def origin (root : Entry) (path : String) : Place :=
  if path.toList.head? = some '/' then ⟨none, folder [], []⟩ else ⟨some [], root, []⟩

def locate (root : Entry) (path : String) : Except AccessFault Place :=
  match pathFault? path with
  | some fault => .error fault
  | none => (namesOf path).foldlM Place.step (root.origin path)

def read (root : Entry) (path : String) : Except AccessFault (List UInt8) :=
  match root.locate path with
  | .error fault => .error fault
  | .ok place => match place.entry with
    | file bytes => .ok bytes
    | folder _ => .error .isFolder

/-- The names at which a file is written for a path; a file outside of the folder has none. A path
that ends in a slash is that of a folder. -/
def target (root : Entry) (path : String) : Except AccessFault (Option (List String)) :=
  match pathFault? path with
  | some fault => .error fault
  | none => do
    let names := (namesOf path).reverse.dropWhile (·.isEmpty)
    match names with
    | [] => throw .isFolder
    | name :: before =>
      let place ← before.reverse.foldlM Place.step (root.origin path)
      if !place.entry.isFolder then throw .notAFolder
      else if path.toList.getLast? = some '/' then throw .isFolder
      else match place.step name with
        | .ok found => if found.entry.isFolder then throw .isFolder else pure found.names
        | .error .notFound => pure (place.names.map (· ++ [name]))
        | .error fault => throw fault

def write (root : Entry) (path text : String) : Except AccessFault Entry := do
  match ← root.target path with
  | some names => pure (root.insert text.toUTF8.toList names)
  | none => pure root

/-- The folder as the disk of a compilation. The files at some paths can be found, but not
opened. -/
def disk (root : Entry) (locked : List String) : Disk where
  isFile path := (root.read path).isOk
  read path := if locked.contains path then .error .denied else root.read path
  create path := (root.target path).map fun _ => ()

end Entry

end Stylesheet
