import Stylesheet.Text.Blank
import Stylesheet.Text.Pieces

/-!
# Finding imported files

An import names its targets in a list. A target that ends in `.css` is only referred to. Any other
target is looked for on the load paths in order, at each first with an underscore before the last
name of the path and then as it is; a target without `.sass` at its end that is not found is
referred to as well.

* `isFile_of_resolve` : only what can be read is taken.
-/

namespace Stylesheet.Import

/-- The targets of an import: separated by commas, without the blanks after a comma. -/
def targets (value : List Char) : List (List Char) :=
  match Text.pieces ',' (Text.trim value) with
  | [] => []
  | first :: rest => first :: rest.map Text.trimStart

def withoutEnding? (ending : String) (cs : List Char) : Option (List Char) :=
  if ending.toList.isSuffixOf cs then some (cs.take (cs.length - ending.length)) else none

/-! ## Paths -/

/-- A path cut before its last name. The slashes between the two parts are dropped, unless nothing
comes before them. -/
def splitPath (cs : List Char) : List Char × List Char :=
  let name := (cs.reverse.takeWhile (· != '/')).reverse
  let folder := (cs.reverse.dropWhile (· != '/')).reverse
  let trimmed := (folder.reverse.dropWhile (· == '/')).reverse
  (if trimmed.isEmpty then folder else trimmed, name)

/-- A path followed by another one, with a slash between them where one is needed. A path that
starts with a slash stands alone. -/
def joinPath (a b : List Char) : List Char :=
  if b.head? = some '/' then b
  else if a.isEmpty || a.getLast? = some '/' then a ++ b
  else a ++ '/' :: b

def candidates (file : List Char) (loadPaths : List String) : List String :=
  let (folder, name) := splitPath file
  loadPaths.flatMap fun path =>
    ['_' :: name, name].map fun name =>
      String.ofList (joinPath (joinPath path.toList folder) name)

def find? (isFile : String → Bool) (file : List Char) (loadPaths : List String) : Option String :=
  (candidates file loadPaths).find? isFile

/-! ## Targets -/

/-- What an import of a target comes to. -/
inductive Resolution where
  /-- The file at a path is compiled. -/
  | file (path : String)
  /-- The target was looked for and not found, and is referred to by a name. -/
  | fallback (name : String)
  /-- The target is referred to by its name without having been looked for. -/
  | reference (name : String)
  /-- The target has to be a file and was not found. -/
  | missing
  deriving DecidableEq, Repr

def resolve (isFile : String → Bool) (target : List Char) (loadPaths : List String) :
    Resolution :=
  match withoutEnding? ".sass" target with
  | some stem =>
    match find? isFile (stem ++ ".sass".toList) loadPaths with
    | some path => .file path
    | none => .missing
  | none =>
    if ".css".toList.isSuffixOf target then .reference (String.ofList target)
    else match find? isFile (target ++ ".sass".toList) loadPaths with
      | some path => .file path
      | none => .fallback (String.ofList (target ++ ".css".toList))

/-- A target is resolved to a path only where a file stands. -/
theorem isFile_of_resolve {isFile : String → Bool} {target : List Char} {loadPaths : List String}
    {path : String} (h : resolve isFile target loadPaths = .file path) : isFile path = true := by
  have hfound : ∀ {file : List Char}, find? isFile file loadPaths = some path →
      isFile path = true := fun hfind => List.find?_some hfind
  unfold resolve at h
  split at h
  · split at h
    · next hfind =>
        cases h
        exact hfound hfind
    · cases h
  · split at h
    · cases h
    · split at h
      · next hfind =>
          cases h
          exact hfound hfind
      · cases h

end Stylesheet.Import
