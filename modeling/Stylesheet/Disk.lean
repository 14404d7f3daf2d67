import Stylesheet.Text.Quoted
import Stylesheet.Text.Utf8

/-!
# What a compilation sees of the disk

A compilation asks three things of a disk: whether a path names a file that can be read, what a
file holds, and whether a file can be written. Files hold bytes; texts are read as UTF-8 with the
line ends made one.
-/

namespace Stylesheet

inductive AccessFault where
  | notFound
  | notAFolder
  | isFolder
  | nameTooLong
  | denied
  /-- The path holds the character that ends paths. -/
  | holdsNul
  deriving DecidableEq, Repr

def AccessFault.message (fault : AccessFault) (path : String) : String :=
  let numbered (number words : String) : String :=
    "[Errno " ++ number ++ "] " ++ words ++ ": " ++ Text.quoted path
  match fault with
  | notFound => numbered "2" "No such file or directory"
  | notAFolder => numbered "20" "Not a directory"
  | isFolder => numbered "21" "Is a directory"
  | nameTooLong => numbered "36" "File name too long"
  | denied => numbered "13" "Permission denied"
  | holdsNul => "embedded null byte"

/-- What a compilation can ask about paths. -/
structure Disk where
  /-- Whether a path names a file that can be read. -/
  isFile : String → Bool
  /-- The bytes of the file at a path. -/
  read : String → Except AccessFault (List UInt8)
  /-- Whether the file at a path can be created or overwritten. -/
  create : String → Except AccessFault Unit

inductive ReadFault where
  /-- The file cannot be opened. -/
  | access (fault : AccessFault)
  /-- The file is not UTF-8. -/
  | encoding (fault : Text.Utf8Fault)
  deriving DecidableEq, Repr

def ReadFault.message (fault : ReadFault) (path : String) : String :=
  match fault with
  | access f => f.message path
  | encoding f => f.message

def textOfBytes (bytes : List UInt8) : Except Text.Utf8Fault String :=
  (Text.decodeUtf8 bytes).map fun cs => String.ofList (Text.unifyNewlines cs)

def Disk.readText (disk : Disk) (path : String) : Except ReadFault String := do
  let bytes ← (disk.read path).mapError ReadFault.access
  (textOfBytes bytes).mapError ReadFault.encoding

/-- The disk of which only some paths are known, with what reading them gave. Everything can be
written. -/
def Disk.ofKnown (known : List (String × Except AccessFault (List UInt8))) : Disk where
  isFile path := ((known.lookup path).map Except.isOk).getD false
  read path := (known.lookup path).getD (.error .notFound)
  create _ := .ok ()

/-- A disk made from known files has no other file. -/
theorem Disk.exists_known {known : List (String × Except AccessFault (List UInt8))} {path : String}
    (h : (Disk.ofKnown known).isFile path = true) : ∃ bytes, (path, .ok bytes) ∈ known := by
  unfold Disk.ofKnown at h
  dsimp only at h
  cases hlookup : known.lookup path with
  | none => simp [hlookup] at h
  | some found =>
      obtain ⟨before, after, rfl, -⟩ := List.lookup_eq_some_iff.mp hlookup
      cases found with
      | error fault => simp [hlookup, Except.isOk, Except.toBool] at h
      | ok bytes => exact ⟨bytes, by simp⟩

end Stylesheet
