import Stylesheet.Fault
import Stylesheet.Text.Utf8

/-!
# Faults with their place

A `Diagnostic` is a fault with the line and file it was found at and the chain of files that were
being compiled, the innermost first. `Failure` is every way in which a compilation can end without
a result.

* `Diagnostic.through_backtrace` : passing through a file adds one frame at the end.
* `Diagnostic.through_filename` : only the first file passed through can name the file.
-/

namespace Stylesheet

/-- A line of a file; a template that is no file has no name, and a number may be unknown. -/
structure Frame where
  filename : Option String
  line : Option Int
  deriving DecidableEq, Repr

def shownFilename (filename : Option String) : String :=
  match filename with
  | some name => if name.isEmpty then "(sass)" else name
  | none => "(sass)"

def shownLine (line : Option Int) : String :=
  match line with
  | some n => toString n
  | none => "None"

def Frame.text (frame : Frame) : String :=
  shownFilename frame.filename ++ ":" ++ shownLine frame.line

/-- A fault with its place. -/
structure Diagnostic where
  fault : Fault
  line : Option Int := none
  filename : Option String := none
  backtrace : List Frame := []
  deriving DecidableEq, Repr

namespace Diagnostic

def message (d : Diagnostic) : String :=
  d.fault.message

def location (d : Diagnostic) : String :=
  Frame.text ⟨d.filename, d.line⟩

/-- The diagnostic after it has passed through the compilation of a file at a line. The first file
becomes the file of the fault if that had none; without a line the line of the fault is taken. -/
def through (d : Diagnostic) (filename : Option String) (line : Option Int) : Diagnostic :=
  { d with
    filename := if d.backtrace.isEmpty then d.filename <|> filename else d.filename
    backtrace := d.backtrace ++ [⟨filename, line <|> d.line⟩] }

/-- An import through which a diagnostic passes adds its own place as the outermost frame. -/
theorem through_backtrace (d : Diagnostic) (filename : Option String) (line : Option Int) :
    (d.through filename line).backtrace = d.backtrace ++ [⟨filename, line <|> d.line⟩] := rfl

/-- A diagnostic that has a backtrace already keeps the file it names. -/
theorem through_filename {d : Diagnostic} (h : d.backtrace ≠ []) (filename : Option String)
    (line : Option Int) : (d.through filename line).filename = d.filename := by
  simp [through, h]

end Diagnostic

/-- The fault at a line of a file that is not known yet. -/
def Fault.at (fault : Fault) (line : Option Int) : Diagnostic :=
  { fault, line }

/-- The ways in which a compilation can end without a result. -/
inductive Failure where
  /-- The stylesheet is refused. -/
  | refused (diagnostic : Diagnostic)
  /-- An infinite number has to be written. -/
  | infiniteNumber
  /-- An imported file is not UTF-8. -/
  | undecodable (path : String) (fault : Text.Utf8Fault)
  /-- Imports and inclusions are nested deeper than was allowed. -/
  | nestingLimit
  deriving DecidableEq, Repr

end Stylesheet
