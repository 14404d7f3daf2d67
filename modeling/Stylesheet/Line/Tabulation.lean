import Stylesheet.Diagnostic
import Stylesheet.Line
import Stylesheet.Text.Blank

/-!
# From text to indented lines

A template is cut into physical lines. Blank lines and lines that start with `//` are dropped, but
counted. The first indented line that is kept fixes the indentation unit, and every later
indentation has to be a repetition of it.
-/

namespace Stylesheet

/-- The lines of a template: a line ends with a carriage return, a line feed, or both in this
order. -/
def physicalLines : List Char → List (List Char)
  | [] => [[]]
  | '\r' :: '\n' :: cs => [] :: physicalLines cs
  | c :: cs =>
    if c = '\n' ∨ c = '\r' then [] :: physicalLines cs
    else match physicalLines cs with
      | [] => [[c]]
      | line :: lines => (c :: line) :: lines

/-- Whether a physical line counts: it is not blank and does not start with two slashes. -/
def isKept (raw : List Char) : Bool :=
  !raw.all Text.isBlank && !(['/', '/'].isPrefixOf raw)

def indentation (raw : List Char) : List Char :=
  raw.takeWhile Text.isBlank

/-- The kept physical lines with their numbers, from one on. -/
def keptLines (template : List Char) : List (List Char × Nat) :=
  ((physicalLines template).zipIdx 1).filter fun line => isKept line.1

def unitsIn? (unit indentation : List Char) : Option Nat :=
  let times := indentation.length / unit.length
  if (List.replicate times unit).flatten = indentation then some times else none

def Line.ofRaw (raw : List Char) (depth number : Nat) : Line :=
  ⟨String.ofList (Text.trim raw), depth, number, []⟩

/-- The lines of kept physical lines, once an unindented line has come before them; `unit` is the
indentation unit, when an indented line has fixed it. -/
def tabulateFrom (unit : Option (List Char)) :
    List (List Char × Nat) → Except Diagnostic (List Line)
  | [] => .ok []
  | (raw, number) :: rest =>
    match indentation raw, unit with
    | [], unit => (tabulateFrom unit rest).map (.ofRaw raw 0 number :: ·)
    | lead, none =>
      if lead.contains ' ' && lead.contains '\t' then
        .error (Fault.mixedIndentation.at (number : Int))
      else (tabulateFrom (some lead) rest).map (.ofRaw raw 1 number :: ·)
    | lead, some unit =>
      match unitsIn? unit lead with
      | some depth => (tabulateFrom (some unit) rest).map (.ofRaw raw depth number :: ·)
      | none => .error ((Fault.inconsistentIndentation lead unit).at (number : Int))

/-- The kept lines of a template with their depths; the first one must not be indented. -/
def tabulate (template : List Char) : Except Diagnostic (List Line) :=
  match keptLines template with
  | [] => .ok []
  | (raw, number) :: rest =>
    if (indentation raw).isEmpty then (tabulateFrom none rest).map (.ofRaw raw 0 number :: ·)
    else .error (Fault.indentedStart.at (number : Int))

end Stylesheet
