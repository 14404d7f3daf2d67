/-!
# Places in a text

A cursor is a place in a text: what is left of the text, and the line and column, both from zero on.
Five characters end a line.

* `rest_advance` : advancing drops characters.
-/

namespace Stylesheet.Data.Yaml

def isBreak (c : Char) : Bool :=
  c == '\n' || c == '\r' || c == '\u0085' || c == '\u2028' || c == '\u2029'

def atBreak : List Char → Bool
  | [] => true
  | c :: _ => isBreak c

/-- Whether a text is empty or starts with a space, a tab or a line break. -/
def atGap : List Char → Bool
  | [] => true
  | c :: _ => c == ' ' || c == '\t' || isBreak c

def atSpaceOrBreak : List Char → Bool
  | [] => true
  | c :: _ => c == ' ' || isBreak c

def atDocumentStart : List Char → Bool
  | '-' :: '-' :: '-' :: cs => atGap cs
  | _ => false

def atDocumentEnd : List Char → Bool
  | '.' :: '.' :: '.' :: cs => atGap cs
  | _ => false

/-- Whether a text starts with either mark. -/
def atMarker (cs : List Char) : Bool :=
  atDocumentStart cs || atDocumentEnd cs

structure Cursor where
  rest : List Char
  index : Nat := 0
  line : Nat := 0
  column : Nat := 0

namespace Cursor

/-- The place after the next character. A carriage return before a line feed does not end the line,
and the mark of the byte order has no width. -/
def next (c : Cursor) : Cursor :=
  match c.rest with
  | [] => c
  | ch :: rest =>
    if isBreak ch && !(ch == '\r' && rest.head? == some '\n') then
      ⟨rest, c.index + 1, c.line + 1, 0⟩
    else ⟨rest, c.index + 1, c.line, if ch = '\ufeff' then c.column else c.column + 1⟩

def advance : Nat → Cursor → Cursor
  | 0, c => c
  | n + 1, c => advance n c.next

def skip (p : Char → Bool) (c : Cursor) : Cursor :=
  c.advance (c.rest.takeWhile p).length

def skipComment (c : Cursor) : Cursor :=
  if c.rest.head? = some '#' then c.skip fun ch => !isBreak ch else c

/-- The line break at a place and the place after it. All breaks that are not of another script
count as a line feed. -/
def lineBreak? (c : Cursor) : Option (Char × Cursor) :=
  match c.rest with
  | '\r' :: '\n' :: _ => some ('\n', c.advance 2)
  | ch :: _ =>
    if ch = '\u2028' ∨ ch = '\u2029' then some (ch, c.next)
    else if isBreak ch then some ('\n', c.next)
    else none
  | [] => none

/-- A step forward leaves the text after the next character. -/
theorem rest_next (c : Cursor) : c.next.rest = c.rest.drop 1 := by
  unfold next
  split
  · next h => simp [h]
  · next h => split <;> simp [h]

/-- Advancing by `n` leaves the text after the next `n` characters. -/
theorem rest_advance (n : Nat) (c : Cursor) : (c.advance n).rest = c.rest.drop n := by
  induction n generalizing c with
  | zero => rfl
  | succ n ih => simp [advance, ih, rest_next]

end Cursor

end Stylesheet.Data.Yaml
