import Stylesheet.Text.Hex
import Stylesheet.Text.Printable

/-!
# Quoted texts in messages

A message shows a text between quotation marks, with everything escaped that a reader could not
see or could not tell from the marks. Single marks are used unless the text holds one and no double
mark.

Bytes are shown in the same way, and so are texts some of whose code points are no characters.
-/

namespace Stylesheet.Text

def quotationMark (cs : List Char) : Char :=
  if cs.contains '\'' && !cs.contains '"' then '"' else '\''

/-- How one character stands between two `mark`s. -/
def escaped (mark c : Char) : List Char :=
  if c = mark ∨ c = '\\' then ['\\', c]
  else if c = '\t' then ['\\', 't']
  else if c = '\n' then ['\\', 'n']
  else if c = '\r' then ['\\', 'r']
  else if isPrintable c then [c]
  else if c.toNat < 0x100 then '\\' :: 'x' :: hex false 2 c.toNat
  else if c.toNat < 0x10000 then '\\' :: 'u' :: hex false 4 c.toNat
  else '\\' :: 'U' :: hex false 8 c.toNat

def quotedChars (cs : List Char) : List Char :=
  let mark := quotationMark cs
  mark :: cs.flatMap (escaped mark) ++ [mark]

def quoted (s : String) : String :=
  String.ofList (quotedChars s.toList)

def escapedCode (mark : Char) (n : Nat) : List Char :=
  if n.isValidChar then escaped mark (Char.ofNat n) else '\\' :: 'u' :: hex false 4 n

def quotedCodes (codes : List Nat) : String :=
  let mark := quotationMark ((codes.filter fun n => n.isValidChar).map Char.ofNat)
  String.ofList (mark :: codes.flatMap (escapedCode mark) ++ [mark])

/-- How one byte stands between two `mark`s: those outside ASCII are escaped. -/
def escapedByte (mark : Char) (b : UInt8) : List Char :=
  if b < 0x80 then escaped mark (Char.ofNat b.toNat) else '\\' :: 'x' :: hex false 2 b.toNat

/-- Bytes between quotation marks, escaped, with a letter in front. -/
def quotedBytes (bytes : List UInt8) : String :=
  let mark := quotationMark (bytes.map fun b => Char.ofNat b.toNat)
  String.ofList ('b' :: mark :: bytes.flatMap (escapedByte mark) ++ [mark])

end Stylesheet.Text
