import Stylesheet.Number.Length
import Stylesheet.Number.Scientific
import Stylesheet.Text.Blank
import Stylesheet.Text.Digit
import Stylesheet.Text.Hex
import Stylesheet.Text.Quoted

/-!
# Numbers as texts write them

A text may write a number with blanks around it, a sign, and the digits of any script.

* `int` : the integer that a text writes in a base.
* `float` : the number that a text writes, with a point or an exponent or as a word.
-/

namespace Stylesheet.Number

inductive LiteralFault where
  /-- It writes no integer in a base. -/
  | noInt (base : Nat) (text : List Char)
  /-- It writes no number with a point. -/
  | noFloat (text : List Char)
  /-- It writes an integer that is too long. -/
  | tooLong (fault : TooLong)
  deriving DecidableEq, Repr

/-- The wording of the fault. A long text is cut off after 200 characters of its quoted form where it
writes no integer. -/
def LiteralFault.message : LiteralFault → String
  | noInt base text =>
    "invalid literal for int() with base " ++ toString base ++ ": " ++
      String.ofList ((Text.quotedChars text).take 200)
  | noFloat text =>
    "could not convert string to float: " ++ String.ofList (Text.quotedChars text)
  | tooLong fault => fault.message

namespace Literal

/-- A character in ASCII: digits and blanks of all scripts become those of ASCII, and other
characters become one that no number has. -/
def plain (c : Char) : Char :=
  if c.toNat < 0x7F then c
  else if Text.isBlank c then ' '
  else match Text.digitValue? c with
    | some d => Char.ofNat (0x30 + d)
    | none => '?'

/-- Whether a character of ASCII is blank. -/
def isSpace (c : Char) : Bool :=
  c == ' ' || (0x09 ≤ c.toNat && c.toNat ≤ 0x0D)

/-- Whether a text starts with a minus sign, and the text after its sign. -/
def sign : List Char → Bool × List Char
  | '-' :: cs => (true, cs)
  | '+' :: cs => (false, cs)
  | cs => (false, cs)

/-- The letter that marks a base other than ten. -/
def baseLetter? : Nat → Option Char
  | 2 => some 'b'
  | 8 => some 'o'
  | 16 => some 'x'
  | _ => none

def withoutMark (base : Nat) (cs : List Char) : List Char :=
  match cs with
  | '0' :: c :: rest => if some c.toLower = baseLetter? base then rest else cs
  | _ => cs

def digit? (base : Nat) (c : Char) : Option Nat :=
  (Text.hexValue? c).filter (· < base)

/-- The exponent that a whole text writes; zero for no text. -/
def exponent? : List Char → Option Int
  | [] => some 0
  | mark :: rest =>
    let (negative, digits) := sign rest
    if (mark == 'e' || mark == 'E') && !digits.isEmpty && digits.all Char.isDigit then
      let n : Int := Nat.ofDigitChars 10 digits 0
      some (if negative then -n else n)
    else none

def unsigned? (negative : Bool) (cs : List Char) : Option Float :=
  let word := String.ofList (cs.map Char.toLower)
  if word = "inf" ∨ word = "infinity" then some (if negative then -1.0 / 0.0 else 1.0 / 0.0)
  else if word = "nan" then some (0.0 / 0.0)
  else
    let whole := cs.takeWhile Char.isDigit
    let (fraction, rest) := match cs.drop whole.length with
      | '.' :: rest => (rest.takeWhile Char.isDigit, rest.dropWhile Char.isDigit)
      | rest => ([], rest)
    if whole.isEmpty && fraction.isEmpty then none
    else (exponent? rest).map fun exponent =>
      scientific negative (Nat.ofDigitChars 10 (whole ++ fraction) 0) (exponent - fraction.length)

end Literal

/-- The integer that a text writes in a base up to sixteen. In a base that is no power of two its
digits are limited in number. -/
def int (base : Nat) (cs : List Char) : Except LiteralFault Int :=
  let (negative, body) := Literal.sign ((cs.map Literal.plain).dropWhile Literal.isSpace)
  let body := Literal.withoutMark base body
  let digits := body.takeWhile fun c => (Literal.digit? base c).isSome
  if digits.isEmpty then .error (.noInt base cs)
  else if base = 10 ∧ maxDigits < digits.length then .error (.tooLong (.read digits.length))
  else if (body.drop digits.length).all Literal.isSpace then
    let n : Int := digits.foldl (fun n c => base * n + (Literal.digit? base c).getD 0) 0
    .ok (if negative then -n else n)
  else .error (.noInt base cs)

def float (cs : List Char) : Except LiteralFault Float :=
  let body := (cs.map Literal.plain).dropWhile Literal.isSpace
  let (negative, body) := Literal.sign ((body.reverse.dropWhile Literal.isSpace).reverse)
  match Literal.unsigned? negative body with
  | some x => .ok x
  | none => .error (.noFloat cs)

end Stylesheet.Number
