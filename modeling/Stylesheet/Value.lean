import Stylesheet.Number.Decimal
import Stylesheet.Text.Blank
import Stylesheet.Text.Hex

/-!
# Values of expressions

A value is a number with or without a unit, a color, or any other text. Constants store the written
form of a value, from which `Value.ofString` takes the value back.
-/

namespace Stylesheet

/-- A color by its three channels, each from 0 to 255. -/
structure Color where
  red : Nat
  green : Nat
  blue : Nat
  deriving DecidableEq, Repr

inductive Value where
  | number (value : Float) (unit : Option String)
  | color (color : Color)
  | text (text : String)

/-- The color that three or six hexadecimal digits write; each of three counts twice. -/
def Color.ofHexDigits? (digits : List Char) : Option Color :=
  match digits.mapM Text.hexValue? with
  | some [r, g, b] => some ⟨17 * r, 17 * g, 17 * b⟩
  | some [r, r', g, g', b, b'] => some ⟨16 * r + r', 16 * g + g', 16 * b + b'⟩
  | _ => none

def Color.css (color : Color) : String :=
  String.ofList ('#' :: [color.red, color.green, color.blue].flatMap (Text.hex false 2))

namespace Value

/-- The written form of a value; an infinite number has none. -/
def css? : Value → Option String
  | number value unit => (Number.display? value).map (· ++ unit.getD "")
  | color c => some c.css
  | text t => some t

/-- Whether a value is a number that is infinite or no number at all. -/
def isOutOfRange : Value → Bool
  | number value _ => (Number.Dyadic.ofFloat? value).isNone
  | _ => false

/-! ## Reading values -/

def isUnitLetter (c : Char) : Bool :=
  c.isAlpha

/-- A number at the start of a text: its digits before and after the point, whether it has a point,
and what follows it. -/
def scanNumeral? (cs : List Char) : Option (List Char × Option (List Char) × List Char) :=
  let whole := cs.takeWhile Text.isDigit
  match cs.dropWhile Text.isDigit with
  | '.' :: rest =>
    let fraction := rest.takeWhile Text.isDigit
    if whole.isEmpty && fraction.isEmpty then none
    else some (whole, some fraction, rest.dropWhile Text.isDigit)
  | rest => if whole.isEmpty then none else some (whole, none, rest)

/-- The unit at the start of a text, letters or a percent sign, and what follows it. -/
def scanUnit (cs : List Char) : Option (List Char) × List Char :=
  match cs with
  | '%' :: rest => (some ['%'], rest)
  | _ =>
    let letters := cs.takeWhile isUnitLetter
    if letters.isEmpty then (none, cs) else (some letters, cs.dropWhile isUnitLetter)

/-- The number with its unit that a whole text writes, perhaps after a minus sign. -/
def number? (cs : List Char) : Option Value :=
  let (negative, cs) := match cs with
    | '-' :: rest => (true, rest)
    | _ => (false, cs)
  match scanNumeral? cs with
  | none => none
  | some (whole, fraction, rest) =>
    match scanUnit rest with
    | (unit, []) =>
      some (.number (Number.ofDigits negative whole (fraction.getD [])) (unit.map String.ofList))
    | _ => none

def color? : List Char → Option Value
  | '#' :: digits => (Color.ofHexDigits? digits).map .color
  | _ => none

/-- The value that a stored text stands for: a number, a color, or else the text without the blanks
around it. -/
def ofString (s : String) : Value :=
  let cs := Text.trim s.toList
  (number? cs <|> color? cs).getD (.text (String.ofList cs))

end Value

end Stylesheet
