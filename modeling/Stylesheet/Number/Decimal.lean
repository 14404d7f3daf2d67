import Stylesheet.Number.Dyadic
import Stylesheet.Text.Digit

/-!
# Numbers in decimal notation

A number is read from a row of digits with or without a point and becomes the nearest one that can
be represented. It is written with at most five places after the point, rounded from its exact
value, and without zeros at the end; a whole number is written with all its digits and no point.
-/

namespace Stylesheet.Number

def ofDigits (negative : Bool) (whole fraction : List Char) : Float :=
  nearest negative (Text.digitsValue (whole ++ fraction)) (tenTo fraction.length)

def places : Nat := 5

/-- A number below `10 ^ places` as the digits after a point, without the zeros at the end. -/
def fractionDigits (n : Nat) : List Char :=
  ((((toString n).toList.leftpad places '0').reverse).dropWhile (· == '0')).reverse

/-- The written form of an exact value. -/
def Dyadic.display (d : Dyadic) : String :=
  let (num, den) := d.quotient
  if d.isWhole then
    (if d.negative && num != 0 then "-" else "") ++ toString (num / den)
  else
    let scaled := roundQuotient (num * tenTo places) den
    let fraction := fractionDigits (scaled % tenTo places)
    (if d.negative then "-" else "") ++ toString (scaled / tenTo places) ++
      (if fraction.isEmpty then "" else "." ++ String.ofList fraction)

def display? (x : Float) : Option String :=
  (Dyadic.ofFloat? x).map Dyadic.display

end Stylesheet.Number
