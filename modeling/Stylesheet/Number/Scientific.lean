import Stylesheet.Number.Shortest

/-!
# Numbers with an exponent

Digits with the power of ten of the last one are read as the nearest number. Where the power alone
decides, nothing is computed with it.
-/

namespace Stylesheet.Number

/-- The number nearest to `± digits · 10 ^ exponent`. Nothing from 10 ^ 309 on is finite, and nothing
below 10 ^ -324 differs from zero. -/
def scientific (negative : Bool) (digits : Nat) (exponent : Int) : Float :=
  let size : Int := (toString digits).length + exponent
  if digits = 0 ∨ size < -324 then nearest negative 0 1
  else if 310 < size then nearest negative (tenTo 310) 1
  else
    let (num, den) := decimalQuotient digits exponent
    nearest negative num den

end Stylesheet.Number
