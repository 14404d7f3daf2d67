import Stylesheet.Number.Dyadic

/-!
# Remainders of floating-point numbers

The remainder of a division has the sign of the divisor. It is taken from the exact remainder of the
absolute values, which can always be represented.
-/

namespace Stylesheet.Number

/-- The remainder of the absolute values, with the sign of the first number. -/
def Dyadic.truncatedRemainder (x y : Dyadic) : Dyadic :=
  let exponent := min x.exponent y.exponent
  let scaled (d : Dyadic) : Nat := d.mantissa * twoTo (d.exponent - exponent).toNat
  ⟨x.negative, scaled x % scaled y, exponent⟩

/-- A remainder with the sign of `x`, moved to the sign of the divisor `y`. -/
def withDivisorSign (remainder y : Float) : Float :=
  if remainder == 0 then (if y < 0 then -0.0 else 0.0)
  else if (remainder < 0) == (y < 0) then remainder
  else remainder + y

/-- The remainder of `x` divided by `y`, with the sign of `y`. An infinite `y` leaves a finite `x`
as it is; an infinite `x` has no remainder. -/
def remainder (x y : Float) : Float :=
  match Dyadic.ofFloat? x, Dyadic.ofFloat? y with
  | some dx, some dy => withDivisorSign (dx.truncatedRemainder dy).toFloat y
  | some _, none => withDivisorSign x y
  | none, _ => 0.0 / 0.0

end Stylesheet.Number
