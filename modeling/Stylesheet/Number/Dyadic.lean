import Stylesheet.Number.Power
import Stylesheet.Number.Rounding

/-!
# Exact values of floating-point numbers

A finite double-precision number is a natural number times a power of two, with a sign. Reading,
writing, rounding and taking remainders of numbers all go through this exact value, so that they
are arithmetic on natural numbers.
-/

namespace Stylesheet.Number

/-- The number `± mantissa · 2 ^ exponent`. -/
structure Dyadic where
  negative : Bool
  mantissa : Nat
  exponent : Int
  deriving DecidableEq, Repr

namespace Dyadic

/-- The number that 64 bits stand for; `none` for the infinities and for what is no number. -/
def ofBits? (bits : UInt64) : Option Dyadic :=
  let n := bits.toNat
  let negative := n / twoTo 63 == 1
  let exponent : Nat := n / twoTo 52 % twoTo 11
  let fraction := n % twoTo 52
  if exponent = 2047 then none
  else if exponent = 0 then some ⟨negative, fraction, -1074⟩
  else some ⟨negative, fraction + twoTo 52, (exponent : Int) - 1075⟩

def ofFloat? (x : Float) : Option Dyadic :=
  ofBits? x.toBits

def quotient (d : Dyadic) : Nat × Nat :=
  (d.mantissa * twoTo d.exponent.toNat, twoTo (-d.exponent).toNat)

def isWhole (d : Dyadic) : Bool :=
  d.quotient.1 % d.quotient.2 == 0

/-- The quotient of a dyadic number has a positive denominator. -/
theorem quotient_den_pos (d : Dyadic) : 0 < d.quotient.2 :=
  twoTo_pos _

end Dyadic

/-- The exponent for which the quotient of two numbers, divided by two to that power, has the 53
binary digits of a mantissa; not below that of the smallest numbers. -/
def mantissaExponent (num den : Nat) : Int :=
  let guess : Int := num.log2 - den.log2 - 52
  let (n, d) := (num * twoTo (-guess).toNat, den * twoTo guess.toNat)
  max (if n < d * twoTo 52 then guess - 1 else guess) (-1074)

/-- The bits of the nonnegative number nearest to a quotient, the even one of two; those of
infinity if the quotient is too large. -/
def nearestBits (num den : Nat) : Nat :=
  let exponent := mantissaExponent num den
  let mantissa :=
    roundQuotient (num * twoTo (-exponent).toNat) (den * twoTo exponent.toNat)
  let bits :=
    if mantissa < twoTo 52 then mantissa
    else (exponent + 1075).toNat * twoTo 52 + (mantissa - twoTo 52)
  min bits (2047 * twoTo 52)

/-- The number nearest to the quotient `num / den` with the given sign, for a positive `den`. -/
def nearest (negative : Bool) (num den : Nat) : Float :=
  Float.ofBits (UInt64.ofNat ((if negative then twoTo 63 else 0) + nearestBits num den))

/-- The number nearest to an exact value; for the values of `Dyadic.ofFloat?` that number. -/
def Dyadic.toFloat (d : Dyadic) : Float :=
  nearest d.negative d.quotient.1 d.quotient.2

end Stylesheet.Number
