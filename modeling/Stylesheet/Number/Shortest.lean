import Stylesheet.Number.Dyadic

/-!
# The shortest decimal that identifies a number

Data shows a floating-point number with the fewest digits that read back as it, the nearest of
those; positionally from 0.0001 on and below 10 ^ 16, and with an exponent otherwise.
-/

namespace Stylesheet.Number

/-- The decimal `digits · 10 ^ exponent` as a quotient. -/
def decimalQuotient (digits : Nat) (exponent : Int) : Nat × Nat :=
  (digits * tenTo exponent.toNat, tenTo (-exponent).toNat)

/-- Whether the number nearest to a decimal is the one nearest to `num / den`. -/
def readsBack (num den digits : Nat) (exponent : Int) : Bool :=
  let (n, d) := decimalQuotient digits exponent
  nearestBits n d == nearestBits num den

def leadingExponent (num den : Nat) : Int :=
  if den ≤ num then (toString (num / den)).length - 1
  else match (List.range 400).find? fun shift => den ≤ num * tenTo shift with
    | some shift => -shift
    | none => 0

/-- The decimal with a last digit at `10 ^ exponent` that reads back as a quotient: of the
neighbours of the quotient the nearer one, the even one of two. -/
def gridDigits? (num den : Nat) (exponent : Int) : Option Nat :=
  let (n, d) := (num * tenTo (-exponent).toNat, den * tenTo exponent.toNat)
  let below := n / d
  let near := roundQuotient n d
  let far := if near = below then below + 1 else below
  if readsBack num den near exponent then some near
  else if readsBack num den far exponent then some far
  else none

/-- The shortest digits that read back as a positive quotient and the exponent of the last one. -/
def shortestDigits? (num den : Nat) : Option (Nat × Int) :=
  let leading := leadingExponent num den
  (List.range 17).findSome? fun (places : Nat) =>
    let exponent := leading - (places : Int)
    (gridDigits? num den exponent).map (·, exponent)

def layout (digits : Nat) (exponent : Int) : String :=
  let ds := (toString digits).toList
  let ds := ((ds.reverse.dropWhile (· == '0')).reverse, ds.length)
  let leading : Int := exponent + ds.2 - 1
  let text := ds.1
  if -4 ≤ leading ∧ leading < 16 then
    if leading < 0 then
      "0." ++ String.ofList (List.replicate (-leading - 1).toNat '0' ++ text)
    else
      let whole := leading.toNat + 1
      let fraction := text.drop whole
      String.ofList ((text.take whole) ++ List.replicate (whole - text.length) '0') ++ "." ++
        (if fraction.isEmpty then "0" else String.ofList fraction)
  else
    let mantissa := String.ofList (text.take 1) ++
      (if text.length = 1 then "" else "." ++ String.ofList (text.drop 1))
    let size := toString leading.natAbs
    mantissa ++ "e" ++ (if leading < 0 then "-" else "+") ++
      (if size.length = 1 then "0" else "") ++ size

def shown (x : Float) : String :=
  match Dyadic.ofFloat? x with
  | none => if x < 0 then "-inf" else if x > 0 then "inf" else "nan"
  | some d =>
    (if d.negative then "-" else "") ++
      if d.mantissa = 0 then "0.0"
      else match shortestDigits? d.quotient.1 d.quotient.2 with
        | some (digits, exponent) => layout digits exponent
        | none => d.quotient.1.repr

end Stylesheet.Number
