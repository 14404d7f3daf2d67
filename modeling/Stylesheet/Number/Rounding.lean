/-!
# Rounding quotients

A quotient of natural numbers is rounded to the nearest natural number, and a quotient just between
two goes to the even one.

* `roundQuotient_le`, `le_roundQuotient` : the result is at most half a unit away.
* `roundQuotient_of_dvd` : a quotient without remainder is kept.
-/

namespace Stylesheet.Number

/-- The natural number nearest to `num / den`, the even one of two. -/
def roundQuotient (num den : Nat) : Nat :=
  let below := num / den
  let rest := 2 * (num % den)
  if rest < den ∨ (rest = den ∧ below % 2 = 0) then below else below + 1

/-- The rounded quotient is above the exact one by half at most. -/
theorem roundQuotient_le {num den : Nat} (h : 0 < den) :
    2 * (roundQuotient num den * den) ≤ 2 * num + den := by
  have hd := Nat.div_add_mod num den
  have hm := Nat.mod_lt num h
  unfold roundQuotient
  simp only
  split
  · rw [Nat.mul_comm (num / den)]; omega
  · rw [Nat.add_mul, Nat.mul_comm (num / den)]; omega

/-- The rounded quotient is below the exact one by half at most. -/
theorem le_roundQuotient {num den : Nat} (h : 0 < den) :
    2 * num ≤ 2 * (roundQuotient num den * den) + den := by
  have hd := Nat.div_add_mod num den
  have hm := Nat.mod_lt num h
  unfold roundQuotient
  simp only
  split
  · next hr => rw [Nat.mul_comm (num / den)]; omega
  · rw [Nat.add_mul, Nat.mul_comm (num / den)]; omega

/-- A quotient without remainder is not rounded. -/
theorem roundQuotient_of_dvd {num den : Nat} (hd : 0 < den) (h : den ∣ num) :
    roundQuotient num den = num / den := by
  simp [roundQuotient, Nat.mod_eq_zero_of_dvd h, hd]

end Stylesheet.Number
