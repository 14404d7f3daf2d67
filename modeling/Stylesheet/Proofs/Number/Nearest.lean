import Mathlib
import Stylesheet.Proofs.Number.Bits

/-!
# Nearest numbers

A quotient is rounded to the nearest natural number, the even one of two, and read as the nearest
number that 64 bits can stand for. Among the numbers within range none is nearer to the quotient
than the one that is read.

* `abs_roundQuotient_sub_le`, `roundQuotient_eq` : quotients and natural numbers.
* `mantissaExponent_spec` : the exponent that is left for 53 digits.
* `exists_ofFloat?_nearest` : the number that is read.
-/

namespace Stylesheet.Number

/-! ## Rounding quotients -/

section Rounding

variable {num den : Nat}

/-- A rounded quotient is off by half at most. -/
theorem abs_roundQuotient_sub_le (num : Nat) (h : 0 < den) :
    |(roundQuotient num den : ℚ) - num / den| ≤ 1 / 2 := by
  have hden : (0 : ℚ) < den := Nat.cast_pos.mpr h
  have hle : (2 * (roundQuotient num den * den) : ℚ) ≤ 2 * num + den := by
    exact_mod_cast roundQuotient_le h
  have hge : (2 * num : ℚ) ≤ 2 * (roundQuotient num den * den) + den := by
    exact_mod_cast le_roundQuotient h
  have hquotient : (num : ℚ) / den * den = num := div_mul_cancel₀ _ hden.ne'
  rw [abs_le]
  constructor <;> nlinarith

/-- Just between two natural numbers, the even one is taken. -/
theorem even_roundQuotient (h : 0 < den)
    (htie : |(roundQuotient num den : ℚ) - num / den| = 1 / 2) : Even (roundQuotient num den) := by
  have hden : (0 : ℚ) < den := Nat.cast_pos.mpr h
  have hquotient : (num : ℚ) / den = (num / den : Nat) + (num % den : Nat) / den := by
    have hdivision : (den : ℚ) * (num / den : Nat) + (num % den : Nat) = num := by
      exact_mod_cast Nat.div_add_mod num den
    field_simp
    linarith
  -- a remainder of half the divisor is the only tie
  have hrest : ((num % den : Nat) : ℚ) / den = 1 / 2 → 2 * (num % den) = den := by
    intro hhalf
    have : (2 * (num % den : Nat) : ℚ) = den := by
      field_simp at hhalf
      linarith
    exact_mod_cast this
  unfold roundQuotient at htie ⊢
  dsimp only at htie ⊢
  rw [hquotient] at htie
  split at htie
  · next hdown =>
      rw [if_pos hdown, Nat.even_iff]
      have hfraction : (0 : ℚ) ≤ (num % den : Nat) / den := by positivity
      rw [sub_add_cancel_left, abs_neg, abs_of_nonneg hfraction] at htie
      have := hrest htie
      omega
  · next hup =>
      rw [if_neg hup, Nat.even_iff]
      have hfraction : ((num % den : Nat) : ℚ) / den < 1 := by
        rw [div_lt_one hden]
        exact_mod_cast Nat.mod_lt num h
      rw [Nat.cast_add, Nat.cast_one, add_sub_add_left_eq_sub, abs_of_pos (by linarith)] at htie
      have := hrest (by linarith)
      omega

/-- Two natural numbers cannot both be near to the same value. -/
theorem one_le_abs_sub_add_abs_sub {m n : Nat} (hne : m ≠ n) (x : ℚ) :
    1 ≤ |(m : ℚ) - x| + |(n : ℚ) - x| := by
  have hstep : (1 : ℚ) ≤ |(m : ℚ) - n| := by
    have : (1 : ℤ) ≤ |(m : ℤ) - n| := Int.one_le_abs (by omega)
    exact_mod_cast this
  calc (1 : ℚ) ≤ |(m : ℚ) - n| := hstep
    _ ≤ |(m : ℚ) - x| + |x - n| := abs_sub_le _ _ _
    _ = |(m : ℚ) - x| + |(n : ℚ) - x| := by rw [abs_sub_comm x]

/-- No natural number is nearer. -/
theorem abs_roundQuotient_sub_le_abs_sub (num : Nat) (h : 0 < den) (n : Nat) :
    |(roundQuotient num den : ℚ) - num / den| ≤ |(n : ℚ) - num / den| := by
  rcases eq_or_ne (roundQuotient num den) n with hn | hn
  · rw [hn]
  · have hhalf := abs_roundQuotient_sub_le num h
    have hone := one_le_abs_sub_add_abs_sub hn ((num : ℚ) / den)
    linarith

/-- A natural number at most half a unit away is the one that is taken, if it is the even one of
two. -/
theorem roundQuotient_eq (h : 0 < den) {n : Nat} (hle : |(n : ℚ) - num / den| ≤ 1 / 2)
    (heven : |(n : ℚ) - num / den| = 1 / 2 → Even n) : roundQuotient num den = n := by
  by_contra hne
  have hhalf := abs_roundQuotient_sub_le num h
  have hone := one_le_abs_sub_add_abs_sub hne ((num : ℚ) / den)
  -- both are half a unit away, so that they are even numbers next to each other
  have htie : |(roundQuotient num den : ℚ) - num / den| = 1 / 2 := by linarith
  obtain ⟨a, ha⟩ := even_roundQuotient h htie
  obtain ⟨b, hb⟩ := heven (by linarith)
  have hnext : |(roundQuotient num den : ℤ) - n| ≤ 1 := by
    have htriangle := abs_sub_le (roundQuotient num den : ℚ) (num / den) n
    rw [abs_sub_comm ((num : ℚ) / den) n] at htriangle
    have : |(roundQuotient num den : ℚ) - n| ≤ 1 := by linarith
    exact_mod_cast this
  rw [abs_le] at hnext
  omega

end Rounding

/-! ## Exact values -/

theorem cast_twoTo (n : Nat) : (twoTo n : ℚ) = 2 ^ n := by
  rw [twoTo]
  exact Nat.cast_pow 2 n

/-- A factor that is split between numerator and denominator. -/
theorem scaled_quotient (num den : Nat) (e : Int) :
    ((num * twoTo (-e).toNat : Nat) : ℚ) / (den * twoTo e.toNat : Nat) =
      (num : ℚ) / den / 2 ^ e := by
  rw [Nat.cast_mul, Nat.cast_mul, cast_twoTo, cast_twoTo, mul_div_mul_comm,
    div_eq_mul_inv _ (2 ^ e), ← zpow_natCast, ← zpow_natCast, ← zpow_sub₀ two_ne_zero, ← zpow_neg]
  congr 2
  omega

namespace Dyadic

/-- What 64 bits stand for is bounded in its mantissa and in its exponent. -/
structure Representable (d : Dyadic) : Prop where
  mantissa_lt : d.mantissa < twoTo 53
  le_exponent : -1074 ≤ d.exponent
  exponent_le : d.exponent ≤ 971

theorem representable_of_ofBits? {bits : UInt64} {d : Dyadic} (h : ofBits? bits = some d) :
    d.Representable := by
  have hpower : twoTo 53 = twoTo 52 + twoTo 52 := rfl
  have hfraction : bits.toNat % twoTo 52 < twoTo 52 := Nat.mod_lt _ (twoTo_pos 52)
  have hexponent : bits.toNat / twoTo 52 % twoTo 11 < 2048 := Nat.mod_lt _ (twoTo_pos 11)
  unfold ofBits? at h
  dsimp only at h
  split at h
  · cases h
  · next hfinite =>
      split at h
      · cases h
        exact ⟨by dsimp only; omega, le_rfl, by dsimp only; omega⟩
      · cases h
        exact ⟨by dsimp only; omega, by dsimp only; omega, by dsimp only; omega⟩

def magnitude (d : Dyadic) : ℚ :=
  d.mantissa * 2 ^ d.exponent

theorem magnitude_nonneg (d : Dyadic) : 0 ≤ d.magnitude := by
  unfold magnitude
  positivity

/-- The quotient of a dyadic number is its magnitude. -/
theorem quotient_eq_magnitude (d : Dyadic) : (d.quotient.1 : ℚ) / d.quotient.2 = d.magnitude := by
  have h := scaled_quotient d.mantissa 1 (-d.exponent)
  rw [neg_neg, one_mul, Nat.cast_one, div_one, zpow_neg, div_inv_eq_mul] at h
  exact h

theorem magnitude_eq_zero_iff {d : Dyadic} : d.magnitude = 0 ↔ d.mantissa = 0 := by
  rw [magnitude, mul_eq_zero, Nat.cast_eq_zero, or_iff_left (zpow_ne_zero _ two_ne_zero)]

end Dyadic

def greatest : Dyadic :=
  ⟨false, twoTo 53 - 1, 971⟩

/-! ## The exponent of a quotient -/

variable {num den : Nat}

theorem two_zpow_le_quotient (hnum : 0 < num) (hden : 0 < den) :
    (2 : ℚ) ^ ((num.log2 : Int) - den.log2 - 1) ≤ (num : ℚ) / den := by
  have hnumerator : (2 : ℚ) ^ num.log2 ≤ num := by
    exact_mod_cast Nat.log2_self_le hnum.ne'
  have hdenominator : (den : ℚ) ≤ 2 ^ (den.log2 + 1) := by
    exact_mod_cast Nat.lt_log2_self.le
  calc (2 : ℚ) ^ ((num.log2 : Int) - den.log2 - 1)
      = 2 ^ num.log2 / 2 ^ (den.log2 + 1) := by
        rw [← zpow_natCast, ← zpow_natCast, ← zpow_sub₀ two_ne_zero]
        congr 1
        omega
    _ ≤ (num : ℚ) / den := by gcongr

theorem quotient_lt_two_zpow (num : Nat) (hden : 0 < den) :
    (num : ℚ) / den < 2 ^ ((num.log2 : Int) - den.log2 + 1) := by
  have hnumerator : (num : ℚ) < 2 ^ (num.log2 + 1) := by
    exact_mod_cast Nat.lt_log2_self
  have hdenominator : (2 : ℚ) ^ den.log2 ≤ den := by
    exact_mod_cast Nat.log2_self_le hden.ne'
  calc (num : ℚ) / den < 2 ^ (num.log2 + 1) / 2 ^ den.log2 := by gcongr
    _ = 2 ^ ((num.log2 : Int) - den.log2 + 1) := by
        rw [← zpow_natCast, ← zpow_natCast, ← zpow_sub₀ two_ne_zero]
        congr 1
        omega

/-- The exponent leaves a mantissa of 53 digits, unless it is the least one. -/
theorem mantissaExponent_spec (hnum : 0 < num) (hden : 0 < den) :
    -1074 ≤ mantissaExponent num den ∧
    (num : ℚ) / den < 2 ^ (mantissaExponent num den + 53) ∧
    (mantissaExponent num den = -1074 ∨
      (2 : ℚ) ^ (mantissaExponent num den + 52) ≤ (num : ℚ) / den) := by
  have hlow := two_zpow_le_quotient hnum hden
  have hhigh := quotient_lt_two_zpow num hden
  unfold mantissaExponent
  dsimp only
  generalize hguess : (num.log2 : Int) - den.log2 - 52 = guess
  have hguess : (num.log2 : Int) - den.log2 = guess + 52 := by omega
  rw [hguess] at hlow hhigh
  have htest : num * twoTo (-guess).toNat < den * twoTo guess.toNat * twoTo 52 ↔
      (num : ℚ) / den < 2 ^ (guess + 52) := by
    have hpositive : (0 : ℚ) < (den * twoTo guess.toNat : Nat) :=
      Nat.cast_pos.mpr (Nat.mul_pos hden (twoTo_pos _))
    rw [zpow_add₀ two_ne_zero, ← div_lt_iff₀' (by positivity), ← scaled_quotient,
      div_lt_iff₀' hpositive, ← @Nat.cast_lt ℚ, Nat.cast_mul (den * _), cast_twoTo 52]
    rfl
  -- below the least exponent a mantissa has fewer digits
  have hleast : ∀ e : Int, (2 : ℚ) ^ (e + 52) ≤ (num : ℚ) / den → (num : ℚ) / den < 2 ^ (e + 53) →
      -1074 ≤ max e (-1074) ∧ (num : ℚ) / den < 2 ^ (max e (-1074) + 53) ∧
        (max e (-1074) = -1074 ∨ (2 : ℚ) ^ (max e (-1074) + 52) ≤ (num : ℚ) / den) := by
    intro e hle hlt
    rcases le_total (-1074) e with he | he
    · rw [max_eq_left he]
      exact ⟨he, hlt, .inr hle⟩
    · rw [max_eq_right he]
      refine ⟨le_rfl, hlt.trans_le ?_, .inl rfl⟩
      exact zpow_le_zpow_right₀ one_le_two (by omega)
  by_cases hsmall : (num : ℚ) / den < 2 ^ (guess + 52)
  · rw [if_pos (htest.mpr hsmall)]
    refine hleast (guess - 1) ?_ ?_
    · rwa [show guess - 1 + 52 = guess + 52 - 1 by omega]
    · rwa [show guess - 1 + 53 = guess + 52 by omega]
  · rw [if_neg (mt htest.mp hsmall)]
    refine hleast guess (not_lt.mp hsmall) ?_
    rwa [show guess + 53 = guess + 52 + 1 by omega]

/-! ## The nearest number -/

def nearestMantissa (num den : Nat) : Nat :=
  roundQuotient (num * twoTo (-mantissaExponent num den).toNat)
    (den * twoTo (mantissaExponent num den).toNat)

def nearestMagnitude (num den : Nat) : ℚ :=
  nearestMantissa num den * 2 ^ mantissaExponent num den

/-- No other mantissa at the same exponent is nearer. -/
theorem abs_nearestMantissa_sub_le (hden : 0 < den) (n : Nat) :
    |nearestMagnitude num den - num / den| ≤
      |n * 2 ^ mantissaExponent num den - (num : ℚ) / den| := by
  have hscale : (0 : ℚ) < 2 ^ mantissaExponent num den := by positivity
  have hscaled : ∀ m : ℚ, |m - num / den / 2 ^ mantissaExponent num den| *
      2 ^ mantissaExponent num den = |m * 2 ^ mantissaExponent num den - num / den| := by
    intro m
    rw [← abs_of_pos hscale, ← abs_mul, abs_of_pos hscale, sub_mul, div_mul_cancel₀ _ hscale.ne']
  have h := abs_roundQuotient_sub_le_abs_sub (num * twoTo (-mantissaExponent num den).toNat)
    (Nat.mul_pos hden (twoTo_pos (mantissaExponent num den).toNat)) n
  rw [scaled_quotient] at h
  have := mul_le_mul_of_nonneg_right h hscale.le
  rwa [hscaled, hscaled] at this

/-- No number that 64 bits can stand for is nearer to the quotient. -/
theorem abs_nearestMagnitude_sub_le (hnum : 0 < num) (hden : 0 < den) {d : Dyadic}
    (hd : d.Representable) :
    |nearestMagnitude num den - num / den| ≤ |d.magnitude - num / den| := by
  obtain ⟨-, -, hleast⟩ := mantissaExponent_spec hnum hden
  rcases le_or_gt (mantissaExponent num den) d.exponent with hle | hlt
  · -- the number is a multiple of what the last digit of the mantissa is worth
    have hmultiple : d.magnitude =
        (d.mantissa * 2 ^ (d.exponent - mantissaExponent num den).toNat : Nat) *
          2 ^ mantissaExponent num den := by
      rw [Dyadic.magnitude, Nat.cast_mul, Nat.cast_pow, Nat.cast_ofNat, ← zpow_natCast, mul_assoc,
        ← zpow_add₀ two_ne_zero]
      congr 2
      omega
    rw [hmultiple]
    exact abs_nearestMantissa_sub_le hden _
  · -- the number is less than what the first digit of the mantissa is worth
    have hfirst := hleast.resolve_left fun heq => by
      have := hd.le_exponent
      omega
    have hbelow : d.magnitude ≤ 2 ^ (mantissaExponent num den + 52) := by
      have hmantissa : (d.mantissa : ℚ) ≤ 2 ^ (53 : Int) := by
        have := hd.mantissa_lt.le
        rw [← @Nat.cast_le ℚ, cast_twoTo] at this
        exact_mod_cast this
      calc d.magnitude ≤ 2 ^ (53 : Int) * 2 ^ d.exponent := by
            unfold Dyadic.magnitude
            gcongr
        _ = 2 ^ (d.exponent + 53) := by rw [← zpow_add₀ two_ne_zero, add_comm]
        _ ≤ 2 ^ (mantissaExponent num den + 52) := zpow_le_zpow_right₀ one_le_two (by omega)
    have hpower : ((2 ^ 52 : Nat) : ℚ) * 2 ^ mantissaExponent num den =
        2 ^ (mantissaExponent num den + 52) := by
      rw [zpow_add₀ two_ne_zero, mul_comm]
      norm_num
    calc |nearestMagnitude num den - num / den|
        ≤ |((2 ^ 52 : Nat) : ℚ) * 2 ^ mantissaExponent num den - num / den| :=
          abs_nearestMantissa_sub_le hden _
      _ = num / den - 2 ^ (mantissaExponent num den + 52) := by
          rw [hpower, abs_sub_comm, abs_of_nonneg (sub_nonneg.mpr hfirst)]
      _ ≤ num / den - d.magnitude := by linarith
      _ ≤ |d.magnitude - num / den| := by
          rw [abs_sub_comm]
          exact le_abs_self _

/-! ## The number that is read -/

theorem nearestMantissa_le (hden : 0 < den) {n : Nat}
    (h : (num : ℚ) / den ≤ n * 2 ^ mantissaExponent num den) : nearestMantissa num den ≤ n := by
  have hscale : (0 : ℚ) < 2 ^ mantissaExponent num den := by positivity
  have hnear : |nearestMagnitude num den - num / den| ≤ _ := abs_nearestMantissa_sub_le hden n
  rw [abs_of_nonneg (sub_nonneg.mpr h)] at hnear
  have hle : nearestMagnitude num den ≤ n * 2 ^ mantissaExponent num den := by
    have := (abs_le.mp hnear).2
    linarith
  exact Nat.cast_le.mp ((mul_le_mul_iff_left₀ hscale).mp hle)

theorem le_nearestMantissa (hden : 0 < den) {n : Nat}
    (h : n * 2 ^ mantissaExponent num den ≤ (num : ℚ) / den) : n ≤ nearestMantissa num den := by
  have hscale : (0 : ℚ) < 2 ^ mantissaExponent num den := by positivity
  have hnear : |nearestMagnitude num den - num / den| ≤ _ := abs_nearestMantissa_sub_le hden n
  rw [abs_of_nonpos (sub_nonpos.mpr h)] at hnear
  have hle : n * 2 ^ mantissaExponent num den ≤ nearestMagnitude num den := by
    have := (abs_le.mp hnear).1
    linarith
  exact Nat.cast_le.mp ((mul_le_mul_iff_left₀ hscale).mp hle)

theorem greatest_representable : greatest.Representable :=
  ⟨by decide, by decide, le_rfl⟩

/-- What is nearest to a quotient in range is in range. -/
theorem nearestMagnitude_lt (hnum : 0 < num) (hden : 0 < den)
    (hmax : (num : ℚ) / den ≤ greatest.magnitude) :
    nearestMagnitude num den < 2 ^ (1024 : Int) := by
  have hnear := abs_nearestMagnitude_sub_le hnum hden greatest_representable
  rw [abs_of_nonneg (sub_nonneg.mpr hmax)] at hnear
  have hle := (abs_le.mp hnear).2
  have hgreatest : greatest.magnitude < 2 ^ (1024 : Int) := by
    have hmantissa : (greatest.mantissa : ℚ) < 2 ^ (53 : Int) := by
      rw [greatest, Nat.cast_sub (twoTo_pos 53), cast_twoTo]
      norm_num
    calc greatest.magnitude < 2 ^ (53 : Int) * 2 ^ (971 : Int) :=
          mul_lt_mul_of_pos_right hmantissa (by positivity)
      _ = 2 ^ (1024 : Int) := by rw [← zpow_add₀ two_ne_zero]; rfl
  linarith

/-- The nearest float has the mantissa and exponent that its bits tell. -/
theorem ofFloat?_nearest_of_bits (negative : Bool) {exponent fraction : Nat}
    (hbits : nearestBits num den = exponent * twoTo 52 + fraction) (he : exponent < 2047)
    (hf : fraction < twoTo 52) :
    Dyadic.ofFloat? (nearest negative num den) =
      some (if exponent = 0 then ⟨negative, fraction, -1074⟩
        else ⟨negative, fraction + twoTo 52, (exponent : Int) - 1075⟩) := by
  have hread := Dyadic.ofBits?_ofNat negative he hf
  unfold Dyadic.ofFloat? nearest
  rw [hbits, toBits_ofBits (by rw [hread]; exact Option.some_ne_none _), hread]

/-! ### Which mantissas come about -/

theorem twoTo_mul_zpow (n : Nat) (exponent : Int) :
    (twoTo n : ℚ) * 2 ^ exponent = 2 ^ (exponent + n) := by
  rw [cast_twoTo, ← zpow_natCast, ← zpow_add₀ two_ne_zero, add_comm]

/-- Rounding goes up to the next power at most. -/
theorem nearestMantissa_le_twoTo (hnum : 0 < num) (hden : 0 < den) :
    nearestMantissa num den ≤ twoTo 53 := by
  obtain ⟨-, hlt, -⟩ := mantissaExponent_spec hnum hden
  refine nearestMantissa_le hden ?_
  rw [twoTo_mul_zpow]
  exact hlt.le

/-- Only a mantissa with the least exponent has less than 53 digits. -/
theorem mantissaExponent_of_lt (hnum : 0 < num) (hden : 0 < den)
    (h : nearestMantissa num den < twoTo 52) : mantissaExponent num den = -1074 := by
  obtain ⟨-, -, hleast⟩ := mantissaExponent_spec hnum hden
  by_contra hne
  refine absurd (le_nearestMantissa hden ?_) (not_le.mpr h)
  rw [twoTo_mul_zpow]
  exact hleast.resolve_left hne

/-- The exponent of a quotient in range is in range. -/
theorem mantissaExponent_add_lt (hnum : 0 < num) (hden : 0 < den)
    (hmax : (num : ℚ) / den ≤ greatest.magnitude) {n : Nat}
    (h : twoTo n ≤ nearestMantissa num den) : mantissaExponent num den + n < 1024 := by
  have hfirst : (2 : ℚ) ^ (mantissaExponent num den + n) ≤ nearestMagnitude num den := by
    rw [← twoTo_mul_zpow]
    unfold nearestMagnitude
    gcongr
  exact (zpow_lt_zpow_iff_right₀ one_lt_two).mp
    (hfirst.trans_lt (nearestMagnitude_lt hnum hden hmax))

/-- The fields of a finite number are below the bits of the infinite one. -/
theorem min_fields {exponent fraction : Nat} (he : exponent < 2047) (hf : fraction < twoTo 52) :
    min (exponent * twoTo 52 + fraction) (2047 * twoTo 52) = exponent * twoTo 52 + fraction := by
  have hnext := Nat.mul_le_mul_right (twoTo 52) (Nat.succ_le_of_lt he)
  rw [Nat.succ_mul] at hnext
  exact min_eq_left (by omega)

/-- The nearest number has the sign that is asked for and the magnitude of the rounded mantissa. -/
theorem exists_ofFloat?_nearest (negative : Bool) (hnum : 0 < num) (hden : 0 < den)
    (hmax : (num : ℚ) / den ≤ greatest.magnitude) :
    ∃ d, Dyadic.ofFloat? (nearest negative num den) = some d ∧ d.negative = negative ∧
      d.magnitude = nearestMagnitude num den := by
  have hle := (mantissaExponent_spec hnum hden).1
  have hmantissa := nearestMantissa_le_twoTo hnum hden
  have hleast := mantissaExponent_of_lt hnum hden
  have hexponent {n : Nat} := mantissaExponent_add_lt (n := n) hnum hden hmax
  have hbits : nearestBits num den = min (if nearestMantissa num den < twoTo 52
      then nearestMantissa num den
      else (mantissaExponent num den + 1075).toNat * twoTo 52 +
        (nearestMantissa num den - twoTo 52)) (2047 * twoTo 52) := rfl
  -- from here on only what was said of the mantissa and the exponent counts
  unfold nearestMagnitude
  generalize nearestMantissa num den = mantissa at *
  generalize mantissaExponent num den = exponent at *
  have h53 : twoTo 53 = twoTo 52 + twoTo 52 := rfl
  rcases lt_or_ge mantissa (twoTo 52) with hsmall | hlarge
  · -- a mantissa with less than 53 digits stands as it is
    have hfields : nearestBits num den = 0 * twoTo 52 + mantissa := by
      rw [hbits, if_pos hsmall, ← min_fields (by decide) hsmall, Nat.zero_mul, Nat.zero_add]
    refine ⟨_, ofFloat?_nearest_of_bits negative hfields (by decide) hsmall, rfl, ?_⟩
    rw [hleast hsmall]
    rfl
  rw [if_neg (not_lt.mpr hlarge)] at hbits
  have hbound := hexponent hlarge
  rcases lt_or_eq_of_le hmantissa with hshort | rfl
  · -- a mantissa with 53 digits stands without the first one
    have hfraction : mantissa - twoTo 52 < twoTo 52 := by omega
    rw [min_fields (by omega) hfraction] at hbits
    refine ⟨_, ofFloat?_nearest_of_bits negative hbits (by omega) hfraction, ?_, ?_⟩
    · rw [if_neg (by omega)]
    · rw [if_neg (by omega), Dyadic.magnitude]
      dsimp only
      rw [Nat.sub_add_cancel hlarge, Int.toNat_of_nonneg (by omega), add_sub_cancel_right]
  · -- a mantissa that has been rounded up to a power makes the exponent greater
    have hbound := hexponent (le_refl (twoTo 53))
    have hcarry : (exponent + 1075).toNat * twoTo 52 + (twoTo 53 - twoTo 52) =
        ((exponent + 1075).toNat + 1) * twoTo 52 + 0 := by
      rw [h53, Nat.add_sub_cancel, Nat.succ_mul, Nat.add_zero]
    have hfields : nearestBits num den = ((exponent + 1075).toNat + 1) * twoTo 52 + 0 := by
      rw [hbits, hcarry, min_fields (by omega) (twoTo_pos 52)]
    refine ⟨_, ofFloat?_nearest_of_bits negative hfields (by omega) (twoTo_pos 52), ?_, ?_⟩
    · rw [if_neg (by omega)]
    · rw [if_neg (by omega), Dyadic.magnitude]
      dsimp only
      have hshift : (((exponent + 1075).toNat + 1 : Nat) : Int) - 1075 = exponent + 1 := by omega
      rw [hshift, Nat.zero_add, h53, Nat.cast_add, zpow_add_one₀ two_ne_zero]
      ring

/-! ### The result -/

/-- Zero is read as zero. -/
theorem exists_ofFloat?_nearest_zero (negative : Bool) (hden : 0 < den) :
    ∃ d, Dyadic.ofFloat? (nearest negative 0 den) = some d ∧ d.negative = negative ∧
      d.magnitude = 0 := by
  have hround : ∀ n, roundQuotient 0 (den * twoTo n) = 0 := by
    intro n
    rw [roundQuotient_of_dvd (Nat.mul_pos hden (twoTo_pos n)) (dvd_zero _), Nat.zero_div]
  have hbits : nearestBits 0 den = 0 * twoTo 52 + 0 := by
    have h52 : 0 < twoTo 52 := twoTo_pos 52
    unfold nearestBits
    dsimp only
    rw [Nat.zero_mul, hround, if_pos h52]
    rfl
  refine ⟨_, ofFloat?_nearest_of_bits negative hbits (by decide) (twoTo_pos 52), rfl, ?_⟩
  rw [if_pos rfl, Dyadic.magnitude_eq_zero_iff]

/-- **The nearest number is read.** It has the sign that is asked for, and no number of the range is
nearer to the quotient. -/
theorem exists_nearest (negative : Bool) (hden : 0 < den)
    (hmax : (num : ℚ) / den ≤ greatest.magnitude) :
    ∃ d, Dyadic.ofFloat? (nearest negative num den) = some d ∧ d.negative = negative ∧
      ∀ other : Dyadic, other.Representable →
        |d.magnitude - num / den| ≤ |other.magnitude - num / den| := by
  rcases Nat.eq_zero_or_pos num with rfl | hnum
  · obtain ⟨d, hd, hnegative, hmagnitude⟩ := exists_ofFloat?_nearest_zero negative hden
    refine ⟨d, hd, hnegative, fun other _ => ?_⟩
    rw [hmagnitude, Nat.cast_zero, zero_div, sub_zero, abs_zero]
    exact abs_nonneg _
  · obtain ⟨d, hd, hnegative, hmagnitude⟩ := exists_ofFloat?_nearest negative hnum hden hmax
    refine ⟨d, hd, hnegative, fun other hother => ?_⟩
    rw [hmagnitude]
    exact abs_nearestMagnitude_sub_le hnum hden hother

end Stylesheet.Number
