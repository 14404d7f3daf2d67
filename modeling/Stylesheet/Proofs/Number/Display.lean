import Mathlib
import Stylesheet.Number.Decimal
import Stylesheet.Proofs.Number.Nearest
import Stylesheet.Proofs.Text.Digit

/-!
# Numbers that are written and read back

A number is written with its sign and with its value rounded to five places. What is read back is
the number nearest to that decimal fraction. It need not be the number that was written, but it lies
no farther from the fraction, and so it is rounded to the same one.

* `Dyadic.toList_display` : what is written, the same for whole numbers and others.
* `Dyadic.rounded_eq_of_near` : numbers near to a decimal fraction are rounded to it.
* `Dyadic.exists_read` : what is read back.
-/

namespace Stylesheet.Number

/-! ## Decimal fractions -/

def wholeDigits (n : Nat) : List Char :=
  Nat.toDigits 10 (n / tenTo places)

/-- The digits after the point, without the zeros at the end. -/
def placeDigits (n : Nat) : List Char :=
  fractionDigits (n % tenTo places)

/-- The decimal notation of a number of units of the last place. -/
def decimal (n : Nat) : List Char :=
  wholeDigits n ++ if (placeDigits n).isEmpty then [] else '.' :: placeDigits n

theorem cast_tenTo (n : Nat) : (tenTo n : ℚ) = 10 ^ n := by
  rw [tenTo]
  exact Nat.cast_pow 10 n

theorem isDigit_of_mem_wholeDigits {n : Nat} {c : Char} (h : c ∈ wholeDigits n) :
    c.isDigit = true :=
  Nat.isDigit_of_mem_toDigits (by decide) (by decide) h

/-- The zeros that are left out after the point. -/
theorem exists_zeros (n : Nat) :
    ∃ zeros, (Nat.toDigits 10 n).leftpad places '0' =
      fractionDigits n ++ List.replicate zeros '0' := by
  have hdigits : (toString n).toList = Nat.toDigits 10 n := by
    rw [Nat.toString_eq_ofList_toDigits, String.toList_ofList]
  unfold fractionDigits
  rw [hdigits]
  generalize (Nat.toDigits 10 n).leftpad places '0' = digits
  refine ⟨(digits.reverse.takeWhile (· == '0')).length, ?_⟩
  have hzeros : digits.reverse.takeWhile (· == '0') =
      List.replicate (digits.reverse.takeWhile (· == '0')).length '0' :=
    List.eq_replicate_of_mem fun c hc => by simpa using List.mem_takeWhile_imp hc
  rw [← List.reverse_replicate, ← hzeros, ← List.reverse_append, List.takeWhile_append_dropWhile,
    List.reverse_reverse]

theorem isDigit_of_mem_placeDigits {n : Nat} {c : Char} (h : c ∈ placeDigits n) :
    c.isDigit = true := by
  obtain ⟨zeros, hzeros⟩ := exists_zeros (n % tenTo places)
  have hmem : c ∈ (Nat.toDigits 10 (n % tenTo places)).leftpad places '0' := by
    rw [hzeros]
    exact List.mem_append_left _ h
  rcases List.mem_append.mp hmem with hmem | hmem
  · rw [List.eq_of_mem_replicate hmem]
    rfl
  · exact Nat.isDigit_of_mem_toDigits (by decide) (by decide) hmem

theorem ofDigitChars_leftpad (n : Nat) :
    Nat.ofDigitChars 10 ((Nat.toDigits 10 n).leftpad places '0') 0 = n := by
  rw [List.leftpad, Nat.ofDigitChars_append, Nat.ofDigitChars_replicate_zero, Nat.mul_zero,
    Nat.ofDigitChars_ten_toDigits]

theorem length_leftpad_toDigits {n : Nat} (h : n < tenTo places) :
    ((Nat.toDigits 10 n).leftpad places '0').length = places := by
  rw [List.length_leftpad]
  exact max_eq_left ((Nat.length_toDigits_le_iff (by decide) (by decide)).mpr h)

theorem tenTo_eq (n : Nat) : tenTo n = 10 ^ n := rfl

/-- With the zeros that are left out, the digits write the number of units. -/
theorem exists_tenTo_mul_digitsValue (n : Nat) :
    ∃ zeros, (placeDigits n).length + zeros = places ∧
      tenTo zeros * Text.digitsValue (wholeDigits n ++ placeDigits n) = n := by
  have hrest : n % tenTo places < tenTo places := Nat.mod_lt _ (tenTo_pos places)
  obtain ⟨zeros, hzeros⟩ := exists_zeros (n % tenTo places)
  rw [← placeDigits] at hzeros
  have hlength := length_leftpad_toDigits hrest
  have hdigits : ∀ c ∈ wholeDigits n ++ placeDigits n, c.isDigit = true :=
    List.forall_mem_append.mpr
      ⟨fun _ => isDigit_of_mem_wholeDigits, fun _ => isDigit_of_mem_placeDigits⟩
  refine ⟨zeros, ?_, ?_⟩
  · rw [← hlength, hzeros, List.length_append, List.length_replicate]
  · calc tenTo zeros * Text.digitsValue (wholeDigits n ++ placeDigits n)
        = Nat.ofDigitChars 10 (wholeDigits n ++ placeDigits n ++ List.replicate zeros '0') 0 := by
          rw [Text.digitsValue_eq hdigits, Nat.ofDigitChars_append 0 (m := List.replicate zeros '0'),
            Nat.ofDigitChars_replicate_zero, tenTo_eq]
      _ = Nat.ofDigitChars 10
            (wholeDigits n ++ (Nat.toDigits 10 (n % tenTo places)).leftpad places '0') 0 := by
          rw [hzeros, List.append_assoc]
      _ = tenTo places * (n / tenTo places) + n % tenTo places := by
          rw [Nat.ofDigitChars_append, Nat.ofDigitChars_eq_ofDigitChars_zero, wholeDigits,
            Nat.ofDigitChars_ten_toDigits, ofDigitChars_leftpad, hlength, ← tenTo_eq]
      _ = n := Nat.div_add_mod n _

/-- The digits before and after the point write the decimal fraction. -/
theorem digitsValue_decimal (n : Nat) :
    (Text.digitsValue (wholeDigits n ++ placeDigits n) : ℚ) / tenTo (placeDigits n).length =
      n / tenTo places := by
  obtain ⟨zeros, hlength, hvalue⟩ := exists_tenTo_mul_digitsValue n
  have hpower : (tenTo places : ℚ) = tenTo (placeDigits n).length * tenTo zeros := by
    rw [cast_tenTo, cast_tenTo, cast_tenTo, ← pow_add, hlength]
  have hten : ∀ k, (tenTo k : ℚ) ≠ 0 := fun k => Nat.cast_ne_zero.mpr (tenTo_pos k).ne'
  rw [div_eq_div_iff (hten _) (hten _), hpower]
  calc (Text.digitsValue (wholeDigits n ++ placeDigits n) : ℚ) *
        (tenTo (placeDigits n).length * tenTo zeros)
      = (tenTo zeros * Text.digitsValue (wholeDigits n ++ placeDigits n) : Nat) *
          tenTo (placeDigits n).length := by
        push_cast
        ring
    _ = n * tenTo (placeDigits n).length := by rw [hvalue]

/-! ## Rounded values -/

namespace Dyadic

variable {d x y : Dyadic}

def rounded (d : Dyadic) : Nat :=
  roundQuotient (d.quotient.1 * tenTo places) d.quotient.2

theorem quotient_num_ne_zero (d : Dyadic) : (d.quotient.1 != 0) = (d.mantissa != 0) := by
  have h : d.quotient.1 = 0 ↔ d.mantissa = 0 := by
    rw [quotient, Nat.mul_eq_zero, or_iff_left (twoTo_pos _).ne']
  rw [Bool.eq_iff_iff, bne_iff_ne, bne_iff_ne, Ne, h]

/-- A number is whole exactly when its denominator divides its numerator. -/
theorem isWhole_iff_dvd : d.isWhole = true ↔ d.quotient.2 ∣ d.quotient.1 := by
  rw [isWhole, beq_iff_eq, Nat.dvd_iff_mod_eq_zero]

/-- A whole number is not rounded. -/
theorem rounded_of_isWhole (h : d.isWhole = true) :
    d.rounded = d.quotient.1 / d.quotient.2 * tenTo places := by
  have hdvd := isWhole_iff_dvd.mp h
  rw [rounded, roundQuotient_of_dvd d.quotient_den_pos (hdvd.mul_right _),
    Nat.div_mul_right_comm hdvd]

theorem decimal_mul_tenTo (n : Nat) : decimal (n * tenTo places) = Nat.toDigits 10 n := by
  have hplaces : placeDigits (n * tenTo places) = [] := by
    rw [placeDigits, Nat.mul_mod_left]
    decide
  rw [decimal, hplaces, wholeDigits, Nat.mul_div_cancel n (tenTo_pos places)]
  exact List.append_nil _

/-- Whole numbers and others are written in the same way, as their value rounded to units of the
last place. Zero has no sign. -/
theorem toList_display (d : Dyadic) :
    d.display.toList =
      (if d.negative && d.mantissa != 0 then ['-'] else []) ++ decimal d.rounded := by
  have hdigits : ∀ n : Nat, (toString n).toList = Nat.toDigits 10 n := by
    intro n
    rw [Nat.toString_eq_ofList_toDigits, String.toList_ofList]
  have hsign : ∀ b : Bool, (if b then "-" else "").toList = if b then ['-'] else [] := by
    decide
  have hpoint : ∀ digits : List Char,
      (if digits.isEmpty then "" else "." ++ String.ofList digits).toList =
        if digits.isEmpty then [] else '.' :: digits := by
    intro digits
    split
    · rfl
    · rw [String.toList_append, String.toList_ofList, String.toList_ofList, List.singleton_append]
  unfold display
  dsimp only
  split
  · next hwhole =>
      rw [String.toList_append, hdigits, hsign, quotient_num_ne_zero, rounded_of_isWhole hwhole,
        decimal_mul_tenTo]
  · next hbroken =>
      -- a number with places after the point is not zero
      have hne : (d.mantissa != 0) = true := by
        rw [bne_iff_ne]
        intro hzero
        refine hbroken (isWhole_iff_dvd.mpr ?_)
        rw [quotient, hzero, Nat.zero_mul]
        exact dvd_zero _
      rw [String.toList_append, String.toList_append, hdigits, hsign, hpoint, hne, Bool.and_true,
        List.append_assoc, decimal, wholeDigits, placeDigits, rounded]

theorem scaled_quotient_eq (d : Dyadic) :
    ((d.quotient.1 * tenTo places : Nat) : ℚ) / d.quotient.2 = d.magnitude * tenTo places := by
  rw [Nat.cast_mul, mul_div_right_comm, quotient_eq_magnitude]

/-- Rounding moves a number by half of the last place at most. -/
theorem abs_rounded_sub_le (d : Dyadic) :
    |(d.rounded : ℚ) - d.magnitude * tenTo places| ≤ 1 / 2 := by
  rw [← scaled_quotient_eq]
  exact abs_roundQuotient_sub_le _ d.quotient_den_pos

/-- A number that lies no farther from the decimal fraction which another is rounded to than that
number itself is rounded to the same one. -/
theorem rounded_eq_of_near
    (h : |y.magnitude - x.rounded / tenTo places| ≤ |x.magnitude - x.rounded / tenTo places|) :
    y.rounded = x.rounded := by
  have hten : (0 : ℚ) < tenTo places := Nat.cast_pos.mpr (tenTo_pos places)
  have hscaled : ∀ m : ℚ, |m - x.rounded / tenTo places| * tenTo places =
      |x.rounded - m * tenTo places| := by
    intro m
    rw [← abs_of_pos hten, ← abs_mul, abs_of_pos hten, sub_mul, div_mul_cancel₀ _ hten.ne',
      abs_sub_comm]
  have hnear := mul_le_mul_of_nonneg_right h hten.le
  rw [hscaled, hscaled] at hnear
  have hhalf := x.abs_rounded_sub_le
  refine roundQuotient_eq y.quotient_den_pos ?_ ?_
  · rw [scaled_quotient_eq]
    exact hnear.trans hhalf
  · -- just between two units both numbers go to the even one
    intro htie
    rw [scaled_quotient_eq] at htie
    refine even_roundQuotient x.quotient_den_pos ?_
    rw [scaled_quotient_eq]
    exact le_antisymm hhalf (htie.symm.le.trans hnear)

/-! ## What is read back -/

/-- No representable number is greater than the greatest. -/
theorem Representable.magnitude_le (h : d.Representable) :
    d.magnitude ≤ greatest.magnitude := by
  have hmantissa : (d.mantissa : ℚ) ≤ greatest.mantissa := by
    exact_mod_cast Nat.le_pred_of_lt h.mantissa_lt
  calc d.magnitude ≤ greatest.mantissa * 2 ^ d.exponent :=
        mul_le_mul_of_nonneg_right hmantissa (by positivity)
    _ ≤ greatest.magnitude :=
        mul_le_mul_of_nonneg_left (zpow_le_zpow_right₀ one_le_two h.exponent_le) (by positivity)

/-- The decimal fraction of a number is in range: it is the number itself, or the number has places
after the point and is small. -/
theorem Representable.rounded_le (h : d.Representable) :
    (d.rounded : ℚ) / tenTo places ≤ greatest.magnitude := by
  have hten : (0 : ℚ) < tenTo places := Nat.cast_pos.mpr (tenTo_pos places)
  rcases le_or_gt 0 d.exponent with hexponent | hexponent
  · -- without places after the point the fraction is the number itself
    have hscale : (-d.exponent).toNat = 0 := Int.toNat_eq_zero.mpr (by omega)
    have hden : d.quotient.2 = 1 := by
      rw [quotient, hscale]
      rfl
    have hwhole : d.isWhole = true := by
      rw [isWhole_iff_dvd, hden]
      exact one_dvd _
    have hvalue : (d.rounded : ℚ) / tenTo places = d.magnitude := by
      rw [rounded_of_isWhole hwhole, ← quotient_eq_magnitude, hden, Nat.div_one, Nat.cast_mul,
        mul_div_cancel_right₀ _ hten.ne', Nat.cast_one, div_one]
    rw [hvalue]
    exact h.magnitude_le
  · -- with places after the point the number is no greater than its mantissa
    have hsmall : d.magnitude ≤ 2 ^ 53 := by
      have hmantissa : (d.mantissa : ℚ) ≤ 2 ^ 53 := by
        rw [← cast_twoTo]
        exact_mod_cast h.mantissa_lt.le
      calc d.magnitude ≤ 2 ^ 53 * 1 :=
            mul_le_mul hmantissa (zpow_le_one_of_nonpos₀ one_le_two hexponent.le) (by positivity)
              (by positivity)
        _ = 2 ^ 53 := mul_one _
    have hunit : (1 : ℚ) ≤ tenTo places := by exact_mod_cast tenTo_pos places
    have hrounded : (d.rounded : ℚ) / tenTo places ≤ 2 ^ 53 + 1 := by
      rw [div_le_iff₀ hten]
      have := (abs_le.mp d.abs_rounded_sub_le).2
      nlinarith
    have hgreatest : (2 : ℚ) ^ 53 + 1 ≤ greatest.magnitude := by
      have hmantissa : (greatest.mantissa : ℚ) = 2 ^ 53 - 1 := by
        rw [greatest, Nat.cast_sub (twoTo_pos 53), cast_twoTo, Nat.cast_one]
      have hpower : (2 : ℚ) ^ (1 : Int) ≤ 2 ^ greatest.exponent :=
        zpow_le_zpow_right₀ one_le_two (by decide)
      rw [zpow_one] at hpower
      calc (2 : ℚ) ^ 53 + 1 ≤ (2 ^ 53 - 1) * 2 := by norm_num
        _ ≤ greatest.magnitude := by
          rw [magnitude, hmantissa]
          exact mul_le_mul_of_nonneg_left hpower (by norm_num)
    exact hrounded.trans hgreatest

/-- What is read back has the sign that is read, and is rounded to the same value as the number that
was written. It is zero if that value is. -/
theorem exists_read (h : d.Representable) (negative : Bool) :
    ∃ y, ofFloat? (ofDigits negative (wholeDigits d.rounded) (placeDigits d.rounded)) = some y ∧
      y.negative = negative ∧ y.rounded = d.rounded ∧ (y.mantissa = 0 ↔ d.rounded = 0) := by
  have hvalue := digitsValue_decimal d.rounded
  have hmax := h.rounded_le
  rw [← hvalue] at hmax
  obtain ⟨y, hy, hnegative, hnear⟩ := exists_nearest negative (tenTo_pos _) hmax
  rw [hvalue] at hnear
  have hrounded := rounded_eq_of_near (hnear d h)
  refine ⟨y, hy, hnegative, hrounded, ?_⟩
  constructor
  · intro hzero
    rw [← hrounded, rounded, quotient, hzero, Nat.zero_mul, Nat.zero_mul,
      roundQuotient_of_dvd (twoTo_pos _) (dvd_zero _), Nat.zero_div]
  · intro hzero
    have hnone : (⟨false, 0, 0⟩ : Dyadic).Representable := ⟨by decide, by decide, by decide⟩
    have hmagnitude := hnear _ hnone
    have hnothing : (⟨false, 0, 0⟩ : Dyadic).magnitude = 0 := magnitude_eq_zero_iff.mpr rfl
    rw [hzero, Nat.cast_zero, zero_div, sub_zero, hnothing] at hmagnitude
    rw [← magnitude_eq_zero_iff]
    simpa using hmagnitude

end Dyadic

end Stylesheet.Number
