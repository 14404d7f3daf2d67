import Mathlib
import Stylesheet.Text.Blank
import Stylesheet.Text.Digit

/-!
# Digits and letters of ASCII

Texts may have the digits of all scripts in them, but what is written has those of ASCII, and units
have its letters.

* `digitsValue_eq` : what digits of ASCII are worth.
* `isDigit_of_isAlpha` : letters are not digits of any script.
-/

namespace Stylesheet.Text

variable {c : Char}

theorem toNat_of_isDigit (h : c.isDigit = true) : 0x30 ≤ c.toNat ∧ c.toNat ≤ 0x39 := by
  simp only [Char.isDigit, Bool.and_eq_true, decide_eq_true_eq] at h
  exact h

theorem toNat_of_isAlpha (h : c.isAlpha = true) : 0x41 ≤ c.toNat ∧ c.toNat ≤ 0x7A := by
  simp only [Char.isAlpha, Char.isUpper, Char.isLower, Bool.or_eq_true, Bool.and_eq_true,
    decide_eq_true_eq] at h
  change (0x41 ≤ c.toNat ∧ c.toNat ≤ 0x5A) ∨ (0x61 ≤ c.toNat ∧ c.toNat ≤ 0x7A) at h
  omega

/-- The visible characters of ASCII are not blank. -/
theorem isBlank_of_visible (hlow : 0x21 ≤ c.toNat) (hhigh : c.toNat ≤ 0x7E) :
    isBlank c = false := by
  simp only [isBlank, Bool.or_eq_false_iff, Bool.and_eq_false_iff, decide_eq_false_iff_not,
    beq_eq_false_iff_ne]
  omega

theorem digitValue?_of_isDigit (h : c.isDigit = true) :
    digitValue? c = some (c.toNat - '0'.toNat) := by
  have hrange := toNat_of_isDigit h
  have hfirst : zeros.find? (fun z => z ≤ c.toNat && c.toNat < z + 10) = some 0x30 := by
    refine List.find?_cons_of_pos ?_
    simp only [Bool.and_eq_true, decide_eq_true_eq]
    omega
  rw [digitValue?, hfirst]
  rfl

theorem isDigit_of_isDigit (h : c.isDigit = true) : isDigit c = true := by
  rw [isDigit, digitValue?_of_isDigit h]
  rfl

/-- No script has digits among the letters of ASCII. -/
theorem isDigit_of_isAlpha (h : c.isAlpha = true) : isDigit c = false := by
  have hrange := toNat_of_isAlpha h
  have hzeros : zeros.all (fun z => z == 0x30 || 0x660 ≤ z) = true := by decide
  have hnone : zeros.find? (fun z => z ≤ c.toNat && c.toNat < z + 10) = none := by
    rw [List.find?_eq_none]
    intro z hz
    have hzero := List.all_eq_true.mp hzeros z hz
    simp only [Bool.or_eq_true, beq_iff_eq, decide_eq_true_eq] at hzero
    simp only [Bool.and_eq_true, decide_eq_true_eq]
    omega
  rw [isDigit, digitValue?, hnone]
  rfl

/-- The digits that numbers are written with are worth what they are for the core library. -/
theorem digitsValue_eq {digits : List Char} (h : ∀ c ∈ digits, c.isDigit = true) :
    digitsValue digits = Nat.ofDigitChars 10 digits 0 := by
  rw [digitsValue, Nat.ofDigitChars_eq_foldl]
  refine List.foldl_ext _ _ _ fun n c hc => ?_
  rw [digitValue?_of_isDigit (h c hc)]

end Stylesheet.Text
