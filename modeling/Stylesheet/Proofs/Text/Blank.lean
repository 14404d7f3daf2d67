import Mathlib
import Stylesheet.Proofs.Text.Digit
import Stylesheet.Text.Word

/-!
# Blanks beside other characters

No blank is a letter, a digit or a numeral of any script, so a blank ends whatever is made of those.

* `isDigit_of_isBlank`, `isAlphanum_of_isBlank`, `isWord_of_isBlank` : what a blank is not.
-/

namespace Stylesheet.Text

def blankCodes : List Nat :=
  [ 0x09, 0x0A, 0x0B, 0x0C, 0x0D, 0x1C, 0x1D, 0x1E, 0x1F, 0x20, 0x85, 0xA0, 0x1680, 0x2000, 0x2001,
    0x2002, 0x2003, 0x2004, 0x2005, 0x2006, 0x2007, 0x2008, 0x2009, 0x200A, 0x2028, 0x2029, 0x202F,
    0x205F, 0x3000 ]

variable {c : Char}

theorem toNat_mem_blankCodes (h : isBlank c = true) : c.toNat ∈ blankCodes := by
  simp only [isBlank, Bool.or_eq_true, Bool.and_eq_true, decide_eq_true_eq, beq_iff_eq] at h
  simp only [blankCodes, List.mem_cons, List.not_mem_nil, or_false]
  omega

theorem isDigit_of_isBlank (h : isBlank c = true) : isDigit c = false := by
  have hcodes : ∀ n ∈ blankCodes, zeros.find? (fun z => z ≤ n && n < z + 10) = none := by
    decide +kernel
  rw [isDigit, digitValue?, hcodes _ (toNat_mem_blankCodes h)]
  rfl

theorem isAlphanum_of_isBlank (h : isBlank c = true) : c.isAlphanum = false := by
  by_contra hc
  have hvisible : isBlank c = false := by
    rcases Bool.or_eq_true_iff.mp (Bool.not_eq_false _ ▸ hc) with hletter | hdigit
    · have := toNat_of_isAlpha hletter
      exact isBlank_of_visible (by omega) (by omega)
    · have := toNat_of_isDigit hdigit
      exact isBlank_of_visible (by omega) (by omega)
  rw [h] at hvisible
  cases hvisible

theorem isAlpha_of_isBlank (h : isBlank c = true) : c.isAlpha = false :=
  (Bool.or_eq_false_iff.mp (isAlphanum_of_isBlank h)).1

theorem isWord_of_isBlank (h : isBlank c = true) : isWord c = false := by
  have hcodes : ∀ n ∈ blankCodes, inRanges numeralsAndLetters n = false := by decide +kernel
  have hmark : c ≠ '_' := by
    rintro rfl
    cases h
  rw [isWord, isAlphanum_of_isBlank h, hcodes _ (toNat_mem_blankCodes h)]
  simp [hmark]

end Stylesheet.Text
