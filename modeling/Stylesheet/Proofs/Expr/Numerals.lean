import Mathlib
import Stylesheet.Proofs.Expr.Values
import Stylesheet.Proofs.Text.Digit
import Stylesheet.Proofs.Text.Pattern

/-!
# Reading numerals and units

The digits of a number are read as far as they go, and so is the unit after them.

* `scanNumeral?_whole`, `scanNumeral?_point` : digits without a point and with one.
* `scanUnit_append`, `scanUnit_of_stops` : a unit, and what is no unit.
* `head_of_isUnitText` : a unit does not continue a numeral.
-/

namespace Stylesheet.Value

variable {whole fraction unit rest : List Char}

/-- Digits without a point are scanned as a whole number. -/
theorem scanNumeral?_whole (hrun : IsRun Text.isDigit whole rest) (hne : whole ≠ [])
    (hpoint : rest.head? ≠ some '.') : scanNumeral? (whole ++ rest) = some (whole, none, rest) := by
  unfold scanNumeral?
  rw [hrun.takeWhile_eq, hrun.dropWhile_eq]
  dsimp only
  split
  · exact absurd rfl hpoint
  · exact if_neg (mt List.isEmpty_iff.mp hne)

/-- Digits around a point are scanned as a decimal number. -/
theorem scanNumeral?_point (hwhole : ∀ c ∈ whole, Text.isDigit c = true)
    (hrun : IsRun Text.isDigit fraction rest) (hne : whole ++ fraction ≠ []) :
    scanNumeral? (whole ++ '.' :: (fraction ++ rest)) = some (whole, some fraction, rest) := by
  have hpoint : IsRun Text.isDigit whole ('.' :: (fraction ++ rest)) :=
    ⟨hwhole, fun c hc => by rw [← Option.some.inj hc]; decide⟩
  unfold scanNumeral?
  rw [hpoint.takeWhile_eq, hpoint.dropWhile_eq]
  split
  · next after hafter =>
      rw [← (List.cons.inj hafter).2]
      dsimp only
      rw [hrun.takeWhile_eq, hrun.dropWhile_eq, if_neg]
      simpa using hne
  · next hother => exact absurd rfl (hother _)

/-- A percent sign is a unit whatever comes after it; letters are one if no letter does. -/
theorem scanUnit_append (h : IsUnitText unit)
    (hstops : unit ≠ ['%'] → ∀ c ∈ rest.head?, isUnitLetter c = false) :
    scanUnit (unit ++ rest) = (some unit, rest) := by
  by_cases hpercent : unit = ['%']
  · rw [hpercent]
    rfl
  · obtain ⟨hne, hletters⟩ := h.resolve_left hpercent
    have hrun : IsRun isUnitLetter unit rest := ⟨hletters, hstops hpercent⟩
    obtain ⟨c, letters, rfl⟩ := List.exists_cons_of_ne_nil hne
    unfold scanUnit
    split
    · next after hafter =>
        cases (List.cons.inj hafter).1
        cases hletters '%' List.mem_cons_self
    · dsimp only
      rw [hrun.takeWhile_eq, hrun.dropWhile_eq]
      rfl

theorem scanUnit_of_stops (h : ∀ c ∈ rest.head?, isUnitLetter c = false ∧ c ≠ '%') :
    scanUnit rest = (none, rest) := by
  have hrun : IsRun isUnitLetter [] rest := ⟨by simp, fun c hc => (h c hc).1⟩
  have hletters : rest.takeWhile isUnitLetter = [] := hrun.takeWhile_eq
  unfold scanUnit
  split
  · exact absurd rfl (h '%' rfl).2
  · dsimp only
    rw [hletters]
    rfl

/-- A unit starts with a letter or with a percent sign. -/
theorem head_of_isUnitText (h : IsUnitText unit) {c : Char}
    (hc : c ∈ unit.head?) : Text.isDigit c = false ∧ c ≠ '.' := by
  rcases h with rfl | ⟨-, hletters⟩
  · rw [← Option.some.inj hc]
    exact ⟨by decide, by decide⟩
  · have hletter : c.isAlpha = true := hletters c (List.mem_of_mem_head? hc)
    refine ⟨Text.isDigit_of_isAlpha hletter, ?_⟩
    rintro rfl
    cases hletter

end Stylesheet.Value
