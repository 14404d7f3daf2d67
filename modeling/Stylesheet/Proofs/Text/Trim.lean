import Stylesheet.Text.Blank

/-!
# Blanks at the ends of texts

* `isBlank_head_of_trimmed`, `exists_last_of_trim` : a trimmed text neither starts nor ends with a
  blank.
* `trimStart_append_of_blank`, `trimEnd_append` : blanks at the ends do not matter.
* `trim_sublist` : trimming takes characters away only.
-/

namespace Stylesheet.Text

/-- A character that is not blank is none of the blanks. -/
theorem notMem_of_blank {blanks : List Char} (h : blanks.all isBlank = true) {c : Char}
    (hc : isBlank c = false) : c ∉ blanks := by
  intro hmem
  rw [List.all_eq_true.mp h c hmem] at hc
  cases hc

/-! ## What is left -/

theorem trimStart_sublist (cs : List Char) : (trimStart cs).Sublist cs :=
  List.dropWhile_sublist isBlank

theorem trimEnd_sublist (cs : List Char) : (trimEnd cs).Sublist cs := by
  have hreverse : (cs.reverse.dropWhile isBlank).reverse.Sublist cs.reverse.reverse :=
    (List.dropWhile_sublist isBlank).reverse
  rwa [List.reverse_reverse] at hreverse

theorem trim_sublist (cs : List Char) : (trim cs).Sublist cs :=
  (trimEnd_sublist _).trans (trimStart_sublist cs)

/-! ## Blanks at the start -/

theorem trimStart_cons {c : Char} (hc : isBlank c = false) (cs : List Char) :
    trimStart (c :: cs) = c :: cs :=
  List.dropWhile_cons_of_neg (by simp [hc])

theorem trimStart_cons_of_isBlank {c : Char} (hc : isBlank c = true) (cs : List Char) :
    trimStart (c :: cs) = trimStart cs :=
  List.dropWhile_cons_of_pos hc

theorem trimStart_of_stops {cs : List Char} (h : ∀ c ∈ cs.head?, isBlank c = false) :
    trimStart cs = cs := by
  cases cs with
  | nil => rfl
  | cons c cs => exact trimStart_cons (h c rfl) cs

theorem trimStart_append_of_blank {blanks : List Char} (h : blanks.all isBlank = true)
    (cs : List Char) : trimStart (blanks ++ cs) = trimStart cs :=
  List.dropWhile_append_of_pos (List.all_eq_true.mp h)

theorem trim_cons_of_isBlank {c : Char} (h : isBlank c = true) (cs : List Char) :
    trim (c :: cs) = trim cs := by
  rw [trim, trim, trimStart_cons_of_isBlank h]

theorem isBlank_head_of_trimmed {c : Char} {cs : List Char} (h : trim (c :: cs) = c :: cs) :
    isBlank c = false := by
  refine Bool.eq_false_iff.mpr fun hblank => ?_
  -- without its first character the text would be longer than it is
  have hstart := trimStart_cons_of_isBlank hblank cs
  have hlength : ∀ xs, (trim xs).length ≤ (trimStart xs).length := by
    intro xs
    have hle := (List.dropWhile_sublist isBlank (l := (trimStart xs).reverse)).length_le
    simpa [trim, trimEnd] using hle
  have hshort : (trimStart cs).length ≤ cs.length := (List.dropWhile_sublist _).length_le
  have hlong := hlength (c :: cs)
  rw [h, hstart, List.length_cons] at hlong
  omega

/-- A text without blanks at its two ends has none at its end. -/
theorem trimEnd_of_trimmed {cs : List Char} (h : trim cs = cs) : trimEnd cs = cs := by
  cases cs with
  | nil => rfl
  | cons c cs =>
      have hc := isBlank_head_of_trimmed h
      rwa [trim, trimStart_cons hc] at h

/-! ## Blanks at the end -/

theorem exists_blanks (cs : List Char) :
    ∃ blanks, cs = trimEnd cs ++ blanks ∧ blanks.all isBlank = true := by
  refine ⟨(cs.reverse.takeWhile isBlank).reverse, ?_, ?_⟩
  · rw [trimEnd, ← List.reverse_append, List.takeWhile_append_dropWhile, List.reverse_reverse]
  · rw [List.all_reverse]
    exact List.all_takeWhile

theorem trimEnd_append {cs blanks : List Char} (h : blanks.all isBlank = true) :
    trimEnd (cs ++ blanks) = trimEnd cs := by
  rw [trimEnd, List.reverse_append, List.dropWhile_append_of_pos]
  · rfl
  · simpa using h

theorem trimEnd_concat {c : Char} (hc : isBlank c = false) (cs : List Char) :
    trimEnd (cs ++ [c]) = cs ++ [c] := by
  simp [trimEnd, hc]

theorem trimEnd_cons {c : Char} (h : isBlank c = false) (cs : List Char) :
    trimEnd (c :: cs) = c :: trimEnd cs := by
  unfold trimEnd
  rw [List.reverse_cons, List.dropWhile_append]
  split
  · next hempty =>
      rw [List.isEmpty_iff.mp hempty]
      simp [h]
  · simp

/-- A trimmed text ends in a character that is not blank. -/
theorem exists_last_of_trim {raw : List Char} (h : trim raw ≠ []) :
    ∃ c, (trim raw).getLast? = some c ∧ isBlank c = false := by
  unfold trim trimEnd at h ⊢
  obtain ⟨c, rest, hcut⟩ := List.exists_cons_of_ne_nil (mt List.reverse_eq_nil_iff.mpr h)
  have hc := List.head?_dropWhile_not isBlank (trimStart raw).reverse
  rw [hcut] at hc ⊢
  exact ⟨c, by rw [List.getLast?_reverse]; rfl, by simpa using hc⟩

/-- A text without any blanks is left as it is. -/
theorem trim_of_forall {cs : List Char} (h : ∀ c ∈ cs, isBlank c = false) : trim cs = cs := by
  have hstart : trimStart cs = cs := trimStart_of_stops fun c hc => h c (List.mem_of_mem_head? hc)
  have hend : cs.reverse.dropWhile isBlank = cs.reverse := trimStart_of_stops fun c hc =>
    h c (List.mem_reverse.mp (List.mem_of_mem_head? hc))
  rw [trim, hstart, trimEnd, hend, List.reverse_reverse]

end Stylesheet.Text
