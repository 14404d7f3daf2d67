import Mathlib
import Stylesheet.Data.Yaml.Printer
import Stylesheet.Data.Yaml.Text

/-!
# Places behind written texts

What is written holds printing characters of ASCII and line feeds only, so that the place behind it is
told by its length: on the same line, or in the column of its indentation after a line feed.

* `Cursor.past` : the place behind a text.
* `Cursor.past_ink` : the place behind printing characters.
* `Cursor.past_newline` : the place behind a line feed and an indentation.
-/

namespace Stylesheet.Data.Yaml

/-! ## Characters -/

section

variable {ch : Char}

/-- A printing character does not end a line. -/
theorem isBreak_of_isPlainChar (h : isPlainChar ch) : isBreak ch = false := by
  have hle : ' ' ≤ ch ∧ ch ≤ '~' := by simpa [isPlainChar] using h
  simp only [isBreak, Bool.or_eq_false_iff, beq_eq_false_iff_ne, ne_eq]
  refine ⟨⟨⟨⟨?_, ?_⟩, ?_⟩, ?_⟩, ?_⟩ <;> rintro rfl <;> exact absurd hle (by decide)

/-- The only printing character that separates words is the space. -/
theorem atGap_of_isPlainChar (h : isPlainChar ch) (cs : List Char) :
    atGap (ch :: cs) = (ch == ' ') := by
  have htab : (ch == '\t') = false := by
    rw [beq_eq_false_iff_ne]
    rintro rfl
    exact absurd h (by decide)
  simp [atGap, isBreak_of_isPlainChar h, htab]

/-- The mark of the byte order is no printing character. -/
theorem ne_mark_of_isPlainChar (h : isPlainChar ch) : ch ≠ '\ufeff' := by
  rintro rfl
  exact absurd h (by decide)

end

namespace Cursor

variable {c : Cursor} {s t : List Char}

/-! ## Advancing -/

def past (s : List Char) (c : Cursor) : Cursor :=
  c.advance s.length

@[simp] theorem past_nil (c : Cursor) : c.past [] = c := rfl

theorem past_cons (ch : Char) (s : List Char) (c : Cursor) : c.past (ch :: s) = c.next.past s := rfl

theorem past_append (s t : List Char) (c : Cursor) : c.past (s ++ t) = (c.past s).past t := by
  induction s generalizing c with
  | nil => rfl
  | cons ch s ih => exact ih c.next

theorem rest_past (h : c.rest = s ++ t) : (c.past s).rest = t := by
  rw [past, rest_advance, h, List.drop_left]

theorem rest_next_of (ch : Char) (h : c.rest = ch :: t) : c.next.rest = t := by
  rw [rest_next, h]
  rfl

/-- Skipping goes as far as the condition holds. -/
theorem skip_eq_past {p : Char → Bool} (h : c.rest = s ++ t) (hs : ∀ ch ∈ s, p ch)
    (ht : ∀ ch ∈ t.head?, p ch = false) : c.skip p = c.past s := by
  have htake : (s ++ t).takeWhile p = s := by
    rw [List.takeWhile_append_of_pos hs]
    cases t with
    | nil => simp
    | cons ch t => simp [ht ch (by simp)]
  rw [skip, h, htake, past]

/-! ## Lines and columns -/

/-- A plain character moves the cursor by one column. -/
theorem next_of_ink {ch : Char} (h : c.rest = ch :: t) (hch : isPlainChar ch) :
    c.next = ⟨t, c.index + 1, c.line, c.column + 1⟩ := by
  simp [next, h, isBreak_of_isPlainChar hch, ne_mark_of_isPlainChar hch]

/-- Printing characters take one column each. -/
theorem past_ink (h : c.rest = s ++ t) (hs : ∀ ch ∈ s, isPlainChar ch) :
    c.past s = ⟨t, c.index + s.length, c.line, c.column + s.length⟩ := by
  induction s generalizing c with
  | nil =>
      cases c
      simp_all
  | cons ch s ih =>
      rw [List.forall_mem_cons] at hs
      rw [List.cons_append] at h
      have hnext := next_of_ink h hs.1
      rw [past_cons, ih (by rw [hnext]) hs.2, hnext]
      simp [Nat.add_assoc, Nat.add_comm 1]

/-- A line feed moves the cursor to the start of the next line. -/
theorem next_of_newline (h : c.rest = '\n' :: t) : c.next = ⟨t, c.index + 1, c.line + 1, 0⟩ := by
  simp [next, h, isBreak]

theorem lineBreak?_of_newline (h : c.rest = '\n' :: t) : c.lineBreak? = some ('\n', c.next) := by
  simp [lineBreak?, h, isBreak]

theorem lineBreak?_eq_none (h : atBreak c.rest = false) : c.lineBreak? = none := by
  unfold lineBreak?
  split
  · rename_i hrest
    rw [hrest] at h
    cases h
  · rename_i ch after hnot hrest
    rw [hrest] at h
    have hbreak : isBreak ch = false := h
    have hother : ¬(ch = '\u2028' ∨ ch = '\u2029') := by
      rintro (rfl | rfl) <;> cases hbreak
    simp [hother, hbreak]
  · rfl

/-- The column behind a line feed and an indentation is that of the indentation. -/
theorem past_newline {indent : Nat} (h : c.rest = newline indent ++ t) :
    c.past (newline indent) = ⟨t, c.index + indent + 1, c.line + 1, indent⟩ := by
  have hspaces : ∀ ch ∈ List.replicate indent ' ', isPlainChar ch = true := by
    intro ch hch
    rw [List.eq_of_mem_replicate hch]
    rfl
  have hnext := next_of_newline (c := c) (t := List.replicate indent ' ' ++ t) h
  rw [newline, past_cons, past_ink (t := t) (by rw [hnext]) hspaces, hnext]
  simp [Nat.add_right_comm]

end Cursor

end Stylesheet.Data.Yaml
