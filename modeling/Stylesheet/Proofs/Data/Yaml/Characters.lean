import Mathlib
import Stylesheet.Data.Yaml.Token
import Stylesheet.Proofs.Data.Yaml.Cursor

/-!
# The characters of written texts

Whatever a text holds, what is written of it holds nothing but printing characters of ASCII and line
feeds, which may stand in any text that is read.

* `isInk_renderText` : what is written of a text.
* `all_isAllowed_of_isInk` : what may be read.
-/

namespace Stylesheet.Data.Yaml

/-- Whether a text holds printing characters of ASCII and line feeds only. -/
def isInk (s : List Char) : Bool :=
  s.all fun ch => isPlainChar ch || ch == '\n'

variable {ch : Char} {s t cs : List Char}

@[simp] theorem isInk_nil : isInk [] = true := rfl

@[simp] theorem isInk_cons :
    isInk (ch :: s) = ((isPlainChar ch || ch == '\n') && isInk s) := List.all_cons

@[simp] theorem isInk_append : isInk (s ++ t) = (isInk s && isInk t) := List.all_append

theorem isInk_spaces (n : Nat) : isInk (List.replicate n ' ') := by
  rw [isInk, List.all_eq_true]
  intro ch hch
  rw [List.eq_of_mem_replicate hch]
  rfl

@[simp] theorem isInk_newline (n : Nat) : isInk (newline n) := by
  simp [newline, isInk_spaces]

theorem isInk_of_isPlainChar (h : ∀ ch ∈ s, isPlainChar ch) : isInk s := by
  rw [isInk, List.all_eq_true]
  exact fun ch hch => by simp [h ch hch]

/-- What is written may be read. -/
theorem all_isAllowed_of_isInk (h : isInk s) : s.all isAllowed := by
  rw [isInk, List.all_eq_true] at h
  rw [List.all_eq_true]
  intro ch hch
  rcases Bool.or_eq_true_iff.mp (h ch hch) with hplain | hbreak
  · have hrange : 0x20 ≤ ch.toNat ∧ ch.toNat ≤ 0x7E := by
      simp only [isPlainChar, Bool.and_eq_true, decide_eq_true_eq] at hplain
      exact hplain
    simp [isAllowed, hrange]
  · rw [beq_iff_eq] at hbreak
    subst hbreak
    rfl

/-! ## Texts without escapes -/

/-- Folding a text puts nothing into it but ink. -/
theorem isInk_foldText {single : Bool} (indent : Nat) : ∀ (cs : List Char) (column : Nat)
    (before : Option Char), isInk cs → isInk (foldText single indent column before cs)
  | [], _, _, _ => rfl
  | ch :: cs, column, before, h => by
    rw [isInk_cons, Bool.and_eq_true] at h
    have hmore (column : Nat) (before : Option Char) : isInk (foldText single indent column before cs) :=
      isInk_foldText indent cs column before h.2
    unfold foldText
    split
    · rfl
    · next heq =>
      cases heq
      split <;> simp [hmore, isPlainChar]
    · next heq =>
      cases heq
      dsimp only
      split <;> split <;> simp [hmore, isInk_spaces]
    · next heq =>
      cases heq
      split
      · simp [hmore, isPlainChar]
      · rw [isInk_cons, h.1, hmore]
        rfl

/-! ## Escapes -/

theorem isInk_hex (width n : Nat) : isInk (Text.hex true width n) := by
  induction width generalizing n with
  | zero => rfl
  | succ width ih =>
      have hdigit : ∀ d < 16, isInk [Text.hexDigit true d] = true := by decide
      rw [Text.hex, isInk_append, ih, hdigit _ (Nat.mod_lt _ (by decide))]
      rfl

theorem isInk_escape (ch : Char) : isInk (escape ch) := by
  unfold escape
  split
  · next letter hfound =>
    have hletters : ∀ entry ∈ escapeLetters, isInk ['\\', entry.2] = true := by decide
    obtain ⟨before, after, heq, -⟩ := List.lookup_eq_some_iff.mp hfound
    exact hletters (ch, letter) (by rw [heq]; simp)
  · dsimp only
    split
    · exact isInk_hex 2 _
    · split
      · exact isInk_hex 4 _
      · exact isInk_hex 8 _

theorem isInk_breakBefore (indent : Nat) (cs : List Char) : isInk (breakBefore indent cs).1 := by
  unfold breakBefore
  split <;> simp [isPlainChar]

/-- Escaping a text leaves nothing in it but ink. -/
theorem isInk_escapeText (indent : Nat) : ∀ (cs : List Char) (column : Nat) (first start : Bool),
    isInk (escapeText indent column first start cs)
  | [], _, _, _ => rfl
  | ch :: cs, column, first, start => by
    have hmore := isInk_escapeText indent cs
    have hescape := isInk_escape ch
    unfold escapeText
    split
    · next hch =>
      have hplain : isPlainChar ch := by
        simp only [isUnescaped, Bool.and_eq_true] at hch
        exact hch.1.1
      split <;> simp [hmore, hplain, isInk_breakBefore]
    · dsimp only
      split <;> simp [hmore, hescape, isInk_breakBefore]

/-- The characters of a written text. -/
theorem isInk_renderText (indent column : Nat) (cs : List Char) :
    isInk (renderText indent column cs) := by
  unfold renderText
  split
  · next hplain =>
    simp only [isPlain, Bool.and_eq_true, List.all_eq_true] at hplain
    exact isInk_foldText indent cs column none (isInk_of_isPlainChar hplain.1.1.1.1.2)
  · split
    · next hsingle =>
      simp only [isSingle, Bool.and_eq_true] at hsingle
      rw [isInk_append, isInk_cons, isInk_foldText indent cs _ none hsingle.1]
      rfl
    · rw [isInk_append, isInk_cons, isInk_escapeText]
      rfl

end Stylesheet.Data.Yaml
