/-!
# Cutting texts at a separator

* `intercalate_pieces` : the pieces with separators between them are the text.
* `pieces_append` : a text that starts with a piece.
-/

namespace Stylesheet.Text

variable {α : Type} [DecidableEq α]

/-- The parts of a text between the occurrences of a character; one part more than occurrences. -/
def pieces (separator : α) : List α → List (List α)
  | [] => [[]]
  | c :: cs =>
    if c = separator then [] :: pieces separator cs
    else match pieces separator cs with
      | [] => [[c]]
      | piece :: rest => (c :: piece) :: rest

/-- A text has one piece at least. -/
theorem pieces_ne_nil (separator : α) (cs : List α) : pieces separator cs ≠ [] := by
  cases cs with
  | nil => simp [pieces]
  | cons c cs =>
    unfold pieces
    split
    · simp
    · split <;> simp

/-- The pieces with the separator between them are the text. -/
theorem intercalate_pieces (separator : α) (cs : List α) :
    List.intercalate [separator] (pieces separator cs) = cs := by
  induction cs with
  | nil => rfl
  | cons c cs ih =>
    obtain ⟨piece, rest, h⟩ := List.exists_cons_of_ne_nil (pieces_ne_nil separator cs)
    unfold pieces
    rw [h] at ih ⊢
    split
    · next hc => subst hc; simpa [List.intercalate, List.intersperse] using ih
    · cases rest with
      | nil => simpa [List.intercalate, List.intersperse] using ih
      | cons p ps => simpa [List.intercalate, List.intersperse] using ih

theorem pieces_of_notMem {separator : α} {piece : List α} (h : separator ∉ piece) :
    pieces separator piece = [piece] := by
  induction piece with
  | nil => rfl
  | cons c piece ih =>
    rw [List.mem_cons, not_or] at h
    rw [pieces, if_neg (Ne.symm h.1), ih h.2]

/-- A piece ends at the first separator. -/
theorem pieces_append {separator : α} {piece : List α} (h : separator ∉ piece) (cs : List α) :
    pieces separator (piece ++ separator :: cs) = piece :: pieces separator cs := by
  induction piece with
  | nil => simp [pieces]
  | cons c piece ih =>
    rw [List.mem_cons, not_or] at h
    rw [List.cons_append, pieces, if_neg (Ne.symm h.1), ih h.2]

end Stylesheet.Text
