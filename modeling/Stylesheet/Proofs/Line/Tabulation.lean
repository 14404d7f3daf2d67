import Mathlib.Data.List.Forall2
import Stylesheet.Line.Tabulation

/-!
# What tabulating accepts

A template can be tabulated if its first kept line is not indented, the first indentation that
there is can serve as a unit, and every indentation is a repetition of it. Each kept line then
becomes a line of which the depth counts the units.

* `tabulateFrom_some_eq_ok_iff` : kept lines once the unit is fixed.
* `tabulateFrom_none_eq_ok_iff` : kept lines before that.
* `tabulate_eq_ok_iff` : whole templates.
-/

namespace Stylesheet

/-- The first indentation of kept lines that is not empty. -/
def firstIndentation? (kept : List (List Char × Nat)) : Option (List Char) :=
  (kept.map (indentation ·.1)).find? (!·.isEmpty)

/-- What can serve as the unit of indentation: it does not hold both spaces and tabs. -/
structure IsUnit (unit : List Char) : Prop where
  ne_nil : unit ≠ []
  unmixed : ¬ (' ' ∈ unit ∧ '\t' ∈ unit)

/-- A kept physical line and the line that it becomes, indented by some units. -/
def Tabulated (unit : List Char) (kept : List Char × Nat) (line : Line) : Prop :=
  ∃ depth : Nat, indentation kept.1 = (List.replicate depth unit).flatten ∧
    line = .ofRaw kept.1 depth kept.2

section

variable {unit : List Char}

theorem flatten_replicate_eq_nil_iff (hu : unit ≠ []) {depth : Nat} :
    (List.replicate depth unit).flatten = [] ↔ depth = 0 := by
  cases depth with
  | zero => simp
  | succ depth => simp [List.replicate_succ, hu]

/-- The depth of an indentation is the number of units that it is made of. -/
theorem unitsIn?_eq_some_iff (hu : unit ≠ []) {lead : List Char} {depth : Nat} :
    unitsIn? unit lead = some depth ↔ lead = (List.replicate depth unit).flatten := by
  have hpos : 0 < unit.length := List.length_pos_of_ne_nil hu
  unfold unitsIn?
  dsimp only
  constructor
  · intro h
    split at h
    · next heq =>
        cases h
        exact heq.symm
    · cases h
  · rintro rfl
    have htimes : (List.replicate depth unit).flatten.length / unit.length = depth := by
      simp [Nat.mul_div_cancel _ hpos]
    rw [htimes, if_pos rfl]

theorem tabulated_of_unindented {kept : List Char × Nat} (hu : unit ≠ [])
    (h : indentation kept.1 = []) {line : Line} :
    Tabulated unit kept line ↔ line = .ofRaw kept.1 0 kept.2 := by
  constructor
  · rintro ⟨depth, hlead, rfl⟩
    rw [h] at hlead
    rw [(flatten_replicate_eq_nil_iff hu).mp hlead.symm]
  · rintro rfl
    exact ⟨0, by simp [h], rfl⟩

end

/-! ## One line more -/

/-- Putting a line in front of lines that can be tabulated. -/
theorem map_cons_eq_ok_iff {result : Except Diagnostic (List Line)} {line : Line}
    {lines : List Line} :
    result.map (line :: ·) = .ok lines ↔ ∃ rest, result = .ok rest ∧ lines = line :: rest := by
  cases result with
  | error d => simp [Except.map]
  | ok rest => simp [Except.map, eq_comm]

section

variable {raw : List Char} {number : Nat} {rest : List (List Char × Nat)}

/-- A line without indentation is read at depth zero, whatever the unit. -/
theorem tabulateFrom_unindented (unit : Option (List Char)) (h : indentation raw = []) :
    tabulateFrom unit ((raw, number) :: rest) =
      (tabulateFrom unit rest).map (.ofRaw raw 0 number :: ·) := by
  rw [tabulateFrom.eq_def]
  dsimp only
  rw [h]

/-- The first indentation becomes the unit, unless it mixes tabs and spaces. -/
theorem tabulateFrom_first (h : indentation raw ≠ []) :
    tabulateFrom none ((raw, number) :: rest) =
      if (indentation raw).contains ' ' && (indentation raw).contains '\t' then
        .error (Fault.mixedIndentation.at (number : Int))
      else (tabulateFrom (some (indentation raw)) rest).map (.ofRaw raw 1 number :: ·) := by
  rw [tabulateFrom.eq_def]
  dsimp only
  split
  · next hlead => exact absurd hlead h
  · rfl
  · next hnone _ => cases hnone

/-- Every further indentation must be a multiple of the unit. -/
theorem tabulateFrom_indented {unit : List Char} (h : indentation raw ≠ []) :
    tabulateFrom (some unit) ((raw, number) :: rest) =
      match unitsIn? unit (indentation raw) with
      | some depth => (tabulateFrom (some unit) rest).map (.ofRaw raw depth number :: ·)
      | none => .error ((Fault.inconsistentIndentation (indentation raw) unit).at (number : Int)) := by
  rw [tabulateFrom.eq_def]
  dsimp only
  split
  · next hlead => exact absurd hlead h
  · next hnone _ => cases hnone
  · next hsome _ =>
      cases hsome
      rfl

end

/-! ## All lines -/

/-- Once the unit is fixed every line has to be indented by some units. -/
theorem tabulateFrom_some_eq_ok_iff {unit : List Char} (hu : unit ≠ [])
    {kept : List (List Char × Nat)} {lines : List Line} :
    tabulateFrom (some unit) kept = .ok lines ↔ List.Forall₂ (Tabulated unit) kept lines := by
  induction kept generalizing lines with
  | nil => simp [tabulateFrom, eq_comm]
  | cons line rest ih =>
      obtain ⟨raw, number⟩ := line
      rw [List.forall₂_cons_left_iff]
      by_cases hlead : indentation raw = []
      · rw [tabulateFrom_unindented _ hlead, map_cons_eq_ok_iff]
        constructor
        · rintro ⟨lines, hrest, rfl⟩
          exact ⟨_, lines, (tabulated_of_unindented hu hlead).mpr rfl, ih.mp hrest, rfl⟩
        · rintro ⟨first, lines, hfirst, hrest, rfl⟩
          rw [(tabulated_of_unindented hu hlead).mp hfirst]
          exact ⟨lines, ih.mpr hrest, rfl⟩
      · rw [tabulateFrom_indented hlead]
        constructor
        · intro h
          split at h
          · next depth hdepth =>
              obtain ⟨lines, hrest, rfl⟩ := map_cons_eq_ok_iff.mp h
              exact ⟨_, lines, ⟨depth, (unitsIn?_eq_some_iff hu).mp hdepth, rfl⟩, ih.mp hrest, rfl⟩
          · cases h
        · rintro ⟨_, lines, ⟨depth, hdepth, rfl⟩, hrest, rfl⟩
          rw [(unitsIn?_eq_some_iff hu).mpr hdepth]
          exact map_cons_eq_ok_iff.mpr ⟨lines, ih.mpr hrest, rfl⟩

theorem firstIndentation?_cons (line : List Char × Nat) (rest : List (List Char × Nat)) :
    firstIndentation? (line :: rest) =
      if indentation line.1 = [] then firstIndentation? rest else some (indentation line.1) := by
  unfold firstIndentation?
  rw [List.map_cons, List.find?_cons]
  cases indentation line.1 with
  | nil => simp
  | cons c cs => simp

/-- Before the unit is fixed the first indentation has to be able to serve as one. -/
theorem tabulateFrom_none_eq_ok_iff {kept : List (List Char × Nat)} {lines : List Line} :
    tabulateFrom none kept = .ok lines ↔
      ∃ unit, IsUnit unit ∧ (∀ lead ∈ firstIndentation? kept, lead = unit) ∧
        List.Forall₂ (Tabulated unit) kept lines := by
  induction kept generalizing lines with
  | nil =>
      -- without an indented line any unit will do
      have hspace : IsUnit [' '] := ⟨by simp, by simp⟩
      constructor
      · intro h
        cases h
        exact ⟨[' '], hspace, by simp [firstIndentation?], .nil⟩
      · rintro ⟨_, -, -, hlines⟩
        cases hlines
        rfl
  | cons line rest ih =>
      obtain ⟨raw, number⟩ := line
      simp only [List.forall₂_cons_left_iff, firstIndentation?_cons]
      by_cases hlead : indentation raw = []
      · rw [tabulateFrom_unindented _ hlead, map_cons_eq_ok_iff]
        simp only [hlead, if_true]
        constructor
        · rintro ⟨lines, hrest, rfl⟩
          obtain ⟨unit, hu, hfirst, hlines⟩ := ih.mp hrest
          exact ⟨unit, hu, hfirst, _, lines,
            (tabulated_of_unindented hu.ne_nil hlead).mpr rfl, hlines, rfl⟩
        · rintro ⟨unit, hu, hfirst, line, lines, hline, hlines, rfl⟩
          rw [(tabulated_of_unindented hu.ne_nil hlead).mp hline]
          exact ⟨lines, ih.mpr ⟨unit, hu, hfirst, hlines⟩, rfl⟩
      · rw [tabulateFrom_first hlead]
        simp only [hlead, if_false]
        constructor
        · intro h
          split at h
          · cases h
          · next hmixed =>
              obtain ⟨lines, hrest, rfl⟩ := map_cons_eq_ok_iff.mp h
              refine ⟨indentation raw, ⟨hlead, by simpa using hmixed⟩, by simp, _, lines,
                ⟨1, by simp, rfl⟩, (tabulateFrom_some_eq_ok_iff hlead).mp hrest, rfl⟩
        · rintro ⟨unit, hu, hfirst, _, lines, ⟨depth, hdepth, rfl⟩, hlines, rfl⟩
          obtain rfl : indentation raw = unit := hfirst _ (by simp)
          -- the line that fixes the unit is indented by one of them
          have hone : depth = 1 := by
            have hdepth' := (unitsIn?_eq_some_iff hlead).mpr hdepth
            have hone' : unitsIn? (indentation raw) (indentation raw) = some 1 :=
              (unitsIn?_eq_some_iff hlead).mpr (by simp)
            exact Option.some.inj (hdepth'.symm.trans hone')
          rw [if_neg (by simpa using hu.unmixed), hone]
          exact map_cons_eq_ok_iff.mpr
            ⟨lines, (tabulateFrom_some_eq_ok_iff hlead).mpr hlines, rfl⟩

/-- **What can be tabulated**: the first line is not indented, the first indentation can serve as
a unit, and every line is indented by some units. -/
theorem tabulate_eq_ok_iff {template : List Char} {lines : List Line} :
    tabulate template = .ok lines ↔
      ∃ unit, IsUnit unit ∧ (∀ lead ∈ firstIndentation? (keptLines template), lead = unit) ∧
        (∀ line ∈ (keptLines template).head?, indentation line.1 = []) ∧
        List.Forall₂ (Tabulated unit) (keptLines template) lines := by
  unfold tabulate
  cases keptLines template with
  | nil =>
      -- no line is kept, so any unit will do: the case of no lines before the unit is fixed
      show tabulateFrom none [] = _ ↔ _
      rw [tabulateFrom_none_eq_ok_iff]
      simp
  | cons line rest =>
      obtain ⟨raw, number⟩ := line
      dsimp only
      by_cases hlead : indentation raw = []
      · rw [hlead, List.isEmpty_nil, if_pos rfl, ← tabulateFrom_unindented none hlead,
          tabulateFrom_none_eq_ok_iff]
        simp [hlead]
      · rw [if_neg (by simpa using hlead)]
        constructor
        · intro h
          cases h
        · rintro ⟨_, -, -, hhead, -⟩
          exact absurd (hhead _ rfl) hlead

end Stylesheet
