import Stylesheet.Line.Regrouping
import Stylesheet.Proofs.Results

/-!
# Regrouping is the inverse of flattening

A forest is levelled if every line stands one deeper than the line it is nested beneath. Such a
forest is determined by its lines in source order, and regrouping finds it again; whatever
regrouping gives is levelled and has lost nothing.

* `levelled_of_level`, `level_flattenAll` : the two directions for one level.
* `regroup_eq_ok_iff` : regrouping gives exactly the levelled forest of the lines.
-/

namespace Stylesheet

/-- A forest of lines at the depth `base`, each nested line one deeper than the line above it. -/
inductive Levelled : Int → List Line → Prop
  | nil {base : Int} : Levelled base []
  | cons {base : Int} {text : String} {index : Int} {children rest : List Line} :
      Levelled (base + 1) children → Levelled base rest →
      Levelled base (⟨text, base, index, children⟩ :: rest)

namespace Line

@[simp] theorem flattenAll_nil : flattenAll [] = [] := by
  simp [flattenAll]

@[simp] theorem flattenAll_cons (text : String) (depth index : Int) (children rest : List Line) :
    flattenAll (⟨text, depth, index, children⟩ :: rest) =
      ⟨text, depth, index, []⟩ :: (flattenAll children ++ flattenAll rest) := by
  simp [flattenAll, flatten]

end Line

open Line

namespace Levelled

variable {base : Int} {forest : List Line}

/-- The first line of a levelled forest stands at its base. -/
theorem depth_head (h : Levelled base forest) {line : Line}
    (hline : line ∈ (flattenAll forest).head?) : line.depth = base := by
  cases h with
  | nil => simp at hline
  | cons _ _ =>
      simp only [flattenAll_cons, List.head?_cons, Option.mem_def, Option.some.injEq] at hline
      rw [← hline]

/-- No line of a levelled forest is shallower than its base. -/
theorem le_depth (h : Levelled base forest) : ∀ line ∈ flattenAll forest, base ≤ line.depth := by
  induction h with
  | nil => simp
  | @cons base text index children rest _ _ ihch ihrest =>
      intro line hline
      rw [flattenAll_cons, List.mem_cons, List.mem_append] at hline
      rcases hline with rfl | hline | hline
      · exact Int.le_refl _
      · have := ihch line hline
        omega
      · exact ihrest line hline

/-- Flattening leaves no line with others nested beneath it. -/
theorem childless (h : Levelled base forest) : ∀ line ∈ flattenAll forest, line.children = [] := by
  induction h with
  | nil => simp
  | cons _ _ ihch ihrest =>
      intro line hline
      rw [flattenAll_cons, List.mem_cons, List.mem_append] at hline
      rcases hline with rfl | hline | hline
      · rfl
      · exact ihch line hline
      · exact ihrest line hline

/-- The first line that does not stand at the base of a levelled forest stands one deeper. -/
theorem depth_le_of_first (h : Levelled base forest) {xs ys : List Line} {line : Line}
    (hflat : flattenAll forest = xs ++ line :: ys) (hxs : ∀ x ∈ xs, x.depth = base) :
    line.depth ≤ base + 1 := by
  induction h generalizing xs with
  | nil => simp at hflat
  | @cons base text index children rest hch hrest ihch ihrest =>
      rw [flattenAll_cons] at hflat
      cases xs with
      | nil =>
          cases hflat
          show base ≤ base + 1
          omega
      | cons x xs =>
          rw [List.cons_append, List.cons.injEq] at hflat
          cases hch with
          | nil => exact ihrest hflat.2 fun x hx => hxs x (List.mem_cons_of_mem _ hx)
          | cons _ _ =>
              obtain ⟨-, hnested⟩ := hflat
              rw [flattenAll_cons, List.cons_append] at hnested
              cases xs with
              | nil =>
                  have hline : line.depth = base + 1 := by rw [← (List.cons.inj hnested).1]
                  omega
              | cons x' xs =>
                  -- a nested line comes first, and it is deeper
                  have hx' : x'.depth = base := hxs x' (by simp)
                  rw [← (List.cons.inj hnested).1] at hx'
                  dsimp only at hx'
                  omega

end Levelled

/-- Lines that end a level: none, or a shallower one first. -/
def EndsLevel (base : Int) (rest : List Line) : Prop :=
  ∀ line ∈ rest.head?, line.depth < base

theorem endsLevel_append {base : Int} {forest rest : List Line} (h : Levelled base forest)
    (hrest : EndsLevel base rest) : EndsLevel (base + 1) (flattenAll forest ++ rest) := by
  intro line hline
  cases h with
  | nil =>
      have := hrest line hline
      omega
  | cons _ _ =>
      rw [flattenAll_cons, List.cons_append, List.head?_cons] at hline
      cases hline
      show base < base + 1
      omega

theorem Levelled.endsLevel {base : Int} {forest : List Line} (h : Levelled base forest) :
    EndsLevel (base + 1) (flattenAll forest) := by
  have hends := endsLevel_append h (show EndsLevel base [] by simp [EndsLevel])
  rwa [List.append_nil] at hends

/-! ## One level -/

/-- The sibling lines at a depth and the lines after them. -/
def level (base : Int) (lines : List Line) : Except Diagnostic (List Line × List Line) :=
  (siblings base lines).map fun (forest, rest) => (forest, rest.1)

theorem level_nil (base : Int) : level base [] = .ok ([], []) := by
  unfold level
  rw [siblings.eq_def]
  rfl

theorem level_shallow {base : Int} {line : Line} (after : List Line) (h : line.depth < base) :
    level base (line :: after) = .ok ([], line :: after) := by
  unfold level
  rw [siblings.eq_def]
  dsimp only
  rw [if_pos h]
  rfl

theorem level_last {base : Int} {line : Line} (h : ¬ line.depth < base) :
    level base [line] = .ok ([line], []) := by
  unfold level
  rw [siblings.eq_def]
  dsimp only
  rw [if_neg h]
  rfl

section

variable {base : Int} {line next : Line} (later : List Line) (h : ¬ line.depth < base)
include h

/-- The next line is a sibling. -/
theorem level_sibling (hnext : next.depth ≤ base) :
    level base (line :: next :: later) = (do
      let (lines, rest) ← level base (next :: later)
      pure (line :: lines, rest)) := by
  unfold level
  rw [siblings.eq_def]
  dsimp only
  rw [if_neg h, if_pos hnext]
  rcases siblings base (next :: later) with _ | ⟨_, _, _⟩ <;> rfl

/-- The next line is indented too deep. -/
theorem level_jump (hnext : ¬ next.depth ≤ base) (hjump : base + 1 < next.depth) :
    level base (line :: next :: later) =
      .error ((Fault.indentationJump (next.depth - base)).at next.index) := by
  unfold level
  rw [siblings.eq_def]
  dsimp only
  rw [if_neg h, if_neg hnext, if_pos hjump]
  rfl

/-- The next line is nested beneath the first one. -/
theorem level_nested (hnext : ¬ next.depth ≤ base) (hjump : ¬ base + 1 < next.depth) :
    level base (line :: next :: later) = (do
      let (children, rest) ← level next.depth (next :: later)
      let (lines, rest) ← level base rest
      pure ({ line with children } :: lines, rest)) := by
  unfold level
  rw [siblings.eq_def]
  dsimp only
  rw [if_neg h, if_neg hnext, if_neg hjump]
  rcases siblings next.depth (next :: later) with _ | ⟨_, rest, _⟩
  · rfl
  · simp only [Except.map, bind, Except.bind]
    rcases siblings base rest with _ | ⟨_, _, _⟩ <;> rfl

end

/-- No more lines are left after a level than there were. -/
theorem length_le_of_level {base : Int} {lines forest rest : List Line}
    (h : level base lines = .ok (forest, rest)) : rest.length ≤ lines.length := by
  unfold level at h
  rcases hs : siblings base lines with d | ⟨found, left, hle⟩
  · rw [hs] at h
    cases h
  · rw [hs] at h
    cases h
    exact hle

/-- The first line of a level, as it is before anything is nested beneath it. -/
theorem first_eq {base : Int} {line : Line} {after : List Line}
    (hflat : ∀ line' ∈ line :: after, line'.children = [])
    (hhead : ∀ line' ∈ (line :: after).head?, line'.depth ≤ base) (h : ¬ line.depth < base) :
    ∃ text index, line = ⟨text, base, index, []⟩ := by
  obtain ⟨text, depth, index, children⟩ := line
  have hchildren : children = [] := hflat ⟨text, depth, index, children⟩ List.mem_cons_self
  have hdepth : depth ≤ base := hhead ⟨text, depth, index, children⟩ rfl
  have heq : depth = base := by
    dsimp only at h
    omega
  exact ⟨text, index, by rw [hchildren, heq]⟩

/-- What siblings are regrouped to is levelled, and with the lines that are left over it is the
lines that were there. The induction is on the recursion of `siblings`. -/
theorem levelled_of_level (base : Int) (lines : List Line)
    (hflat : ∀ line ∈ lines, line.children = []) (hhead : ∀ line ∈ lines.head?, line.depth ≤ base)
    {forest rest : List Line} (h : level base lines = .ok (forest, rest)) :
    Levelled base forest ∧ flattenAll forest ++ rest = lines ∧ EndsLevel base rest := by
  induction base, lines using siblings.induct generalizing forest rest with
  | case1 base =>
      rw [level_nil] at h
      cases h
      exact ⟨.nil, by simp, by simp [EndsLevel]⟩
  | case2 base line later hshallow =>
      rw [level_shallow later hshallow] at h
      cases h
      exact ⟨.nil, by simp, by simpa [EndsLevel] using hshallow⟩
  | case3 base line hdeep =>
      obtain ⟨text, index, rfl⟩ := first_eq hflat hhead hdeep
      rw [level_last hdeep] at h
      cases h
      exact ⟨.cons .nil .nil, by simp, by simp [EndsLevel]⟩
  | case4 base line hdeep next later hnext ih =>
      obtain ⟨text, index, rfl⟩ := first_eq hflat hhead hdeep
      rw [level_sibling later hdeep hnext] at h
      obtain ⟨⟨lines, left⟩, hrec, hpure⟩ := bind_eq_ok_iff.mp h
      cases hpure
      obtain ⟨hl, hlines, hends⟩ := ih (fun l hl => hflat l (by simp [hl])) (by simpa using hnext)
        hrec
      exact ⟨.cons .nil hl, by simp [hlines], hends⟩
  | case5 base line hdeep next later hnext hjump =>
      rw [level_jump later hdeep hnext hjump] at h
      cases h
  | case6 base line hdeep next later hnext hjump ihch ihrest =>
      obtain ⟨text, index, rfl⟩ := first_eq hflat hhead hdeep
      -- a nested line is deeper, and not by more than one
      have hone : next.depth = base + 1 := by omega
      rw [level_nested later hdeep hnext hjump] at h
      obtain ⟨⟨children, left⟩, hrec, h⟩ := bind_eq_ok_iff.mp h
      obtain ⟨⟨lines, left'⟩, hrec', hpure⟩ := bind_eq_ok_iff.mp h
      cases hpure
      obtain ⟨hch, hchildren, hleft⟩ := ihch (fun l hl => hflat l (by simp [hl])) (by simp) hrec
      have hsuffix : left <:+ next :: later := ⟨_, hchildren⟩
      obtain ⟨hl, hlines, hends⟩ := ihrest left hsuffix.length_le
        (fun l hl => hflat l (by simp [hsuffix.subset hl]))
        (fun l hl => by have := hleft l hl; omega) hrec'
      rw [hone] at hch
      exact ⟨.cons hch hl, by simp [hlines, hchildren], hends⟩

/-- A levelled forest is found again from its lines in source order. -/
theorem level_flattenAll {base : Int} {forest rest : List Line} (h : Levelled base forest)
    (hrest : EndsLevel base rest) : level base (flattenAll forest ++ rest) = .ok (forest, rest) := by
  induction h generalizing rest with
  | nil =>
      cases rest with
      | nil => exact level_nil _
      | cons line after => exact level_shallow after (hrest line rfl)
  | @cons base text index children forest hch hforest ihch ihforest =>
      have hafter : EndsLevel (base + 1) (flattenAll forest ++ rest) :=
        endsLevel_append hforest hrest
      rw [flattenAll_cons, List.cons_append, List.append_assoc]
      -- what is read next is a nested line if there is one
      cases hch with
      | nil =>
          rw [flattenAll_nil, List.nil_append]
          have hrec := ihforest hrest
          cases hlines : flattenAll forest ++ rest with
          | nil =>
              rw [hlines, level_nil] at hrec
              cases hrec
              exact level_last (by simp)
          | cons next later =>
              rw [hlines] at hrec
              have hnext : next.depth < base + 1 := hafter next (by simp [hlines])
              rw [level_sibling later (by simp) (by omega), hrec]
              rfl
      | @cons text' index' children' siblings' _ _ =>
          have hrec := ihch hafter
          rw [flattenAll_cons, List.cons_append] at hrec ⊢
          rw [level_nested _ (by simp) (Int.not_le.mpr (Int.lt_succ base)) (by simp), hrec]
          show (do let (lines, rest) ← level base (flattenAll forest ++ rest); pure _) = _
          rw [ihforest hrest]
          rfl

/-! ## From the first line on -/

theorem regroup_cons (line : Line) (after : List Line) :
    regroup (line :: after) 0 = (do
      let (forest, rest) ← level line.depth (line :: after)
      pure (forest, (line :: after).length - rest.length)) := by
  unfold regroup level
  rw [List.drop_zero]
  dsimp only
  rcases siblings line.depth (line :: after) with _ | ⟨_, _, _⟩ <;> rfl

/-- Lines of which the first one is unindented are regrouped to their levelled forest. -/
theorem regroup_eq_ok_iff {lines forest : List Line} (hflat : ∀ line ∈ lines, line.children = [])
    (hhead : ∀ line ∈ lines.head?, line.depth = 0) (hdepth : ∀ line ∈ lines, 0 ≤ line.depth) :
    (∃ position, regroup lines 0 = .ok (forest, position)) ↔
      Levelled 0 forest ∧ flattenAll forest = lines := by
  cases lines with
  | nil =>
      constructor
      · rintro ⟨position, h⟩
        cases h
        exact ⟨.nil, flattenAll_nil⟩
      · rintro ⟨h, hlines⟩
        cases h with
        | nil => exact ⟨0, rfl⟩
        | cons _ _ => simp at hlines
  | cons line after =>
      have hline : line.depth = 0 := hhead line rfl
      rw [regroup_cons, hline]
      constructor
      · rintro ⟨position, h⟩
        rcases hlevel : level 0 (line :: after) with d | ⟨found, rest⟩
        · rw [hlevel] at h
          cases h
        · rw [hlevel] at h
          cases h
          obtain ⟨hl, hlines, hends⟩ := levelled_of_level 0 (line :: after) hflat
            (fun l hl => Int.le_of_eq (hhead l hl)) hlevel
          -- nothing is left over: no line is shallower than the first one
          cases rest with
          | nil => exact ⟨hl, by simpa using hlines⟩
          | cons left more =>
              have hleft : left.depth < 0 := hends left rfl
              have := hdepth left (by rw [← hlines]; simp)
              omega
      · rintro ⟨hl, hlines⟩
        have hlevel := level_flattenAll hl (show EndsLevel 0 [] by simp [EndsLevel])
        rw [List.append_nil, hlines] at hlevel
        rw [hlevel]
        exact ⟨_, rfl⟩

end Stylesheet
