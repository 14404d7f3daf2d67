import Mathlib
import Stylesheet.Proofs.Line.Regrouping

/-!
# Where a level ends and where it is refused

A level goes from its first line to the next line that is shallower than that one. It is regrouped
exactly if every line in it stands at most one deeper than the line right before it. Regrouping only
ever compares a line with the base of the level that it is reading; the first line that is too deep for
that base comes right after a line at the base, so that it is also the first one that is too deep for
the line before it, and by as many levels as are told.

* `tellsJump_of_level` : what a level is refused for.
* `regroup_steady_or_jump` : regrouping from any line on.
-/

namespace Stylesheet

open Line

/-! ## Jumps -/

/-- A line that stands at most one deeper than the line before it. -/
def Line.StepsTo (previous line : Line) : Prop :=
  line.depth ≤ previous.depth + 1

/-- Lines each of which stands at most one deeper than the line before it. -/
def Steady (lines : List Line) : Prop :=
  lines.IsChain Line.StepsTo

/-- The first line that stands more than one deeper than the line before it, with that line. -/
inductive FirstJump : List Line → Line → Line → Prop
  | here {previous line : Line} {after : List Line} :
      ¬ previous.StepsTo line → FirstJump (previous :: line :: after) previous line
  | later {first second previous line : Line} {after : List Line} :
      first.StepsTo second → FirstJump (second :: after) previous line →
      FirstJump (first :: second :: after) previous line

namespace FirstJump

variable {xs ys : List Line} {previous line : Line}

theorem not_steady (h : FirstJump xs previous line) : ¬ Steady xs := by
  induction h with
  | here hjump => exact fun hsteady => hjump (List.isChain_cons_cons.mp hsteady).1
  | later _ _ ih => exact fun hsteady => ih (List.isChain_cons_cons.mp hsteady).2

theorem unique (h : FirstJump xs previous line) {previous' line' : Line}
    (h' : FirstJump xs previous' line') : previous = previous' ∧ line = line' := by
  induction h with
  | here hjump =>
      cases h' with
      | here _ => exact ⟨rfl, rfl⟩
      | later hstep _ => exact absurd hstep hjump
  | later hstep _ ih =>
      cases h' with
      | here hjump => exact absurd hstep hjump
      | later _ h' => exact ih h'

/-- Lines that come after a jump do not matter. -/
theorem append_right (h : FirstJump xs previous line) (ys : List Line) :
    FirstJump (xs ++ ys) previous line := by
  induction h with
  | here hjump => exact .here hjump
  | later hstep _ ih => exact .later hstep ih

/-- Steady lines before a jump do not matter, if the step from them is no jump. -/
theorem append_left (h : FirstJump ys previous line) (hsteady : Steady xs)
    (hstep : ∀ x ∈ xs.getLast?, ∀ y ∈ ys.head?, x.StepsTo y) :
    FirstJump (xs ++ ys) previous line := by
  induction xs with
  | nil => exact h
  | cons x xs ih =>
      cases xs with
      | nil =>
          cases h with
          | here hjump => exact .later (hstep x rfl _ rfl) (.here hjump)
          | later hstep' h => exact .later (hstep x rfl _ rfl) (.later hstep' h)
      | cons x' xs =>
          obtain ⟨hfirst, hrest⟩ := List.isChain_cons_cons.mp hsteady
          exact .later hfirst (ih hrest (by simpa [List.getLast?_cons_cons] using hstep))

end FirstJump

/-! ## One level -/

/-- From lines at or beneath a base there is no jump to a line that ends the level one deeper. -/
theorem stepsTo_of_endsLevel {base : Int} {xs ys : List Line} (hxs : ∀ x ∈ xs, base ≤ x.depth)
    (hys : EndsLevel (base + 1) ys) : ∀ x ∈ xs.getLast?, ∀ y ∈ ys.head?, x.StepsTo y := by
  intro x hx y hy
  have hdepth := hxs x (List.mem_of_getLast? hx)
  have hends := hys y hy
  show y.depth ≤ x.depth + 1
  omega

/-- The lines of a levelled forest are steady. -/
theorem Levelled.steady {base : Int} {forest : List Line} (h : Levelled base forest) :
    Steady (flattenAll forest) := by
  induction h with
  | nil => exact .nil
  | @cons base text index children rest hch hrest ihch ihrest =>
      have hdeeper : ∀ line ∈ flattenAll children, base ≤ line.depth := fun line hline => by
        have := hch.le_depth line hline
        omega
      have hbelow : ∀ line ∈ (flattenAll children).head?, line.depth ≤ base + 1 := fun line hline => by
        rw [hch.depth_head hline]
      -- the next line is the first nested one, or the next sibling
      have hafter : ∀ line ∈ (flattenAll children ++ flattenAll rest).head?,
          line.depth ≤ base + 1 := by
        intro line hline
        cases hnested : flattenAll children with
        | nil =>
            rw [hnested, List.nil_append] at hline
            have := hrest.depth_head hline
            omega
        | cons nested more =>
            rw [hnested, List.cons_append] at hline
            exact hbelow line (by rw [hnested]; exact hline)
      rw [flattenAll_cons]
      exact List.isChain_cons.mpr ⟨hafter, List.isChain_append.mpr
        ⟨ihch, ihrest, stepsTo_of_endsLevel hdeeper hrest.endsLevel⟩⟩

/-- A diagnostic for the first jump of lines, which comes before a line that is shallower than a base. -/
def TellsJump (base : Int) (lines : List Line) (d : Diagnostic) : Prop :=
  ∃ xs ys previous line, lines = xs ++ ys ∧ (∀ x ∈ xs, base ≤ x.depth) ∧
    FirstJump xs previous line ∧
    d = (Fault.indentationJump (line.depth - previous.depth)).at line.index

/-- The first jump stays the first one after steady lines at or beneath the base. -/
theorem TellsJump.after {base base' : Int} {rest : List Line} {d : Diagnostic}
    (h : TellsJump base' rest d) (before : List Line) (hbase : base ≤ base')
    (hbefore : ∀ x ∈ before, base ≤ x.depth) (hsteady : Steady before)
    (hstep : ∀ x ∈ before.getLast?, ∀ y ∈ rest.head?, x.StepsTo y) :
    TellsJump base (before ++ rest) d := by
  obtain ⟨xs, ys, previous, line, rfl, hxs, hjump, rfl⟩ := h
  refine ⟨before ++ xs, ys, previous, line, (List.append_assoc _ _ _).symm, ?_,
    hjump.append_left hsteady ?_, rfl⟩
  · exact List.forall_mem_append.mpr ⟨hbefore, fun x hx => hbase.trans (hxs x hx)⟩
  · exact fun x hx y hy => hstep x hx y (List.mem_head?_append_of_mem_head? hy)

/-- **A level is refused for its first jump**, which lies before the level ends. The induction is on the
recursion of `siblings`. -/
theorem tellsJump_of_level (base : Int) (lines : List Line)
    (hflat : ∀ line ∈ lines, line.children = []) (hhead : ∀ line ∈ lines.head?, line.depth ≤ base)
    {d : Diagnostic} (h : level base lines = .error d) : TellsJump base lines d := by
  induction base, lines using siblings.induct generalizing d with
  | case1 base =>
      rw [level_nil] at h
      cases h
  | case2 base line later hshallow =>
      rw [level_shallow later hshallow] at h
      cases h
  | case3 base line hdeep =>
      rw [level_last hdeep] at h
      cases h
  | case4 base line hdeep next later hnext ih =>
      rw [level_sibling later hdeep hnext] at h
      rcases error_of_bind h with hrec | ⟨_, -, hpure⟩
      · -- the next line is a sibling, so that the step to it is no jump
        have htold := ih (fun l hl => hflat l (by simp [hl])) (by simpa using hnext) hrec
        refine htold.after [line] (Int.le_refl base) (by simpa using hdeep) (.singleton line) ?_
        rintro _ ⟨⟩ _ ⟨⟩
        show next.depth ≤ line.depth + 1
        omega
      · cases hpure
  | case5 base line hdeep next later hnext hjump =>
      -- the line before the jump is at the base, so that both excesses are the same
      obtain ⟨text, index, rfl⟩ := first_eq hflat hhead hdeep
      rw [level_jump later hdeep hnext hjump] at h
      cases h
      refine ⟨[_, next], later, _, next, rfl, ?_, .here (Int.not_le.mpr hjump), rfl⟩
      simp only [List.forall_mem_cons]
      exact ⟨Int.le_refl base, by omega, by simp⟩
  | case6 base line hdeep next later hnext hjump ihch ihrest =>
      obtain ⟨text, index, rfl⟩ := first_eq hflat hhead hdeep
      have hone : next.depth = base + 1 := by omega
      rw [level_nested later hdeep hnext hjump] at h
      rcases error_of_bind h with hrec | ⟨⟨children, left⟩, hrec, h⟩
      · -- what is nested beneath the line is refused
        have htold := ihch (fun l hl => hflat l (by simp [hl])) (by simp) hrec
        refine htold.after [_] (by omega) (by simp) (.singleton _) ?_
        rintro _ ⟨⟩ _ ⟨⟩
        exact hone.le
      · rcases error_of_bind h with hrec' | ⟨_, -, hpure⟩
        · -- what comes after is refused
          obtain ⟨hch, hchildren, hleft⟩ := levelled_of_level next.depth (next :: later)
            (fun l hl => hflat l (by simp [hl])) (by simp) hrec
          have hsuffix : left <:+ next :: later := ⟨_, hchildren⟩
          have htold := ihrest left hsuffix.length_le
            (fun l hl => hflat l (by simp [hsuffix.subset hl]))
            (fun l hl => by have := hleft l hl; omega) hrec'
          rw [hone] at hch hleft
          have htree : Levelled base [⟨text, base, index, children⟩] := .cons hch .nil
          have hlines : (⟨text, base, index, []⟩ : Line) :: next :: later =
              flattenAll [⟨text, base, index, children⟩] ++ left := by simp [← hchildren]
          rw [hlines]
          exact htold.after _ (Int.le_refl base) htree.le_depth htree.steady
            (stepsTo_of_endsLevel htree.le_depth hleft)
        · cases hpure

/-! ## From any line on -/

/-- Regrouping from a line on is reading the level of its depth. -/
theorem regroup_eq_level {lines : List Line} {start : Nat} (hstart : start < lines.length) :
    regroup lines start = (level lines[start].depth (lines.drop start)).map fun result =>
      (result.1, lines.length - result.2.length) := by
  unfold regroup level
  rw [List.drop_eq_getElem_cons hstart]
  dsimp only
  rcases siblings lines[start].depth (lines[start] :: lines.drop (start + 1)) with _ | ⟨_, _, _⟩ <;>
    rfl

/-- Lines at or beneath a base up to one that ends the level. -/
theorem takeWhile_level {base : Int} {xs ys : List Line} (hxs : ∀ x ∈ xs, base ≤ x.depth)
    (hys : EndsLevel base ys) : (xs ++ ys).takeWhile (fun line => base ≤ line.depth) = xs := by
  rw [List.takeWhile_append_of_pos (by simpa using hxs)]
  cases ys with
  | nil => simp
  | cons y ys =>
      have hy : y.depth < base := hys y rfl
      rw [List.takeWhile_cons_of_neg (by simpa using hy), List.append_nil]

section

variable {lines : List Line} {start : Nat}

/-- The lines of the level that starts at a position. -/
def levelFrom (lines : List Line) (start : Nat) (h : start < lines.length) : List Line :=
  (lines.drop start).takeWhile fun line => lines[start].depth ≤ line.depth

/-- A level is regrouped, or refused for its first jump. -/
theorem regroup_cases (hflat : ∀ line ∈ lines, line.children = []) (hstart : start < lines.length) :
    (∃ forest, regroup lines start = .ok (forest, start + (levelFrom lines start hstart).length) ∧
      flattenAll forest = levelFrom lines start hstart ∧ Levelled lines[start].depth forest) ∨
    ∃ previous line, FirstJump (levelFrom lines start hstart) previous line ∧
      regroup lines start =
        .error ((Fault.indentationJump (line.depth - previous.depth)).at line.index) := by
  have hflat' : ∀ line ∈ lines.drop start, line.children = [] :=
    fun line hline => hflat line (List.mem_of_mem_drop hline)
  have hhead : ∀ line ∈ (lines.drop start).head?, line.depth ≤ lines[start].depth := by
    rw [List.drop_eq_getElem_cons hstart]
    rintro _ ⟨⟩
    exact Int.le_refl _
  rw [regroup_eq_level hstart, levelFrom]
  rcases hlevel : level lines[start].depth (lines.drop start) with d | ⟨forest, rest⟩
  · obtain ⟨xs, ys, previous, line, hlines, hxs, hjump, rfl⟩ :=
      tellsJump_of_level _ _ hflat' hhead hlevel
    refine .inr ⟨previous, line, ?_, rfl⟩
    rw [hlines, List.takeWhile_append_of_pos (by simpa using hxs)]
    exact hjump.append_right _
  · obtain ⟨hforest, hlines, hends⟩ := levelled_of_level _ _ hflat' hhead hlevel
    have hlength : (flattenAll forest).length + rest.length = lines.length - start := by
      rw [← List.length_append, hlines, List.length_drop]
    -- what is left over is counted off to tell the position
    have hstop : lines.length - rest.length = start + (flattenAll forest).length := by omega
    refine .inl ⟨forest, ?_, ?_, hforest⟩
    · rw [← hlines, takeWhile_level hforest.le_depth hends, ← hstop]
      rfl
    · rw [← hlines, takeWhile_level hforest.le_depth hends]

/-- A level is refused for its first jump and for nothing else. -/
theorem regroup_eq_error_iff (hflat : ∀ line ∈ lines, line.children = [])
    (hstart : start < lines.length) {d : Diagnostic} :
    regroup lines start = .error d ↔
      ∃ previous line, FirstJump (levelFrom lines start hstart) previous line ∧
        d = (Fault.indentationJump (line.depth - previous.depth)).at line.index := by
  rcases regroup_cases hflat hstart with ⟨forest, hok, hforest, hlevelled⟩ |
    ⟨previous, line, hjump, herror⟩
  · rw [hok, ← hforest]
    constructor
    · rintro ⟨⟩
    · rintro ⟨previous, line, hjump, -⟩
      exact absurd hlevelled.steady hjump.not_steady
  · rw [herror]
    constructor
    · rintro ⟨⟩
      exact ⟨previous, line, hjump, rfl⟩
    · rintro ⟨previous', line', hjump', rfl⟩
      obtain ⟨rfl, rfl⟩ := hjump.unique hjump'
      rfl

/-- A level goes from its first line to the line before the next shallower one. -/
theorem levelFrom_spans (hstart : start < lines.length) :
    let stop := start + (levelFrom lines start hstart).length
    start < stop ∧ stop ≤ lines.length ∧ (lines.take stop).drop start = levelFrom lines start hstart ∧
      (∀ line ∈ levelFrom lines start hstart, lines[start].depth ≤ line.depth) ∧
      ∀ line ∈ lines[stop]?, line.depth < lines[start].depth := by
  intro stop
  have hfirst : 0 < (levelFrom lines start hstart).length := by
    rw [levelFrom, List.drop_eq_getElem_cons hstart, List.takeWhile_cons_of_pos (by simp)]
    simp
  have hlength : (levelFrom lines start hstart).length ≤ lines.length - start := by
    rw [← List.length_drop]
    exact (List.takeWhile_prefix _).length_le
  refine ⟨by omega, by omega, ?_, fun line hline => ?_, fun line hline => ?_⟩
  · rw [List.drop_take, show stop - start = (levelFrom lines start hstart).length by omega]
    exact (List.prefix_iff_eq_take.mp (List.takeWhile_prefix _)).symm
  · simpa using List.all_eq_true.mp List.all_takeWhile line hline
  · -- the line at `stop` is the first one that the level leaves
    let inLevel (line : Line) : Bool := lines[start].depth ≤ line.depth
    have hnext : lines[stop]? = ((lines.drop start).dropWhile inLevel).head? := by
      have hsplit : levelFrom lines start hstart ++ (lines.drop start).dropWhile inLevel =
          lines.drop start := List.takeWhile_append_dropWhile
      calc lines[stop]?
          _ = (lines.drop start)[(levelFrom lines start hstart).length]? :=
            List.getElem?_drop.symm
          _ = (levelFrom lines start hstart ++ (lines.drop start).dropWhile inLevel)[
                (levelFrom lines start hstart).length]? := by rw [hsplit]
          _ = ((lines.drop start).dropWhile inLevel).head? := by
            rw [List.getElem?_append_right (Nat.le_refl _), Nat.sub_self, List.head?_eq_getElem?]
    have hend := List.head?_dropWhile_not inLevel (lines.drop start)
    rw [← hnext, Option.mem_def.mp hline] at hend
    simpa [inLevel] using hend

/-- **Regrouping from any line on.** The level of the line goes up to the first line after it that is
shallower, or to the end. It is regrouped exactly if none of its lines stands more than one deeper than
the line before it: to the levelled forest of just these lines, and the position after them. Otherwise
the first such line is told, with the number of levels by which it is deeper than the line before it. -/
theorem regroup_steady_or_jump (hflat : ∀ line ∈ lines, line.children = [])
    (hstart : start < lines.length) :
    let base := lines[start].depth
    let here := levelFrom lines start hstart
    let stop := start + here.length
    (start < stop ∧ stop ≤ lines.length ∧ (lines.take stop).drop start = here ∧
      (∀ line ∈ here, base ≤ line.depth) ∧ ∀ line ∈ lines[stop]?, line.depth < base) ∧
    ((∃ result, regroup lines start = .ok result) ↔ Steady here) ∧
    (∀ forest position, regroup lines start = .ok (forest, position) →
      position = stop ∧ flattenAll forest = here ∧ Levelled base forest) ∧
    (∀ d, regroup lines start = .error d ↔ ∃ previous line, FirstJump here previous line ∧
      d = (Fault.indentationJump (line.depth - previous.depth)).at line.index) := by
  intro base here stop
  refine ⟨levelFrom_spans hstart, ?_, ?_, fun d => regroup_eq_error_iff hflat hstart⟩
  · rcases regroup_cases hflat hstart with ⟨forest, hok, hforest, hlevelled⟩ |
      ⟨previous, line, hjump, herror⟩
    · have hsteady : Steady here := by
        rw [show here = flattenAll forest from hforest.symm]
        exact hlevelled.steady
      rw [hok]
      exact ⟨fun _ => hsteady, fun _ => ⟨_, rfl⟩⟩
    · rw [herror]
      refine ⟨?_, fun hsteady => absurd hsteady hjump.not_steady⟩
      rintro ⟨_, ⟨⟩⟩
  · intro forest position hregroup
    rcases regroup_cases hflat hstart with ⟨_, hok, hforest, hlevelled⟩ | ⟨_, _, -, herror⟩
    · rw [hok] at hregroup
      cases hregroup
      exact ⟨rfl, hforest, hlevelled⟩
    · rw [herror] at hregroup
      cases hregroup

end

/-- From the second line on the level is deeper than the first line. The jump is told relative to the line
before it, which ends what was nested. -/
theorem regroup_of_jump_after_nested_line :
    let line (depth index : Int) : Line := ⟨"x", depth, index, []⟩
    let lines := [line 0 1, line 2 2, line 3 3, line 2 4, line 5 5, line 1 6]
    (∀ l ∈ lines, l.children = []) ∧ 1 < lines.length ∧
      regroup lines 1 = .error ((Fault.indentationJump 3).at (some 5)) := by
  intro line lines
  have hflat : ∀ l ∈ lines, l.children = [] := by simp [lines, line]
  have hstart : 1 < lines.length := by simp [lines]
  have hlevel : levelFrom lines 1 hstart = [line 2 2, line 3 3, line 2 4, line 5 5] := by
    simp [levelFrom, lines, line]
  have hjump : FirstJump (levelFrom lines 1 hstart) (line 2 4) (line 5 5) := by
    rw [hlevel]
    refine .later ?_ (.later ?_ (.here ?_)) <;> simp [Line.StepsTo, line]
  obtain ⟨-, -, -, herror⟩ := regroup_steady_or_jump hflat hstart
  exact ⟨hflat, hstart, (herror _).mpr ⟨_, _, hjump, rfl⟩⟩

end Stylesheet
