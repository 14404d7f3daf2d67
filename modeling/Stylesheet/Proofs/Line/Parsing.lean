import Stylesheet.Proofs.Line.Regrouping
import Stylesheet.Proofs.Line.Tabulation

/-!
# What templates are parsed to

The two passes of parsing taken together: a template is parsed to a forest exactly if the forest is
levelled and its lines in source order are the kept lines of the template, indented by units. Of
the conditions on the first line and on the unit nothing is left over, because a levelled forest
starts at depth zero and gets deeper by one at first.

* `parseLines_eq_ok_iff` : the forest of a template.
* `Line.Within.exists_kept` : every line in it is a kept line of the template.
-/

namespace Stylesheet

open Line

/-- What holds of one side of related lists holds of the other side. -/
theorem forall_mem_of_forall₂ {α β : Type} {R : α → β → Prop} {P : α → Prop} {Q : β → Prop}
    {xs : List α} {ys : List β} (h : List.Forall₂ R xs ys) (hxs : ∀ x ∈ xs, P x)
    (hPQ : ∀ x y, R x y → P x → Q y) : ∀ y ∈ ys, Q y := by
  induction h with
  | nil => simp
  | cons hxy _ ih =>
      rintro y (_ | ⟨_, hy⟩)
      · exact hPQ _ _ hxy (hxs _ List.mem_cons_self)
      · exact ih (fun x hx => hxs x (List.mem_cons_of_mem _ hx)) y hy

theorem tabulated_plain {unit : List Char} {kept : List (List Char × Nat)} {lines : List Line}
    (h : List.Forall₂ (Tabulated unit) kept lines) :
    ∀ line ∈ lines, line.children = [] ∧ 0 ≤ line.depth := by
  refine forall_mem_of_forall₂ (P := fun _ => True) h (fun _ _ => trivial) ?_
  rintro line _ ⟨depth, -, rfl⟩ -
  exact ⟨rfl, Int.natCast_nonneg depth⟩

theorem tabulated_head {unit : List Char} (hu : unit ≠ []) {kept : List (List Char × Nat)}
    {lines : List Line} (h : List.Forall₂ (Tabulated unit) kept lines)
    (hhead : ∀ line ∈ kept.head?, indentation line.1 = []) :
    ∀ line ∈ lines.head?, line.depth = 0 := by
  cases h with
  | nil => simp
  | cons hline _ =>
      intro line hfirst
      cases hfirst
      rw [(tabulated_of_unindented hu (hhead _ rfl)).mp hline]
      rfl

/-- Kept lines that become the lines of a levelled forest start unindented. -/
theorem Levelled.unindented_head {unit : List Char} {forest : List Line}
    {kept : List (List Char × Nat)} (hu : unit ≠ []) (h : Levelled 0 forest)
    (hkept : List.Forall₂ (Tabulated unit) kept (flattenAll forest)) :
    ∀ line ∈ kept.head?, indentation line.1 = [] := by
  intro line hline
  generalize hlines : flattenAll forest = lines at hkept
  cases hkept with
  | nil => cases hline
  | cons hfirst _ =>
      cases hline
      obtain ⟨depth, hlead, rfl⟩ := hfirst
      have hzero : ((depth : Nat) : Int) = 0 := h.depth_head (by rw [hlines]; rfl)
      rw [hlead, flatten_replicate_eq_nil_iff hu]
      omega

/-- The first line that is indented, with what comes before it. -/
theorem exists_first_indented {unit lead : List Char} {kept : List (List Char × Nat)}
    {lines : List Line} (hu : unit ≠ []) (hkept : List.Forall₂ (Tabulated unit) kept lines)
    (hlead : firstIndentation? kept = some lead) :
    ∃ xs line ys, lines = xs ++ line :: ys ∧ (∀ x ∈ xs, x.depth = 0) ∧
      ∃ depth : Nat, lead = (List.replicate depth unit).flatten ∧ lead ≠ [] ∧
        line.depth = (depth : Int) := by
  induction hkept with
  | nil => cases hlead
  | @cons line flat rest lines hline _ ih =>
      rw [firstIndentation?_cons] at hlead
      split at hlead
      · next hnone =>
          obtain ⟨xs, first, ys, rfl, hxs, hfirst⟩ := ih hlead
          refine ⟨flat :: xs, first, ys, rfl, ?_, hfirst⟩
          rintro x (_ | ⟨_, hx⟩)
          · rw [(tabulated_of_unindented hu hnone).mp hline]
            rfl
          · exact hxs x hx
      · next hsome =>
          cases hlead
          obtain ⟨depth, hdepth, rfl⟩ := hline
          exact ⟨[], _, lines, rfl, by simp, depth, hdepth, hsome, rfl⟩

/-- The first indentation of kept lines that become the lines of a levelled forest is the unit. -/
theorem Levelled.eq_unit {unit : List Char} {forest : List Line}
    {kept : List (List Char × Nat)} (hu : unit ≠ []) (h : Levelled 0 forest)
    (hkept : List.Forall₂ (Tabulated unit) kept (flattenAll forest)) :
    ∀ lead ∈ firstIndentation? kept, lead = unit := by
  intro lead hlead
  obtain ⟨xs, line, ys, hflat, hxs, depth, rfl, hne, hdepth⟩ :=
    exists_first_indented hu hkept hlead
  have hle : line.depth ≤ 0 + 1 := h.depth_le_of_first hflat hxs
  have hpos : depth ≠ 0 := fun hzero => hne ((flatten_replicate_eq_nil_iff hu).mpr hzero)
  have hone : depth = 1 := by omega
  simp [hone]

/-- **What a template is parsed to.** -/
theorem parseLines_eq_ok_iff {template : List Char} {forest : List Line} :
    parseLines template = .ok forest ↔
      Levelled 0 forest ∧ ∃ unit, IsUnit unit ∧
        List.Forall₂ (Tabulated unit) (keptLines template) (flattenAll forest) := by
  have hparse : parseLines template = .ok forest ↔
      ∃ lines, tabulate template = .ok lines ∧ ∃ position, regroup lines 0 = .ok (forest, position) := by
    unfold parseLines
    rcases tabulate template with d | lines
    · simp [bind, Except.bind]
    · rcases hregroup : regroup lines 0 with d | ⟨found, position⟩
      · simp [bind, Except.bind, hregroup]
      · simp [bind, Except.bind, pure, Except.pure, hregroup]
  rw [hparse]
  constructor
  · rintro ⟨lines, htabulate, hregroup⟩
    obtain ⟨unit, hu, -, hhead, hlines⟩ := tabulate_eq_ok_iff.mp htabulate
    have hplain := tabulated_plain hlines
    obtain ⟨h, rfl⟩ := (regroup_eq_ok_iff (fun line hline => (hplain line hline).1)
      (tabulated_head hu.ne_nil hlines hhead) (fun line hline => (hplain line hline).2)).mp hregroup
    exact ⟨h, unit, hu, hlines⟩
  · rintro ⟨h, unit, hu, hlines⟩
    refine ⟨flattenAll forest, tabulate_eq_ok_iff.mpr
      ⟨unit, hu, h.eq_unit hu.ne_nil hlines, h.unindented_head hu.ne_nil hlines, hlines⟩, ?_⟩
    exact (regroup_eq_ok_iff h.childless (fun line hline => h.depth_head hline)
      h.le_depth).mpr ⟨h, rfl⟩

/-! ## The lines of a forest -/

/-- The lines of a forest are those of its trees. -/
theorem Line.mem_flattenAll_iff {line : Line} {lines : List Line} :
    line ∈ flattenAll lines ↔ ∃ above ∈ lines, line ∈ above.flatten := by
  induction lines with
  | nil => simp
  | cons above rest ih => simp [flattenAll, ih]

/-- The line is one of the lines or stands somewhere beneath one of them. -/
inductive Line.Within (line : Line) : List Line → Prop
  | here {lines : List Line} : line ∈ lines → Within line lines
  | beneath {above : Line} {lines : List Line} : above ∈ lines → Within line above.children →
      Within line lines

namespace Line.Within

variable {line : Line} {lines : List Line}

theorem trans {above : Line} (habove : above.Within lines) (h : line.Within above.children) :
    line.Within lines := by
  induction habove with
  | here hmem => exact .beneath hmem h
  | beneath hmem _ ih => exact .beneath hmem ih

theorem mono {more : List Line} (h : line.Within lines) (hmore : ∀ l ∈ lines, l ∈ more) :
    line.Within more := by
  cases h with
  | here hmem => exact .here (hmore _ hmem)
  | beneath hmem hline => exact .beneath (hmore _ hmem) hline

theorem mem_flattenAll (h : line.Within lines) :
    ⟨line.text, line.depth, line.index, []⟩ ∈ flattenAll lines := by
  induction h with
  | here hmem =>
      refine Line.mem_flattenAll_iff.mpr ⟨line, hmem, ?_⟩
      cases line
      simp [flatten]
  | @beneath above lines hmem _ ih =>
      refine Line.mem_flattenAll_iff.mpr ⟨above, hmem, ?_⟩
      cases above
      simp only [flatten, List.mem_cons]
      exact .inr ih

/-- A line of a parsed template has the number of a line of the source and its text without the
blanks around it. -/
theorem exists_kept {template : List Char} (hparse : parseLines template = .ok lines)
    (h : line.Within lines) :
    ∃ kept ∈ keptLines template, line.index = kept.2 ∧
      line.text = String.ofList (Text.trim kept.1) := by
  obtain ⟨-, unit, -, hlines⟩ := parseLines_eq_ok_iff.mp hparse
  have hkept : ∀ flat ∈ flattenAll lines, ∃ kept ∈ keptLines template, flat.index = kept.2 ∧
      flat.text = String.ofList (Text.trim kept.1) := by
    refine forall_mem_of_forall₂ (P := (· ∈ keptLines template)) hlines (fun _ h => h) ?_
    rintro kept flat ⟨depth, -, rfl⟩ hkept
    exact ⟨kept, hkept, rfl, rfl⟩
  have hline := hkept _ h.mem_flattenAll
  exact hline

end Line.Within

/-- The texts of flattened lines are those of the lines. -/
theorem Line.exists_within_of_mem_flattenAll {flat : Line} :
    ∀ {lines : List Line}, flat ∈ flattenAll lines →
      ∃ line : Line, line.Within lines ∧ flat.text = line.text
  | [], h => by cases h
  | ⟨text, depth, index, children⟩ :: rest, h => by
    rw [flattenAll_cons] at h
    rcases List.mem_cons.mp h with rfl | h
    · exact ⟨_, .here List.mem_cons_self, rfl⟩
    · rcases List.mem_append.mp h with h | h
      · obtain ⟨line, hline, htext⟩ := exists_within_of_mem_flattenAll h
        exact ⟨line, .beneath List.mem_cons_self hline, htext⟩
      · obtain ⟨line, hline, htext⟩ := exists_within_of_mem_flattenAll h
        exact ⟨line, hline.mono fun _ => List.mem_cons_of_mem _, htext⟩

theorem Line.within_nil {line : Line} : ¬ line.Within [] := by
  rintro (⟨hmem⟩ | ⟨hmem, _⟩) <;> cases hmem

theorem Line.within_cons_iff {line first : Line} {rest : List Line} :
    line.Within (first :: rest) ↔ line = first ∨ line.Within first.children ∨ line.Within rest := by
  constructor
  · rintro (hmem | ⟨hmem, hbeneath⟩)
    · exact (List.mem_cons.mp hmem).imp_right fun hrest => .inr (.here hrest)
    · rcases List.mem_cons.mp hmem with rfl | hrest
      · exact .inr (.inl hbeneath)
      · exact .inr (.inr (.beneath hrest hbeneath))
  · rintro (rfl | hbeneath | hrest)
    · exact .here List.mem_cons_self
    · exact .beneath List.mem_cons_self hbeneath
    · exact hrest.mono fun line hline => List.mem_cons_of_mem _ hline

end Stylesheet
