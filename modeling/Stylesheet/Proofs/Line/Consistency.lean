import Mathlib
import Stylesheet.Proofs.Line.RoundTrip

/-!
# Consistently indented templates

A template is cut into physical lines at every carriage return, line feed, or both in this order. Its
kept lines are consistently indented if the first one is not indented, the first indentation that there
is does not mix spaces and tabs, and all indentations are repetitions of it. Exactly such templates are
tabulated, and nothing of a kept line is lost but the blanks at its end; any other template is refused
for the first kept line that breaks one of these conditions.

* `physicalLines_eq_iff` : how texts are cut.
* `tabulate_cases` : what a template is refused for.
* `tabulate_consistent_or_break` : what tabulating comes to.
-/

namespace Stylesheet

/-! ## Physical lines -/

/-- A text cut into physical lines. A line feed after a carriage return belongs to the same end. -/
inductive CutInto : List Char → List (List Char) → Prop
  | last {raw : List Char} : OneLine raw → CutInto raw [raw]
  | line {raw cs : List Char} {lines : List (List Char)} (ending : LineEnd) : OneLine raw →
      (ending = .carriageReturn → cs.head? ≠ some '\n') → CutInto cs lines →
      CutInto (raw ++ (ending.chars ++ cs)) (raw :: lines)

theorem CutInto.cons {c : Char} {cs first : List Char} {lines : List (List Char)}
    (hlf : c ≠ '\n') (hcr : c ≠ '\r') (h : CutInto cs (first :: lines)) :
    CutInto (c :: cs) ((c :: first) :: lines) := by
  cases h with
  | last hraw => exact .last (oneLine_cons_iff.mpr ⟨hlf, hcr, hraw⟩)
  | line ending hraw hend hlines =>
      exact .line ending (oneLine_cons_iff.mpr ⟨hlf, hcr, hraw⟩) hend hlines

theorem CutInto.ne_nil {cs : List Char} {lines : List (List Char)} (h : CutInto cs lines) :
    lines ≠ [] := by
  cases h <;> simp

/-- A text is cut into its physical lines. -/
theorem cutInto_physicalLines (cs : List Char) : CutInto cs (physicalLines cs) := by
  have hnil : OneLine [] := ⟨by simp, by simp⟩
  fun_induction physicalLines cs with
  | case1 => exact .last hnil
  | case2 cs ih => exact .line .both hnil (by simp) ih
  | case3 c cs hnot hend ih =>
      rcases hend with rfl | rfl
      · exact .line .lineFeed hnil (by simp) ih
      · refine .line .carriageReturn hnil (fun _ hhead => ?_) ih
        obtain ⟨cs, rfl⟩ := List.head?_eq_some_iff.mp hhead
        exact hnot cs rfl rfl
  | case4 c cs _ _ hempty ih => exact absurd hempty ih.ne_nil
  | case5 c cs _ hend line lines hlines ih =>
      obtain ⟨hlf, hcr⟩ := not_or.mp hend
      rw [hlines] at ih
      exact ih.cons hlf hcr

/-- **The physical lines of a text** are the pieces between the ends of lines in it. -/
theorem physicalLines_eq_iff {cs : List Char} {lines : List (List Char)} :
    physicalLines cs = lines ↔ CutInto cs lines := by
  constructor
  · rintro rfl
    exact cutInto_physicalLines cs
  · intro h
    induction h with
    | last hraw =>
        simpa using physicalLines_append hraw (show physicalLines [] = [[]] by rfl)
    | line ending hraw hend _ ih =>
        have hafter := physicalLines_end ending hend
        rw [ih] at hafter
        rw [physicalLines_append hraw hafter, List.append_nil]

/-- The kept lines are the physical lines, counted from one, that hold more than blanks and do not start
with two slashes. -/
theorem mem_keptLines_iff {template raw : List Char} {number : Nat} :
    (raw, number) ∈ keptLines template ↔
      (∃ i, number = i + 1 ∧ (physicalLines template)[i]? = some raw) ∧
        (∃ c ∈ raw, Text.isBlank c = false) ∧ ¬ ['/', '/'] <+: raw := by
  have hkept : isKept raw = true ↔
      (∃ c ∈ raw, Text.isBlank c = false) ∧ ¬ ['/', '/'] <+: raw := by
    simp [isKept, ← List.isPrefixOf_iff_prefix]
  rw [keptLines, List.mem_filter, List.mk_mem_zipIdx_iff_le_and_getElem?_sub, hkept]
  refine and_congr_left fun _ => ?_
  constructor
  · rintro ⟨hle, hraw⟩
    exact ⟨number - 1, by omega, hraw⟩
  · rintro ⟨i, rfl, hraw⟩
    exact ⟨Nat.le_add_left 1 i, by simpa using hraw⟩

/-- The kept lines are in source order. -/
theorem keptLines_pairwise (template : List Char) :
    (keptLines template).Pairwise (fun line later => line.2 < later.2) := by
  refine List.Pairwise.filter _ ?_
  have hnumbers : (((physicalLines template).zipIdx 1).map Prod.snd).Pairwise (· < ·) := by
    rw [List.zipIdx_map_snd]
    exact List.pairwise_lt_range'
  exact List.pairwise_map.mp hnumbers

/-! ## Consistent indentation -/

/-- Kept lines that start unindented and are indented by one unit throughout, which is the first
indentation that there is. -/
structure Consistent (kept : List (List Char × Nat)) : Prop where
  start : ∀ line ∈ kept.head?, indentation line.1 = []
  unmixed : ∀ unit ∈ firstIndentation? kept, ¬ (' ' ∈ unit ∧ '\t' ∈ unit)
  even : ∀ unit ∈ firstIndentation? kept, ∀ line ∈ kept,
    ∃ depth : Nat, indentation line.1 = (List.replicate depth unit).flatten

/-- What a line breaks by its indentation, given the kept lines before it. -/
inductive Breaks (before : List (List Char × Nat)) (raw : List Char) : Fault → Prop
  | start : before = [] → indentation raw ≠ [] → Breaks before raw .indentedStart
  | mixed : before ≠ [] → firstIndentation? before = none →
      ' ' ∈ indentation raw → '\t' ∈ indentation raw → Breaks before raw .mixedIndentation
  | uneven {unit : List Char} : firstIndentation? before = some unit →
      (∀ depth : Nat, indentation raw ≠ (List.replicate depth unit).flatten) →
      Breaks before raw (.inconsistentIndentation (indentation raw) unit)

/-- The first indentation of two runs is that of the first run which has one. -/
theorem firstIndentation?_append (xs ys : List (List Char × Nat)) :
    firstIndentation? (xs ++ ys) = (firstIndentation? xs).or (firstIndentation? ys) := by
  simp [firstIndentation?, List.find?_append]

theorem firstIndentation?_ne_nil {kept : List (List Char × Nat)} {unit : List Char}
    (h : firstIndentation? kept = some unit) : unit ≠ [] := by
  have hunit := List.find?_some h
  simpa using hunit

/-- There is no first indentation where no line is indented. -/
theorem firstIndentation?_eq_none_iff {kept : List (List Char × Nat)} :
    firstIndentation? kept = none ↔ ∀ line ∈ kept, indentation line.1 = [] := by
  simp [firstIndentation?]

section

variable {before after : List (List Char × Nat)} {line : List Char × Nat} {fault : Fault}

/-- Consistency is kept by leaving out lines at the end. -/
theorem Consistent.of_append (h : Consistent (before ++ after)) : Consistent before := by
  have hfirst : ∀ unit ∈ firstIndentation? before, unit ∈ firstIndentation? (before ++ after) := by
    intro unit hunit
    rw [firstIndentation?_append, Option.mem_def.mp hunit]
    rfl
  refine ⟨fun line hline => h.start line (List.mem_head?_append_of_mem_head? hline),
    fun unit hunit => h.unmixed unit (hfirst unit hunit), fun unit hunit line hline => ?_⟩
  exact h.even unit (hfirst unit hunit) line (List.mem_append_left _ hline)

/-- Whatever comes after it, a line that breaks consistency is not made up for. -/
theorem Breaks.not_consistent (h : Breaks before line.1 fault) (after : List (List Char × Nat)) :
    ¬ Consistent (before ++ line :: after) := by
  intro hmore
  rw [List.append_cons] at hmore
  have hall : Consistent (before ++ [line]) := hmore.of_append
  cases h with
  | start hbefore hlead =>
      rw [hbefore] at hall
      exact hlead (hall.start line rfl)
  | mixed _ hnone hspace htab =>
      refine hall.unmixed (indentation line.1) ?_ ⟨hspace, htab⟩
      rw [firstIndentation?_append, hnone, firstIndentation?_cons,
        if_neg (List.ne_nil_of_mem hspace)]
      rfl
  | @uneven unit hunit hlead =>
      obtain ⟨depth, hdepth⟩ := hall.even unit
        (by rw [firstIndentation?_append, hunit]; rfl) line (by simp)
      exact hlead depth hdepth

/-- A line breaks consistency in one way only. -/
theorem Breaks.unique {raw : List Char} {fault' : Fault} (h : Breaks before raw fault)
    (h' : Breaks before raw fault') : fault = fault' := by
  cases h with
  | start hbefore _ =>
      cases h' with
      | start => rfl
      | mixed hne => exact absurd hbefore hne
      | uneven hunit => simp [hbefore, firstIndentation?] at hunit
  | mixed hne hnone =>
      cases h' with
      | start hbefore => exact absurd hbefore hne
      | mixed => rfl
      | uneven hunit => rw [hnone] at hunit; cases hunit
  | uneven hunit =>
      cases h' with
      | start hbefore => simp [hbefore, firstIndentation?] at hunit
      | mixed _ hnone => rw [hnone] at hunit; cases hunit
      | uneven hunit' =>
          rw [hunit] at hunit'
          cases hunit'
          rfl

/-- A line that breaks nothing goes on consistently. -/
theorem Consistent.concat (h : Consistent before) (hline : ∀ fault, ¬ Breaks before line.1 fault) :
    Consistent (before ++ [line]) := by
  have hstart : ∀ first ∈ (before ++ [line]).head?, indentation first.1 = [] := by
    intro first hfirst
    cases before with
    | nil =>
        obtain rfl : line = first := Option.some.inj hfirst
        by_contra hlead
        exact hline _ (.start rfl hlead)
    | cons other before => exact h.start first hfirst
  rcases hbefore : firstIndentation? before with _ | first
  · -- the unit can only be the indentation of this line, which is then not the first line
    have hnone := firstIndentation?_eq_none_iff.mp hbefore
    have hunit : ∀ unit ∈ firstIndentation? (before ++ [line]),
        unit = indentation line.1 ∧ unit ≠ [] := by
      intro unit hunit
      refine ⟨?_, firstIndentation?_ne_nil hunit⟩
      rw [firstIndentation?_append, hbefore, firstIndentation?_cons] at hunit
      split at hunit
      · cases hunit
      · exact (Option.some.inj hunit).symm
    refine ⟨hstart, fun unit hfirst => ?_, fun unit hfirst other hother => ?_⟩
    · obtain ⟨rfl, hne⟩ := hunit unit hfirst
      have hlater : before ≠ [] := by
        rintro rfl
        exact hne (hstart line rfl)
      rintro ⟨hspace, htab⟩
      exact hline _ (.mixed hlater hbefore hspace htab)
    · obtain ⟨rfl, -⟩ := hunit unit hfirst
      rcases List.mem_append.mp hother with hother | hother
      · exact ⟨0, by simp [hnone other hother]⟩
      · exact ⟨1, by simp [List.mem_singleton.mp hother]⟩
  · have hunit : firstIndentation? (before ++ [line]) = some first := by
      rw [firstIndentation?_append, hbefore]
      rfl
    refine ⟨hstart, fun unit hfirst => ?_, fun unit hfirst other hother => ?_⟩
    · obtain rfl : first = unit := Option.some.inj (hunit.symm.trans hfirst)
      exact h.unmixed first hbefore
    · obtain rfl : first = unit := Option.some.inj (hunit.symm.trans hfirst)
      rcases List.mem_append.mp hother with hother | hother
      · exact h.even first hbefore other hother
      · rw [List.mem_singleton.mp hother]
        by_contra hlead
        exact hline _ (.uneven hbefore (not_exists.mp hlead))

/-- The first line that breaks consistency, and what it breaks, are determined. -/
theorem firstBreak_unique {before' after' : List (List Char × Nat)} {line' : List Char × Nat}
    {fault' : Fault} (hlines : before ++ line :: after = before' ++ line' :: after')
    (hbefore : Consistent before) (h : Breaks before line.1 fault) (hbefore' : Consistent before')
    (h' : Breaks before' line'.1 fault') : line = line' ∧ fault = fault' := by
  -- if one of the two came later, the other would stand among its consistent lines
  rcases List.append_eq_append_iff.mp hlines with ⟨_ | ⟨first, more⟩, rfl, hmore⟩ |
    ⟨_ | ⟨first, more⟩, rfl, hmore⟩
  · cases hmore
    rw [List.append_nil] at h'
    exact ⟨rfl, h.unique h'⟩
  · cases hmore
    exact absurd hbefore' (h.not_consistent more)
  · cases hmore
    rw [List.append_nil] at h
    exact ⟨rfl, h.unique h'⟩
  · cases hmore
    exact absurd hbefore (h'.not_consistent more)

end

/-! ## Tabulating -/

/-- One line more: it goes on consistently and becomes a line, or it is what the template is refused
for. -/
theorem tabulateFrom_step {before : List (List Char × Nat)} (hne : before ≠ [])
    (h : Consistent before) (line : List Char × Nat) (rest : List (List Char × Nat)) :
    (Consistent (before ++ [line]) ∧ ∃ depth : Nat,
      tabulateFrom (firstIndentation? before) (line :: rest) =
        (tabulateFrom (firstIndentation? (before ++ [line])) rest).map
          (.ofRaw line.1 depth line.2 :: ·)) ∨
    ∃ fault, Breaks before line.1 fault ∧
      tabulateFrom (firstIndentation? before) (line :: rest) = .error (fault.at (line.2 : Int)) := by
  obtain ⟨raw, number⟩ := line
  rw [firstIndentation?_append, firstIndentation?_cons]
  by_cases hlead : indentation raw = []
  · -- an unindented line counts no unit and does not tell what the unit is
    rw [tabulateFrom_unindented _ hlead]
    refine .inl ⟨h.concat ?_, 0, ?_⟩
    · rintro fault (⟨-, hindented⟩ | ⟨-, -, hspace⟩ | ⟨-, hdepth⟩)
      · exact hindented hlead
      · rw [hlead] at hspace
        cases hspace
      · exact hdepth 0 (by simp [hlead])
    · rw [if_pos hlead]
      simp [firstIndentation?]
  · cases hbefore : firstIndentation? before with
    | none =>
        rw [tabulateFrom_first hlead, if_neg hlead]
        -- the first indentation becomes the unit, if it can serve as one
        by_cases hmixed : ' ' ∈ indentation raw ∧ '\t' ∈ indentation raw
        · rw [if_pos (by simpa using hmixed)]
          exact .inr ⟨_, .mixed hne hbefore hmixed.1 hmixed.2, rfl⟩
        · rw [if_neg (by simpa using hmixed)]
          refine .inl ⟨h.concat ?_, 1, by simp⟩
          rintro fault (⟨hfirst, -⟩ | ⟨-, -, hspace, htab⟩ | ⟨hunit, -⟩)
          · exact hne hfirst
          · exact hmixed ⟨hspace, htab⟩
          · rw [hbefore] at hunit
            cases hunit
    | some unit =>
        have hunits {depth : Nat} : unitsIn? unit (indentation raw) = some depth ↔
            indentation raw = (List.replicate depth unit).flatten :=
          unitsIn?_eq_some_iff (firstIndentation?_ne_nil hbefore)
        rw [tabulateFrom_indented hlead]
        cases hdepth : unitsIn? unit (indentation raw) with
        | none =>
            refine .inr ⟨_, .uneven hbefore fun depth hlead' => ?_, rfl⟩
            rw [hunits.mpr hlead'] at hdepth
            cases hdepth
        | some depth =>
            refine .inl ⟨h.concat ?_, depth, by simp⟩
            rintro fault (⟨hfirst, -⟩ | ⟨-, hnone, -⟩ | ⟨hunit, huneven⟩)
            · exact hne hfirst
            · rw [hbefore] at hnone
              cases hnone
            · obtain rfl : unit = _ := Option.some.inj (hbefore.symm.trans hunit)
              exact huneven depth (hunits.mp hdepth)

/-- All lines that come after some: they go on consistently, or the first one that does not is told. -/
theorem tabulateFrom_cases {before : List (List Char × Nat)} (hne : before ≠ [])
    (h : Consistent before) (after : List (List Char × Nat)) :
    (Consistent (before ++ after) ∧ ∃ lines, tabulateFrom (firstIndentation? before) after = .ok lines) ∨
    ∃ xs line ys fault, after = xs ++ line :: ys ∧ Consistent (before ++ xs) ∧
      Breaks (before ++ xs) line.1 fault ∧
      tabulateFrom (firstIndentation? before) after = .error (fault.at (line.2 : Int)) := by
  induction after generalizing before with
  | nil => exact .inl ⟨by rwa [List.append_nil], [], rfl⟩
  | cons line rest ih =>
      rcases tabulateFrom_step hne h line rest with ⟨hline, depth, hstep⟩ | ⟨fault, hbreak, herror⟩
      · rw [hstep]
        rcases ih (by simp) hline with ⟨hall, lines, hlines⟩ |
          ⟨xs, other, ys, fault, rfl, hxs, hbreak, herror⟩
        · exact .inl ⟨by rwa [List.append_cons], _, by rw [hlines]; rfl⟩
        · rw [List.append_assoc] at hxs hbreak
          exact .inr ⟨line :: xs, other, ys, fault, rfl, hxs, hbreak, by rw [herror]; rfl⟩
      · exact .inr ⟨[], line, rest, fault, rfl, by rwa [List.append_nil], by rwa [List.append_nil],
          herror⟩

/-- A template is tabulated, or refused for the first kept line that breaks consistency. -/
theorem tabulate_cases (template : List Char) :
    (Consistent (keptLines template) ∧ ∃ lines, tabulate template = .ok lines) ∨
    ∃ before line after fault, keptLines template = before ++ line :: after ∧ Consistent before ∧
      Breaks before line.1 fault ∧ tabulate template = .error (fault.at (line.2 : Int)) := by
  have hnil : Consistent [] := ⟨by simp, by simp [firstIndentation?], by simp⟩
  unfold tabulate
  cases hkept : keptLines template with
  | nil => exact .inl ⟨hnil, [], rfl⟩
  | cons line rest =>
      dsimp only
      by_cases hlead : indentation line.1 = []
      · have hline : Consistent [line] := by
          refine hnil.concat ?_
          rintro fault (⟨-, hindented⟩ | ⟨hne, -⟩ | ⟨hunit, -⟩)
          · exact hindented hlead
          · exact hne rfl
          · simp [firstIndentation?] at hunit
        -- the first line does not fix the unit
        have hfirst : firstIndentation? [line] = none := by
          rw [firstIndentation?_cons, if_pos hlead]
          rfl
        have hrest := tabulateFrom_cases (by simp) hline rest
        rw [hfirst] at hrest
        rw [if_pos (by simpa using hlead)]
        rcases hrest with ⟨hall, lines, hlines⟩ | ⟨xs, other, ys, fault, rfl, hxs, hbreak, herror⟩
        · exact .inl ⟨hall, _, by rw [hlines]; rfl⟩
        · exact .inr ⟨line :: xs, other, ys, fault, rfl, hxs, hbreak, by rw [herror]; rfl⟩
      · rw [if_neg (by simpa using hlead)]
        exact .inr ⟨[], line, rest, _, rfl, hnil, .start rfl hlead, rfl⟩

/-- A template is refused for the first kept line that breaks consistency, and for nothing else. -/
theorem tabulate_eq_error_iff {template : List Char} {d : Diagnostic} :
    tabulate template = .error d ↔ ∃ before line after fault,
      keptLines template = before ++ line :: after ∧ Consistent before ∧
        Breaks before line.1 fault ∧ d = fault.at (line.2 : Int) := by
  rcases tabulate_cases template with ⟨hall, lines, hok⟩ |
    ⟨before, line, after, fault, hkept, hbefore, hbreak, herror⟩
  · rw [hok]
    constructor
    · rintro ⟨⟩
    · rintro ⟨before, line, after, fault, hkept, -, hbreak, -⟩
      rw [hkept] at hall
      exact absurd hall (hbreak.not_consistent after)
  · rw [herror]
    constructor
    · rintro ⟨⟩
      exact ⟨before, line, after, fault, hkept, hbefore, hbreak, rfl⟩
    · rintro ⟨before', line', after', fault', hkept', hbefore', hbreak', rfl⟩
      obtain ⟨rfl, rfl⟩ :=
        firstBreak_unique (hkept.symm.trans hkept') hbefore hbreak hbefore' hbreak'
      rfl

/-! ## What the lines are -/

/-- A line and the kept line it was made of: between some units and the blanks at the end nothing but
its text was there. -/
structure MadeOf (unit : List Char) (kept : List Char × Nat) (line : Line) : Prop where
  number : line.index = kept.2
  childless : line.children = []
  text : line.text = String.ofList (Text.trim kept.1)
  text_ne : line.text ≠ ""
  rebuilt : ∃ (depth : Nat) (trailing : List Char), line.depth = depth ∧
    indentation kept.1 = (List.replicate depth unit).flatten ∧
    (∀ c ∈ trailing, Text.isBlank c = true) ∧
    kept.1 = (List.replicate depth unit).flatten ++ line.text.toList ++ trailing

/-- A physical line is its indentation, its text and the blanks at its end. -/
theorem exists_trailing (raw : List Char) :
    ∃ trailing, (∀ c ∈ trailing, Text.isBlank c = true) ∧
      raw = indentation raw ++ Text.trim raw ++ trailing := by
  refine ⟨((Text.trimStart raw).reverse.takeWhile Text.isBlank).reverse, fun c hc => ?_, ?_⟩
  · exact List.all_eq_true.mp List.all_takeWhile c (List.mem_reverse.mp hc)
  · have hend : Text.trim raw ++ ((Text.trimStart raw).reverse.takeWhile Text.isBlank).reverse =
        Text.trimStart raw := by
      rw [Text.trim, Text.trimEnd, ← List.reverse_append, List.takeWhile_append_dropWhile,
        List.reverse_reverse]
    rw [List.append_assoc, hend]
    exact List.takeWhile_append_dropWhile.symm

theorem trim_ne_nil {raw : List Char} (h : ∃ c ∈ raw, Text.isBlank c = false) :
    Text.trim raw ≠ [] := by
  intro hempty
  obtain ⟨c, hc, hsolid⟩ := h
  obtain ⟨trailing, hblank, hraw⟩ := exists_trailing raw
  rw [hempty, List.append_nil] at hraw
  rw [hraw] at hc
  have hblank' : Text.isBlank c = true := by
    rcases List.mem_append.mp hc with hc | hc
    · exact List.all_eq_true.mp List.all_takeWhile c hc
    · exact hblank c hc
  rw [hsolid] at hblank'
  cases hblank'

/-- A tabulated line is made of the physical one that it is kept for. -/
theorem Tabulated.madeOf {unit : List Char} {kept : List Char × Nat} {line : Line}
    (hkept : ∃ c ∈ kept.1, Text.isBlank c = false) (h : Tabulated unit kept line) :
    MadeOf unit kept line := by
  obtain ⟨depth, hlead, rfl⟩ := h
  obtain ⟨trailing, hblank, hraw⟩ := exists_trailing kept.1
  refine ⟨rfl, rfl, rfl, ?_, depth, trailing, rfl, hlead, hblank, ?_⟩
  · intro hempty
    have htext : (String.ofList (Text.trim kept.1)).toList = [] := by
      rw [show String.ofList (Text.trim kept.1) = "" from hempty]
      rfl
    rw [String.toList_ofList] at htext
    exact trim_ne_nil hkept htext
  · rw [← hlead]
    simpa [Line.ofRaw] using hraw

/-- **What tabulating comes to.** A template is cut into physical lines in one way, and its kept lines
are those that hold more than blanks and do not start with two slashes. Exactly the templates with
consistently indented kept lines are tabulated: each kept line, in order, to a childless line that has
its number and its text and counts its units. Any other template is refused for its first kept line that
breaks consistency. -/
theorem tabulate_consistent_or_break (template : List Char) :
    (∀ physical, CutInto template physical ↔ physicalLines template = physical) ∧
    (keptLines template).Pairwise (fun line later => line.2 < later.2) ∧
    (∀ raw number, (raw, number) ∈ keptLines template ↔
      (∃ i, number = i + 1 ∧ (physicalLines template)[i]? = some raw) ∧
        (∃ c ∈ raw, Text.isBlank c = false) ∧ ¬ ['/', '/'] <+: raw) ∧
    ((∃ lines, tabulate template = .ok lines) ↔ Consistent (keptLines template)) ∧
    (∀ lines, tabulate template = .ok lines → ∃ unit, unit ≠ [] ∧
      (∀ first ∈ firstIndentation? (keptLines template), first = unit) ∧
      List.Forall₂ (MadeOf unit) (keptLines template) lines) ∧
    (∀ d, tabulate template = .error d ↔ ∃ before line after fault,
      keptLines template = before ++ line :: after ∧ Consistent before ∧
        Breaks before line.1 fault ∧ d = fault.at (line.2 : Int)) := by
  refine ⟨fun physical => physicalLines_eq_iff.symm, keptLines_pairwise template,
    fun raw number => mem_keptLines_iff, ?_, fun lines hlines => ?_,
    fun d => tabulate_eq_error_iff⟩
  · rcases tabulate_cases template with ⟨hall, hok⟩ |
      ⟨before, line, after, fault, hkept, -, hbreak, herror⟩
    · exact ⟨fun _ => hall, fun _ => hok⟩
    · rw [herror, hkept]
      constructor
      · rintro ⟨_, ⟨⟩⟩
      · exact fun hall => absurd hall (hbreak.not_consistent after)
  · obtain ⟨unit, hunit, hfirst, -, hall⟩ := tabulate_eq_ok_iff.mp hlines
    have hsolid : ∀ kept ∈ keptLines template, ∃ c ∈ kept.1, Text.isBlank c = false :=
      fun kept hkept => (mem_keptLines_iff.mp hkept).2.1
    exact ⟨unit, hunit.ne_nil, hfirst, ((List.forall₂_and_left _ _).mpr ⟨hsolid, hall⟩).imp
      fun kept line h => h.2.madeOf h.1⟩

end Stylesheet
