import Mathlib
import Stylesheet.Proofs.Assembly.Continuation
import Stylesheet.Proofs.Line.Consistency
import Stylesheet.Proofs.Line.Jumps

/-!
# Parsing lists that are broken over lines

A line of a template is replaced by several lines that are indented in the same way. Both passes of
parsing go on as before: a kept line becomes several ones with the same indentation, and a tabulated
line several ones at the same depth, of which the last one has what was nested beneath the line. So the
broken template is parsed to the forest of the other one in which the line is broken (`breakAll`), or it
is refused for the same fault.

* `flattenAll_breakAll`, `Levelled.breakAll` : forests in which a line is broken.
* `Consistent.flatMap`, `FirstJump.flatMap` : what is refused in one template is refused in the other.
* `parseLines_broken` : both templates.
-/

namespace Stylesheet

open Line

/-! ## Forests -/

/-- The number of a line, and the texts of the lines that it is broken into. -/
structure ListBreak where
  number : Nat
  openings : List String
  last : String

namespace ListBreak

/-- The number of a line that comes before or after the broken one. -/
def shift (b : ListBreak) (n : Int) : Int :=
  if (b.number : Int) < n then n + b.openings.length else n

def opened (b : ListBreak) (depth : Int) : List Line :=
  (b.openings.zipIdx b.number).map fun opening => ⟨opening.1, depth, opening.2, []⟩

end ListBreak

namespace Line

mutual

/-- The lines that a line is broken into, or the line itself with the number that it has after it. -/
def breakLine (b : ListBreak) : Line → List Line
  | ⟨text, depth, index, children⟩ =>
    if index = b.number then
      b.opened depth ++ [⟨b.last, depth, (b.number + b.openings.length : Nat), breakAll b children⟩]
    else [⟨text, depth, b.shift index, breakAll b children⟩]

/-- The forest in which a line is broken. -/
def breakAll (b : ListBreak) : List Line → List Line
  | [] => []
  | line :: lines => line.breakLine b ++ breakAll b lines

end

theorem flattenAll_of_childless {lines : List Line} (h : ∀ line ∈ lines, line.children = []) :
    flattenAll lines = lines := by
  induction lines with
  | nil => simp
  | cons line lines ih =>
      obtain ⟨hline, hlines⟩ := List.forall_mem_cons.mp h
      obtain ⟨text, depth, index, children⟩ := line
      dsimp only at hline
      subst hline
      rw [flattenAll_cons, flattenAll_nil, List.nil_append, ih hlines]

variable (b : ListBreak)

theorem opened_childless (depth : Int) : ∀ line ∈ b.opened depth, line.children = [] := by
  intro line hline
  obtain ⟨opening, -, rfl⟩ := List.mem_map.mp hline
  rfl

/-- Breaking a line breaks it in source order. -/
theorem flattenAll_breakAll : ∀ forest : List Line,
    flattenAll (breakAll b forest) = (flattenAll forest).flatMap (breakLine b)
  | [] => by simp [breakAll]
  | ⟨text, depth, index, children⟩ :: rest => by
    rw [breakAll, flattenAll_append, flattenAll_breakAll rest, flattenAll_cons, List.flatMap_cons,
      List.flatMap_append, ← flattenAll_breakAll children, breakLine, breakLine]
    split
    · rw [flattenAll_append, flattenAll_of_childless (opened_childless b depth)]
      simp [breakAll]
    · simp [breakAll]

end Line

theorem Levelled.append {base : Int} {xs ys : List Line} (hx : Levelled base xs)
    (hy : Levelled base ys) : Levelled base (xs ++ ys) := by
  induction hx with
  | nil => exact hy
  | cons hch _ _ ih => exact .cons hch (ih hy)

theorem Levelled.of_childless {base : Int} {lines : List Line}
    (h : ∀ line ∈ lines, line.children = [] ∧ line.depth = base) : Levelled base lines := by
  induction lines with
  | nil => exact .nil
  | cons line lines ih =>
      obtain ⟨⟨hchildless, hdepth⟩, hlines⟩ := List.forall_mem_cons.mp h
      obtain ⟨text, depth, index, children⟩ := line
      dsimp only at hchildless hdepth
      subst hchildless hdepth
      exact .cons .nil (ih hlines)

theorem ListBreak.depth_opened (b : ListBreak) (depth : Int) :
    ∀ line ∈ b.opened depth, line.depth = depth := by
  intro line hline
  obtain ⟨opening, -, rfl⟩ := List.mem_map.mp hline
  rfl

/-- The lines of a list stand at the depth of the line that was broken. -/
theorem Levelled.breakAll (b : ListBreak) {base : Int} {forest : List Line}
    (h : Levelled base forest) : Levelled base (breakAll b forest) := by
  induction h with
  | nil => exact .nil
  | @cons base text index children rest _ _ ihch ihrest =>
      rw [Line.breakAll, Line.breakLine]
      split
      · have hopened : Levelled base (b.opened base) := .of_childless fun line hline =>
          ⟨Line.opened_childless b base line hline, b.depth_opened base line hline⟩
        exact (hopened.append (.cons ihch .nil)).append ihrest
      · exact .cons ihch ihrest

/-- Where the broken line does not stand, only numbers change. -/
theorem map_text_breakAll (b : ListBreak) {lines : List Line}
    (h : ∀ line ∈ flattenAll lines, line.index ≠ b.number) :
    (flattenAll (breakAll b lines)).map (·.text) = (flattenAll lines).map (·.text) := by
  rw [flattenAll_breakAll]
  generalize flattenAll lines = flat at h
  induction flat with
  | nil => rfl
  | cons line flat ih =>
      obtain ⟨hline, hflat⟩ := List.forall_mem_cons.mp h
      obtain ⟨text, depth, index, children⟩ := line
      rw [List.flatMap_cons, List.map_append, ih hflat, breakLine, if_neg hline]
      rfl

/-- A forest in which a selector list is broken, unless a comment keeps the list. -/
theorem broken_breakAll {b : ListBreak} {whole : String} (hlist : SameList whole b.openings b.last) :
    ∀ {forest : List Line}, (∀ line ∈ flattenAll forest, line.index = b.number → line.text = whole) →
      (∀ above : Line, above.Within forest → Shape.of above.text.toList = .comment →
        ∀ line ∈ flattenAll above.children, line.index ≠ b.number) →
      Broken forest (breakAll b forest)
  | [], _, _ => by
    rw [breakAll]
    exact .nil
  | ⟨text, depth, index, children⟩ :: rest, htext, hcomment => by
    rw [flattenAll_cons] at htext
    obtain ⟨hown, htext⟩ := List.forall_mem_cons.mp htext
    obtain ⟨hchText, hrestText⟩ := List.forall_mem_append.mp htext
    have hch : Broken children (breakAll b children) :=
      broken_breakAll hlist hchText fun above hwithin =>
        hcomment above (.beneath List.mem_cons_self hwithin)
    have hrest : Broken rest (breakAll b rest) :=
      broken_breakAll hlist hrestText fun above hwithin =>
        hcomment above (hwithin.mono fun line hline => List.mem_cons_of_mem _ hline)
    rw [breakAll, breakLine]
    split
    · next hindex =>
        obtain rfl : text = whole := hown hindex
        have htexts : (b.opened depth).map (·.text) = b.openings := by
          simp only [ListBreak.opened, List.map_map, Function.comp_def]
          exact List.zipIdx_map_fst _ _
        rw [List.append_assoc]
        refine .list ?_ (opened_childless b depth) hch hrest
        rwa [htexts]
    · refine .line (fun hshape => ?_) hch hrest
      exact (map_text_breakAll b (hcomment _ (.here List.mem_cons_self) hshape)).symm

/-! ## Kept lines -/

def ListBreak.keptFor (b : ListBreak) (raws : List (List Char)) (line : List Char × Nat) :
    List (List Char × Nat) :=
  if line.2 = b.number then raws.zipIdx b.number
  else [(line.1, if b.number < line.2 then line.2 + b.openings.length else line.2)]

/-- The kept lines of a template in which a line is replaced by several ones. -/
theorem keptLines_broken {template broken raw : List Char} {before following raws : List (List Char)}
    (b : ListBreak) (hnumber : b.number = before.length + 1)
    (hcount : raws.length = b.openings.length + 1)
    (hlines : physicalLines template = before ++ raw :: following)
    (hbroken : physicalLines broken = before ++ (raws ++ following))
    (hraw : isKept raw = true) (hraws : ∀ raw' ∈ raws, isKept raw' = true) :
    keptLines broken = (keptLines template).flatMap (b.keptFor raws) ∧
      ∀ line ∈ keptLines template, line.2 = b.number → line.1 = raw := by
  -- the kept lines before the replaced one stay, and those after it are counted on
  have hbefore : ∀ line ∈ (before.zipIdx 1).filter (fun line => isKept line.1),
      line.2 ≠ b.number ∧ b.keptFor raws line = [line] := by
    intro line hline
    have hlt := List.snd_lt_add_of_mem_zipIdx (List.mem_of_mem_filter hline)
    have hne : line.2 ≠ b.number := by omega
    rw [ListBreak.keptFor, if_neg hne, if_neg (by omega)]
    exact ⟨hne, rfl⟩
  have hafter : ∀ line ∈ (following.zipIdx (b.number + 1)).filter (fun line => isKept line.1),
      line.2 ≠ b.number ∧ b.keptFor raws line = [(line.1, line.2 + b.openings.length)] := by
    intro line hline
    have hle := List.le_snd_of_mem_zipIdx (List.mem_of_mem_filter hline)
    have hne : line.2 ≠ b.number := by omega
    rw [ListBreak.keptFor, if_neg hne, if_pos (by omega)]
    exact ⟨hne, rfl⟩
  have hkept : keptLines template = (before.zipIdx 1).filter (fun line => isKept line.1) ++
      (raw, b.number) :: (following.zipIdx (b.number + 1)).filter (fun line => isKept line.1) := by
    unfold keptLines
    rw [hlines, List.zipIdx_append, List.zipIdx_cons, List.filter_append,
      List.filter_cons_of_pos (by simpa using hraw), show 1 + before.length = b.number by omega]
  constructor
  · have hshifted : following.zipIdx (b.number + raws.length) =
        (following.zipIdx (b.number + 1)).map (Prod.map id (· + b.openings.length)) := by
      rw [List.map_snd_add_zipIdx_eq_zipIdx]
      congr 1
      omega
    rw [hkept, List.flatMap_append, List.flatMap_cons,
      List.flatMap_congr fun line hline => (hbefore line hline).2, List.flatMap_singleton',
      List.flatMap_congr fun line hline => (hafter line hline).2, ListBreak.keptFor, if_pos rfl]
    unfold keptLines
    rw [hbroken, List.zipIdx_append, List.zipIdx_append, List.filter_append, List.filter_append,
      show 1 + before.length = b.number by omega, hshifted, List.filter_map,
      List.filter_eq_self.mpr fun line hline => hraws _ (List.fst_mem_of_mem_zipIdx hline),
      ← List.flatMap_pure_eq_map]
    rfl
  · rw [hkept]
    intro line hline heq
    rcases List.mem_append.mp hline with hline | hline
    · exact absurd heq (hbefore line hline).1
    · rcases List.mem_cons.mp hline with rfl | hline
      · rfl
      · exact absurd heq (hafter line hline).1

/-! ## Tabulating -/

theorem forall₂_zipIdx {α β : Type} {R : α → β → Prop} {xs : List α} {ys : List β}
    (h : List.Forall₂ R xs ys) (n : Nat) :
    List.Forall₂ (fun x y => R x.1 y.1 ∧ x.2 = y.2) (xs.zipIdx n) (ys.zipIdx n) := by
  induction h generalizing n with
  | nil => exact .nil
  | cons hxy _ ih => exact .cons ⟨hxy, rfl⟩ (ih (n + 1))

/-- A physical line with a given indentation and text. -/
def ReadsAs (lead : List Char) (raw : List Char) (text : String) : Prop :=
  indentation raw = lead ∧ String.ofList (Text.trim raw) = text

/-- The lines in place of a kept line become the lines in place of what the line becomes. -/
theorem tabulated_breakLine {unit raw : List Char} {raws : List (List Char)} {b : ListBreak}
    (hraws : List.Forall₂ (ReadsAs (indentation raw)) raws (b.openings ++ [b.last]))
    {kept : List Char × Nat} {line : Line} (hkept : kept.2 = b.number → kept.1 = raw)
    (h : Tabulated unit kept line) :
    List.Forall₂ (Tabulated unit) (b.keptFor raws kept) (breakLine b line) := by
  obtain ⟨depth, hlead, rfl⟩ := h
  rw [ListBreak.keptFor, Line.ofRaw, breakLine]
  by_cases hnumber : kept.2 = b.number
  · have hlines : b.opened depth ++
          [⟨b.last, depth, (b.number + b.openings.length : Nat), breakAll b []⟩] =
        ((b.openings ++ [b.last]).zipIdx b.number).map
          fun text => (⟨text.1, depth, text.2, []⟩ : Line) := by
      rw [List.zipIdx_append, List.map_append, ListBreak.opened]
      rfl
    rw [if_pos hnumber, if_pos (by rw [hnumber]), hlines, List.forall₂_map_right_iff]
    refine (forall₂_zipIdx hraws b.number).imp ?_
    rintro ⟨raw', n⟩ ⟨text, _⟩ ⟨⟨hindent, rfl⟩, rfl⟩
    exact ⟨depth, by rw [hindent, ← hkept hnumber, hlead], rfl⟩
  · have hindex : ¬ (kept.2 : Int) = (b.number : Int) := by exact_mod_cast hnumber
    rw [if_neg hnumber, if_neg hindex]
    refine .cons ⟨depth, hlead, ?_⟩ .nil
    rw [Line.ofRaw, ListBreak.shift]
    simp only [Nat.cast_lt, breakAll]
    split <;> simp

/-- Other kept lines take the place of a kept line, all with its indentation and at least one. -/
def KeepsIndentation (f : List Char × Nat → List (List Char × Nat)) (line : List Char × Nat) : Prop :=
  f line ≠ [] ∧ ∀ line' ∈ f line, indentation line'.1 = indentation line.1

section

variable {f : List Char × Nat → List (List Char × Nat)} {kept : List (List Char × Nat)}

theorem KeepsIndentation.exists_cons {line : List Char × Nat} (h : KeepsIndentation f line) :
    ∃ first rest, f line = first :: rest ∧ indentation first.1 = indentation line.1 := by
  obtain ⟨first, rest, hfirst⟩ := List.exists_cons_of_ne_nil h.1
  exact ⟨first, rest, hfirst, h.2 first (by simp [hfirst])⟩

/-- Lines that keep their indentation keep the first one. -/
theorem firstIndentation?_flatMap (h : ∀ line ∈ kept, KeepsIndentation f line) :
    firstIndentation? (kept.flatMap f) = firstIndentation? kept := by
  induction kept with
  | nil => rfl
  | cons line kept ih =>
      obtain ⟨hline, hkept⟩ := List.forall_mem_cons.mp h
      rw [List.flatMap_cons, firstIndentation?_append, ih hkept, firstIndentation?_cons]
      by_cases hlead : indentation line.1 = []
      · have hnone : firstIndentation? (f line) = none :=
          firstIndentation?_eq_none_iff.mpr fun line' hline' => by rw [hline.2 line' hline', hlead]
        rw [hnone, if_pos hlead]
        rfl
      · obtain ⟨first, rest, hfirst, hindent⟩ := hline.exists_cons
        rw [hfirst, firstIndentation?_cons, hindent, if_neg hlead, if_neg hlead]
        rfl

theorem unindented_head_flatMap (hhead : ∀ line ∈ kept.head?, indentation line.1 = [])
    (h : ∀ line ∈ kept, KeepsIndentation f line) :
    ∀ line ∈ (kept.flatMap f).head?, indentation line.1 = [] := by
  intro line hline
  cases kept with
  | nil => cases hline
  | cons first rest =>
      obtain ⟨first', rest', hfirst', hindent⟩ := (h first List.mem_cons_self).exists_cons
      rw [List.flatMap_cons, hfirst'] at hline
      obtain rfl : first' = line := Option.some.inj hline
      rw [hindent, hhead first rfl]

/-- Consistent lines stay consistent when each keeps its indentation. -/
theorem Consistent.flatMap (hkept : Consistent kept) (h : ∀ line ∈ kept, KeepsIndentation f line) :
    Consistent (kept.flatMap f) := by
  have hunit := firstIndentation?_flatMap h
  refine ⟨unindented_head_flatMap hkept.start h,
    fun unit hfirst => hkept.unmixed unit (hunit ▸ hfirst), fun unit hfirst line hline => ?_⟩
  obtain ⟨other, hother, hline⟩ := List.mem_flatMap.mp hline
  rw [(h other hother).2 line hline]
  exact hkept.even unit (hunit ▸ hfirst) other hother

/-- The line that breaks the indentation still does when others are broken into several. -/
theorem Breaks.flatMap {raw raw' : List Char} {fault : Fault} (hbreak : Breaks kept raw fault)
    (h : ∀ line ∈ kept, KeepsIndentation f line) (hraw : indentation raw' = indentation raw) :
    Breaks (kept.flatMap f) raw' fault := by
  cases hbreak with
  | start hnone hlead =>
      refine .start ?_ (by rwa [hraw])
      rw [hnone, List.flatMap_nil]
  | mixed hne hnone hspace htab =>
      obtain ⟨line, rest, rfl⟩ := List.exists_cons_of_ne_nil hne
      refine .mixed ?_ ?_ (by rwa [hraw]) (by rwa [hraw])
      · rw [List.flatMap_cons]
        exact List.append_ne_nil_of_left_ne_nil (h line List.mem_cons_self).1 _
      · rw [firstIndentation?_flatMap h, hnone]
  | uneven hunit hlead =>
      rw [← hraw]
      refine .uneven ?_ (by rwa [hraw])
      rw [firstIndentation?_flatMap h, hunit]

/-- A template that is refused for its indentation is so if more lines have the same indentation. -/
theorem tabulate_error_of_flatMap {template broken : List Char}
    (hkept : keptLines broken = (keptLines template).flatMap f)
    (h : ∀ line ∈ keptLines template, KeepsIndentation f line) {d : Diagnostic}
    (hd : tabulate template = .error d) :
    ∃ d', tabulate broken = .error d' ∧ d.fault = d'.fault := by
  obtain ⟨before, line, after, fault, hlines, hbefore, hbreak, rfl⟩ := tabulate_eq_error_iff.mp hd
  rw [hlines] at h hkept
  obtain ⟨hbefore', hrest⟩ := List.forall_mem_append.mp h
  obtain ⟨first, rest, hfirst, hindent⟩ := (hrest line List.mem_cons_self).exists_cons
  rw [List.flatMap_append, List.flatMap_cons, hfirst, List.cons_append] at hkept
  exact ⟨_, tabulate_eq_error_iff.mpr ⟨_, first, _, fault, hkept, hbefore.flatMap hbefore',
    hbreak.flatMap hbefore' hindent, rfl⟩, rfl⟩

end

/-! ## Regrouping -/

/-- Other lines take the place of a line, all at its depth and at least one. -/
def KeepsDepth (g : Line → List Line) (line : Line) : Prop :=
  g line ≠ [] ∧ ∀ line' ∈ g line, line'.depth = line.depth

section

variable {g : Line → List Line} {lines : List Line}

/-- Among lines in place of one line there is no jump. -/
theorem KeepsDepth.steady {line : Line} (h : KeepsDepth g line) : Steady (g line) := by
  refine List.Pairwise.isChain (List.pairwise_iff_forall_sublist.mpr fun {x y} hsub => ?_)
  have hx := h.2 x (hsub.subset (by simp))
  have hy := h.2 y (hsub.subset (by simp))
  show y.depth ≤ x.depth + 1
  omega

/-- The first jump stays where it is. -/
theorem FirstJump.flatMap {previous line : Line} (hjump : FirstJump lines previous line)
    (h : ∀ line ∈ lines, KeepsDepth g line) :
    ∃ previous' line', FirstJump (lines.flatMap g) previous' line' ∧
      previous'.depth = previous.depth ∧ line'.depth = line.depth := by
  induction hjump with
  | @here previous line after hstep =>
      obtain ⟨hprevious, hrest⟩ := List.forall_mem_cons.mp h
      obtain ⟨hline, -⟩ := List.forall_mem_cons.mp hrest
      -- the jump is from the last line in place of the one to the first line in place of the other
      obtain ⟨earlier, last, hlast⟩ : ∃ earlier last, g previous = earlier ++ [last] :=
        ⟨_, _, (List.dropLast_concat_getLast hprevious.1).symm⟩
      obtain ⟨first, later, hfirst⟩ := List.exists_cons_of_ne_nil hline.1
      have hsame : ∀ x ∈ earlier ++ [last], x.depth = previous.depth :=
        fun x hx => hprevious.2 x (by rwa [hlast])
      have hlastDepth : last.depth = previous.depth := hsame last (by simp)
      have hfirstDepth : first.depth = line.depth := hline.2 first (by simp [hfirst])
      have hsteady : Steady earlier := by
        have hall := hprevious.steady
        rw [hlast] at hall
        exact (List.isChain_append.mp hall).1
      refine ⟨last, first, ?_, hlastDepth, hfirstDepth⟩
      rw [List.flatMap_cons, List.flatMap_cons, hlast, hfirst, List.append_assoc]
      refine FirstJump.append_left (.here fun hstep' => hstep ?_) hsteady fun x hx y hy => ?_
      · show line.depth ≤ previous.depth + 1
        have hle : first.depth ≤ last.depth + 1 := hstep'
        omega
      · obtain rfl : last = y := Option.some.inj hy
        have hx' := hsame x (List.mem_append_left _ (List.mem_of_getLast? hx))
        show last.depth ≤ x.depth + 1
        omega
  | @later first second previous line after hstep _ ih =>
      obtain ⟨hfirst, hrest⟩ := List.forall_mem_cons.mp h
      obtain ⟨previous', line', hjump, hprevious, hline⟩ := ih hrest
      refine ⟨previous', line', ?_, hprevious, hline⟩
      rw [List.flatMap_cons]
      refine hjump.append_left hfirst.steady fun x hx y hy => ?_
      have hsecond := hrest second List.mem_cons_self
      obtain ⟨next, more, hnext⟩ := List.exists_cons_of_ne_nil hsecond.1
      rw [List.flatMap_cons, hnext] at hy
      obtain rfl : next = y := Option.some.inj hy
      have hx' := hfirst.2 x (List.mem_of_getLast? hx)
      have hy' := hsecond.2 next (by simp [hnext])
      have hle : second.depth ≤ first.depth + 1 := hstep
      show next.depth ≤ x.depth + 1
      omega

/-- From an unindented line on a level has all lines. -/
theorem levelFrom_zero (hstart : 0 < lines.length) (hhead : ∀ line ∈ lines.head?, line.depth = 0)
    (hdepth : ∀ line ∈ lines, 0 ≤ line.depth) : levelFrom lines 0 hstart = lines := by
  obtain ⟨line, rest, rfl⟩ := List.exists_cons_of_length_pos hstart
  have hzero : line.depth = 0 := hhead line rfl
  rw [levelFrom, List.drop_zero]
  refine List.takeWhile_eq_self_iff.mpr fun line' hline' => ?_
  have := hdepth line' hline'
  simpa [hzero] using this

/-- Lines that are refused for how they are nested are so if more lines stand at the same depth. -/
theorem regroup_error_of_flatMap (h : ∀ line ∈ lines, KeepsDepth g line)
    (hflat : ∀ line ∈ lines, line.children = [])
    (hflat' : ∀ line ∈ lines.flatMap g, line.children = [])
    (hhead : ∀ line ∈ lines.head?, line.depth = 0) (hdepth : ∀ line ∈ lines, 0 ≤ line.depth)
    {d : Diagnostic} (hd : regroup lines 0 = .error d) :
    ∃ d', regroup (lines.flatMap g) 0 = .error d' ∧ d.fault = d'.fault := by
  have hstart : 0 < lines.length := by
    cases lines with
    | nil => cases hd
    | cons => simp
  obtain ⟨line, rest, rfl⟩ := List.exists_cons_of_length_pos hstart
  obtain ⟨first, more, hfirst⟩ := List.exists_cons_of_ne_nil (h line List.mem_cons_self).1
  have hstart' : 0 < ((line :: rest).flatMap g).length := by
    rw [List.flatMap_cons, hfirst]
    simp
  have hhead' : ∀ line' ∈ ((line :: rest).flatMap g).head?, line'.depth = 0 := by
    rw [List.flatMap_cons, hfirst]
    rintro _ ⟨⟩
    rw [(h line List.mem_cons_self).2 first (by simp [hfirst]), hhead line rfl]
  have hdepth' : ∀ line' ∈ (line :: rest).flatMap g, 0 ≤ line'.depth := by
    intro line' hline'
    obtain ⟨other, hother, hline'⟩ := List.mem_flatMap.mp hline'
    rw [(h other hother).2 line' hline']
    exact hdepth other hother
  obtain ⟨previous, jumping, hjump, rfl⟩ := (regroup_eq_error_iff hflat hstart).mp hd
  rw [levelFrom_zero hstart hhead hdepth] at hjump
  obtain ⟨previous', jumping', hjump', hprevious, hjumping⟩ := hjump.flatMap h
  rw [← levelFrom_zero hstart' hhead' hdepth'] at hjump'
  refine ⟨_, (regroup_eq_error_iff hflat' hstart').mpr ⟨previous', jumping', hjump', rfl⟩, ?_⟩
  rw [hprevious, hjumping]
  rfl

end

/-! ## Parsing -/

/-- A template is refused while it is cut into lines, or while they are grouped. -/
theorem parseLines_eq_error_iff {template : List Char} {d : Diagnostic} :
    parseLines template = .error d ↔ tabulate template = .error d ∨
      ∃ lines, tabulate template = .ok lines ∧ regroup lines 0 = .error d := by
  unfold parseLines
  rcases tabulate template with d' | lines
  · simp [bind, Except.bind]
  · rcases hregroup : regroup lines 0 with d' | ⟨nodes, position⟩
    · simp [bind, Except.bind, hregroup]
    · simp [bind, Except.bind, pure, Except.pure, hregroup]

theorem keepsDepth_breakLine (b : ListBreak) (line : Line) : KeepsDepth (breakLine b) line := by
  obtain ⟨text, depth, index, children⟩ := line
  rw [KeepsDepth, breakLine]
  split
  · refine ⟨by simp, fun line' hline' => ?_⟩
    rcases List.mem_append.mp hline' with hline' | hline'
    · exact b.depth_opened depth line' hline'
    · rw [List.mem_singleton.mp hline']
  · simp

theorem keepsIndentation_keptFor {raw : List Char} {raws : List (List Char)} {b : ListBreak}
    (hraws : List.Forall₂ (ReadsAs (indentation raw)) raws (b.openings ++ [b.last]))
    {line : List Char × Nat} (hline : line.2 = b.number → line.1 = raw) :
    KeepsIndentation (b.keptFor raws) line := by
  rw [KeepsIndentation, ListBreak.keptFor]
  split
  · next hnumber =>
      have hne : raws ≠ [] := by
        rintro rfl
        have hlength := hraws.length_eq
        simp at hlength
      refine ⟨by simpa using hne, fun line' hline' => ?_⟩
      rw [hline hnumber]
      exact forall_mem_of_forall₂ (List.Forall₂.flip hraws) (fun _ _ => trivial)
        (fun _ raw' hreads _ => hreads.1) line'.1 (List.fst_mem_of_mem_zipIdx hline')
  · simp

/-- The pass that refuses a template refuses the one in which a list is broken too, for the same
fault. -/
theorem parseLines_error_broken {template broken : List Char} {raws : List (List Char)} {b : ListBreak}
    (hkeptLines : keptLines broken = (keptLines template).flatMap (b.keptFor raws))
    (hindentation : ∀ line ∈ keptLines template, KeepsIndentation (b.keptFor raws) line)
    (htabulated : ∀ {unit : List Char} {lines : List Line},
      List.Forall₂ (Tabulated unit) (keptLines template) lines →
        List.Forall₂ (Tabulated unit) (keptLines broken) (lines.flatMap (breakLine b)))
    {d : Diagnostic} (h : parseLines template = .error d) :
    ∃ d', parseLines broken = .error d' ∧ d.fault = d'.fault := by
  rcases parseLines_eq_error_iff.mp h with htabulate | ⟨lines, htabulate, hregroup⟩
  · obtain ⟨d', hd', hfault⟩ := tabulate_error_of_flatMap hkeptLines hindentation htabulate
    exact ⟨d', parseLines_eq_error_iff.mpr (.inl hd'), hfault⟩
  · obtain ⟨unit, hu, hfirst, hhead, hlines⟩ := tabulate_eq_ok_iff.mp htabulate
    have hplain := tabulated_plain hlines
    have hplain' := tabulated_plain (htabulated hlines)
    obtain ⟨d', hd', hfault⟩ := regroup_error_of_flatMap
      (fun line _ => keepsDepth_breakLine b line) (fun line hline => (hplain line hline).1)
      (fun line hline => (hplain' line hline).1) (tabulated_head hu.ne_nil hlines hhead)
      (fun line hline => (hplain line hline).2) hregroup
    refine ⟨d', parseLines_eq_error_iff.mpr (.inr ⟨_, tabulate_eq_ok_iff.mpr
      ⟨unit, hu, ?_, ?_, htabulated hlines⟩, hd'⟩), hfault⟩
    · rw [hkeptLines, firstIndentation?_flatMap hindentation]
      exact hfirst
    · rw [hkeptLines]
      exact unindented_head_flatMap hhead hindentation

/-- **Templates in one of which a list is broken over lines** are parsed alike: to forests in the second
one of which the list is broken, or to the same fault. -/
theorem parseLines_broken {template broken raw : List Char} {before following raws : List (List Char)}
    {b : ListBreak} (hnumber : b.number = before.length + 1)
    (hlines : physicalLines template = before ++ raw :: following)
    (hbroken : physicalLines broken = before ++ (raws ++ following))
    (hraw : isKept raw = true) (hkept : ∀ raw' ∈ raws, isKept raw' = true)
    (hraws : List.Forall₂ (ReadsAs (indentation raw)) raws (b.openings ++ [b.last]))
    (hlist : SameList (String.ofList (Text.trim raw)) b.openings b.last)
    (hplace : ∀ forest, parseLines template = .ok forest → ∀ above : Line, above.Within forest →
      Shape.of above.text.toList = .comment →
        ∀ line ∈ flattenAll above.children, line.index ≠ b.number) :
    BrokenParses (parseLines template) (parseLines broken) := by
  have hcount : raws.length = b.openings.length + 1 := by
    rw [hraws.length_eq, List.length_append, List.length_singleton]
  obtain ⟨hkeptLines, hreplaced⟩ := keptLines_broken b hnumber hcount hlines hbroken hraw hkept
  have hindentation : ∀ line ∈ keptLines template, KeepsIndentation (b.keptFor raws) line :=
    fun line hline => keepsIndentation_keptFor hraws (hreplaced line hline)
  -- what the kept lines of both templates become
  have htabulated : ∀ {unit : List Char} {lines : List Line},
      List.Forall₂ (Tabulated unit) (keptLines template) lines →
      List.Forall₂ (Tabulated unit) (keptLines broken) (lines.flatMap (breakLine b)) := by
    intro unit lines h
    rw [hkeptLines]
    exact List.rel_flatMap ((List.forall₂_and_left _ _).mpr ⟨hreplaced, h⟩)
      fun kept line h => tabulated_breakLine hraws h.1 h.2
  cases hparse : parseLines template with
  | error d =>
      obtain ⟨d', hd', hfault⟩ := parseLines_error_broken hkeptLines hindentation htabulated hparse
      rw [hd']
      exact .error hfault
  | ok forest =>
      obtain ⟨hlevelled, unit, hu, hlines⟩ := parseLines_eq_ok_iff.mp hparse
      have hparse' : parseLines broken = .ok (breakAll b forest) := by
        refine parseLines_eq_ok_iff.mpr ⟨hlevelled.breakAll b, unit, hu, ?_⟩
        rw [flattenAll_breakAll]
        exact htabulated hlines
      rw [hparse']
      refine .ok (broken_breakAll hlist ?_ (hplace forest hparse))
      refine forall_mem_of_forall₂ hlines hreplaced ?_
      rintro kept _ ⟨depth, -, rfl⟩ hkept hindex
      have hindex' : kept.2 = b.number := Int.ofNat_inj.mp hindex
      show String.ofList (Text.trim kept.1) = String.ofList (Text.trim raw)
      rw [hkept hindex']

end Stylesheet
