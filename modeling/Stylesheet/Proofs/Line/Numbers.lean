import Stylesheet.Proofs.Line.Regrouping
import Stylesheet.Proofs.Line.Tabulation

/-!
# The numbers of lines

Parsing looks at the texts of lines and at their indentation. The numbers of the lines are only
carried along, into the forest or into the diagnostic: if the kept lines of a template get other
numbers, it is parsed to the same forest or refused for the same fault, under these numbers.

* `renumbered_bind` : a computation of two steps under other numbers.
* `level_renumber`, `tabulate_renumber` : the two passes of parsing.
* `parseLines_renumber` : templates that keep the same lines under other numbers.
-/

namespace Stylesheet

/-! ## Under other numbers -/

namespace Line

mutual

def renumber (f : Int → Int) : Line → Line
  | ⟨text, depth, index, children⟩ => ⟨text, depth, f index, renumberAll f children⟩

def renumberAll (f : Int → Int) : List Line → List Line
  | [] => []
  | line :: lines => line.renumber f :: renumberAll f lines

end

variable {f g : Int → Int}

@[simp] theorem renumberAll_nil : renumberAll f [] = [] := by
  simp [renumberAll]

@[simp] theorem renumberAll_cons (line : Line) (lines : List Line) :
    renumberAll f (line :: lines) = line.renumber f :: renumberAll f lines := by
  simp [renumberAll]

@[simp] theorem renumber_depth (line : Line) : (line.renumber f).depth = line.depth := by
  cases line
  simp [renumber]

@[simp] theorem renumber_index (line : Line) : (line.renumber f).index = f line.index := by
  cases line
  simp [renumber]

@[simp] theorem renumber_text (line : Line) : (line.renumber f).text = line.text := by
  cases line
  simp [renumber]

@[simp] theorem renumber_children (line : Line) :
    (line.renumber f).children = renumberAll f line.children := by
  cases line
  simp [renumber]

mutual

theorem renumber_renumber : ∀ line : Line, (line.renumber f).renumber g = line.renumber (g ∘ f)
  | ⟨text, depth, index, children⟩ => by
    simp only [renumber, renumberAll_renumberAll children, Function.comp_apply]

theorem renumberAll_renumberAll :
    ∀ lines : List Line, renumberAll g (renumberAll f lines) = renumberAll (g ∘ f) lines
  | [] => by simp
  | line :: lines => by
    simp only [renumberAll_cons, renumber_renumber line, renumberAll_renumberAll lines]

end

/-- Numbers that stay the same where the lines have theirs. -/
theorem renumberAll_eq_self : ∀ {lines : List Line},
    (∀ line ∈ flattenAll lines, f line.index = line.index) → renumberAll f lines = lines
  | [], _ => by simp
  | ⟨text, depth, index, children⟩ :: rest, h => by
    simp only [flattenAll_cons, List.mem_cons, List.mem_append] at h
    have hindex : f index = index := h ⟨text, depth, index, []⟩ (.inl rfl)
    have hchildren : renumberAll f children = children :=
      renumberAll_eq_self fun line hline => h line (.inr (.inl hline))
    have hrest : renumberAll f rest = rest :=
      renumberAll_eq_self fun line hline => h line (.inr (.inr hline))
    simp [renumber, hindex, hchildren, hrest]

end Line

/-- A diagnostic in which the fault and all frames have other lines. -/
def Diagnostic.renumber (f : Int → Int) (d : Diagnostic) : Diagnostic :=
  { d with
    line := d.line.map f
    backtrace := d.backtrace.map fun frame => ⟨frame.filename, frame.line.map f⟩ }

namespace Diagnostic

variable {f g : Int → Int}

@[simp] theorem renumber_at (fault : Fault) (line : Option Int) :
    (fault.at line).renumber f = fault.at (line.map f) := rfl

theorem renumber_renumber (d : Diagnostic) :
    (d.renumber f).renumber g = d.renumber (g ∘ f) := by
  simp [renumber, Function.comp_def]

/-- A diagnostic under other numbers that passes through a file. -/
theorem renumber_through (d : Diagnostic) (filename : Option String) (line : Option Int) :
    (d.through filename line).renumber f = (d.renumber f).through filename (line.map f) := by
  cases line <;> simp [renumber, through]

@[simp] theorem isEmpty_backtrace_renumber (d : Diagnostic) :
    (d.renumber f).backtrace.isEmpty = d.backtrace.isEmpty := by
  simp [renumber]

end Diagnostic

/-- What a computation comes to under other numbers, where `g` says so of its results. -/
def renumbered {α β : Type} (f : Int → Int) (g : α → β) (x : Except Diagnostic α) :
    Except Diagnostic β :=
  match x with
  | .ok a => .ok (g a)
  | .error d => .error (d.renumber f)

section

variable {α α' β β' γ : Type} {f : Int → Int} {g : α → α'} {h : β → β'}

@[simp] theorem renumbered_ok (a : α) : renumbered f g (.ok a) = .ok (g a) := rfl

@[simp] theorem renumbered_error (d : Diagnostic) :
    renumbered f g (.error d) = .error (d.renumber f) := rfl

/-- Two steps under other numbers are the two steps, each under these numbers. -/
theorem renumbered_bind {x : Except Diagnostic α} {x' : Except Diagnostic α'}
    {k : α → Except Diagnostic β} {k' : α' → Except Diagnostic β'} (hx : x' = renumbered f g x)
    (hk : ∀ a, k' (g a) = renumbered f h (k a)) : x' >>= k' = renumbered f h (x >>= k) := by
  cases x with
  | error d =>
      rw [hx]
      rfl
  | ok a =>
      rw [hx]
      exact hk a

theorem renumbered_renumbered {f' : Int → Int} {g' : α' → γ} (x : Except Diagnostic α) :
    renumbered f' g' (renumbered f g x) = renumbered (f' ∘ f) (g' ∘ g) x := by
  cases x with
  | error d => simp [Diagnostic.renumber_renumber]
  | ok a => rfl

theorem renumbered_map {x : Except Diagnostic α} {k : α → β} {k' : α' → β'}
    (hk : ∀ a, k' (g a) = h (k a)) :
    (renumbered f g x).map k' = renumbered f h (x.map k) := by
  cases x with
  | error d => rfl
  | ok a =>
      show Except.ok (k' (g a)) = .ok (h (k a))
      rw [hk]

end

/-! ## Regrouping -/

open Line

variable {f : Int → Int}

/-- A level under other numbers, with the lines after it. -/
theorem level_renumber (f : Int → Int) (base : Int) (lines : List Line) :
    level base (renumberAll f lines) =
      renumbered f (Prod.map (renumberAll f) (renumberAll f)) (level base lines) := by
  induction base, lines using siblings.induct with
  | case1 base => simp [level_nil]
  | case2 base line later hshallow =>
      have hshallow' : (line.renumber f).depth < base := by simpa using hshallow
      rw [renumberAll_cons, level_shallow _ hshallow, level_shallow _ hshallow']
      simp
  | case3 base line hdeep =>
      have hdeep' : ¬ (line.renumber f).depth < base := by simpa using hdeep
      rw [renumberAll_cons, renumberAll_nil, level_last hdeep, level_last hdeep']
      simp
  | case4 base line hdeep next later hnext ih =>
      have hdeep' : ¬ (line.renumber f).depth < base := by simpa using hdeep
      rw [renumberAll_cons] at ih
      rw [renumberAll_cons, renumberAll_cons, level_sibling later hdeep hnext,
        level_sibling _ hdeep' (by simpa using hnext)]
      exact renumbered_bind ih fun _ => by simp [pure, Except.pure]
  | case5 base line hdeep next later hnext hjump =>
      have hdeep' : ¬ (line.renumber f).depth < base := by simpa using hdeep
      rw [renumberAll_cons, renumberAll_cons, level_jump later hdeep hnext hjump,
        level_jump _ hdeep' (by simpa using hnext) (by simpa using hjump)]
      simp
  | case6 base line hdeep next later hnext hjump ihch ihrest =>
      have hdeep' : ¬ (line.renumber f).depth < base := by simpa using hdeep
      rw [renumberAll_cons] at ihch
      rw [renumberAll_cons, renumberAll_cons, level_nested later hdeep hnext hjump,
        level_nested _ hdeep' (by simpa using hnext) (by simpa using hjump), renumber_depth]
      -- what is left for the siblings depends on what the nested lines took
      cases hlevel : level next.depth (next :: later) with
      | error d =>
          rw [ihch, hlevel]
          rfl
      | ok found =>
          obtain ⟨children, left⟩ := found
          rw [ihch, hlevel]
          have hlength : left.length ≤ (next :: later).length := length_le_of_level hlevel
          show level base (renumberAll f left) >>= _ = renumbered f _ (level base left >>= _)
          refine renumbered_bind (ihrest left hlength) ?_
          rintro ⟨lines, rest⟩
          obtain ⟨text, depth, index, nested⟩ := line
          simp [renumber, pure, Except.pure]

/-! ## Tabulating -/

variable {g : Nat → Nat}

def renumberKept (g : Nat → Nat) (kept : List (List Char × Nat)) : List (List Char × Nat) :=
  kept.map fun line => (line.1, g line.2)

/-- Lines are counted from one on. -/
theorem one_le_of_mem_keptLines {template : List Char} {line : List Char × Nat}
    (h : line ∈ keptLines template) : 1 ≤ line.2 :=
  List.le_snd_of_mem_zipIdx (List.mem_of_mem_filter h)

/-- Two ways to give lines other numbers, `f` after they are tabulated and `g` before. -/
def Agree (f : Int → Int) (g : Nat → Nat) (kept : List (List Char × Nat)) : Prop :=
  ∀ line ∈ kept, ((g line.2 : Nat) : Int) = f line.2

/-- Renumbered lines are tabulated alike, and refused at the renumbered line. -/
theorem tabulateFrom_renumber (unit : Option (List Char)) {kept : List (List Char × Nat)}
    (h : Agree f g kept) :
    tabulateFrom unit (renumberKept g kept) =
      renumbered f (renumberAll f) (tabulateFrom unit kept) := by
  induction kept generalizing unit with
  | nil => rfl
  | cons line rest ih =>
      obtain ⟨raw, number⟩ := line
      have hnumber : ((g number : Nat) : Int) = f number := h (raw, number) List.mem_cons_self
      have hrest : ∀ unit, tabulateFrom unit (renumberKept g rest) =
          renumbered f (renumberAll f) (tabulateFrom unit rest) :=
        fun unit => ih unit fun line hline => h line (List.mem_cons_of_mem _ hline)
      -- whatever the depth of the first line is, its number is put in front alike
      have hcons : ∀ unit (depth : Nat),
          (tabulateFrom unit (renumberKept g rest)).map (.ofRaw raw depth (g number) :: ·) =
            renumbered f (renumberAll f)
              ((tabulateFrom unit rest).map (.ofRaw raw depth number :: ·)) := by
        intro unit depth
        rw [hrest]
        exact renumbered_map fun lines => by simp [ofRaw, renumber, hnumber]
      show tabulateFrom unit ((raw, g number) :: renumberKept g rest) = _
      by_cases hlead : indentation raw = []
      · rw [tabulateFrom_unindented _ hlead, tabulateFrom_unindented _ hlead]
        exact hcons _ _
      · cases unit with
        | none =>
            rw [tabulateFrom_first hlead, tabulateFrom_first hlead]
            split
            · simp [hnumber]
            · exact hcons _ _
        | some unit =>
            rw [tabulateFrom_indented hlead, tabulateFrom_indented hlead]
            cases unitsIn? unit (indentation raw) with
            | none => simp [hnumber]
            | some depth => exact hcons _ _

/-- Templates that keep the same lines under other numbers are tabulated to the same lines. -/
theorem tabulate_renumber {template template' : List Char}
    (hkept : keptLines template' = renumberKept g (keptLines template))
    (h : Agree f g (keptLines template)) :
    tabulate template' = renumbered f (renumberAll f) (tabulate template) := by
  unfold tabulate
  rw [hkept]
  generalize keptLines template = kept at h
  cases kept with
  | nil => rfl
  | cons line rest =>
      obtain ⟨raw, number⟩ := line
      have hnumber : ((g number : Nat) : Int) = f number := h (raw, number) List.mem_cons_self
      have hrest : Agree f g rest := fun line hline => h line (List.mem_cons_of_mem _ hline)
      show (if (indentation raw).isEmpty = true then
        (tabulateFrom none (renumberKept g rest)).map (.ofRaw raw 0 (g number) :: ·)
        else .error (Fault.indentedStart.at ((g number : Nat) : Int))) = _
      dsimp only
      split
      · rw [tabulateFrom_renumber none hrest]
        exact renumbered_map fun lines => by simp [ofRaw, renumber, hnumber]
      · simp [hnumber]

/-! ## Parsing -/

/-- Renumbered lines are grouped alike, and refused at the renumbered line. -/
theorem regroup_renumber (lines : List Line) :
    (regroup (renumberAll f lines) 0).map Prod.fst =
      renumbered f (renumberAll f) ((regroup lines 0).map Prod.fst) := by
  cases lines with
  | nil => rfl
  | cons line after =>
      rw [renumberAll_cons, regroup_cons, regroup_cons, ← renumberAll_cons, renumber_depth,
        level_renumber]
      rcases level line.depth (line :: after) with d | ⟨forest, rest⟩ <;> rfl

/-- **Templates that keep the same lines under other numbers** are parsed to the same forest or
refused for the same fault, under these numbers. -/
theorem parseLines_renumber {template template' : List Char}
    (hkept : keptLines template' = renumberKept g (keptLines template))
    (h : Agree f g (keptLines template)) :
    parseLines template' = renumbered f (renumberAll f) (parseLines template) := by
  have hparse : ∀ template : List Char, parseLines template =
      tabulate template >>= fun lines => (regroup lines 0).map Prod.fst := by
    intro template
    unfold parseLines
    rcases tabulate template with d | lines
    · rfl
    · rcases regroup lines 0 with d | ⟨forest, rest⟩ <;> rfl
  rw [hparse, hparse]
  exact renumbered_bind (tabulate_renumber hkept h) regroup_renumber

end Stylesheet
