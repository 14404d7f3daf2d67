import Mathlib.Data.List.Forall2
import Stylesheet.Proofs.Assembly.Siblings

/-!
# Two runs side by side

Many properties of assemblies compare two runs: over lines that differ in their numbers, for files
of different names, with or without silent comments, nested more or less deeply. A `Likeness` says
in which respects two runs may differ, and what this means for lines, nodes, states, failures and
whole results follows from it.

The first run leads. `Matches` says that the second one does what the first one does, up to the
likeness; only after a failure that is excused the second run may do anything. A comparison that
is about successful runs alone excuses every failure.

* `Matches.bind` : runs that match step by step.
* `Nodes.append` : forests put one after the other.
-/

namespace Stylesheet

open Assembly

/-! ## Tables with the same names -/

section

variable {α β : Type} {R : α → β → Prop} {t : Table α} {t' : Table β}

/-- The values of a name are related, or there is none in either table. -/
theorem Table.rel_get? (h : List.Forall₂ (fun entry entry' => entry.1 = entry'.1 ∧
    R entry.2 entry'.2) t.entries t'.entries) (name : String) :
    Option.Rel R (t.get? name) (t'.get? name) := by
  obtain ⟨entries⟩ := t
  obtain ⟨entries'⟩ := t'
  simp only [Table.get?] at *
  induction h with
  | nil => exact .none
  | @cons entry entry' rest rest' he _ ih =>
      rw [List.find?_cons, List.find?_cons, he.1]
      split
      · exact .some he.2
      · exact ih

/-- Setting one name to related values keeps two tables related, entry by entry. -/
theorem Table.rel_set (h : List.Forall₂ (fun entry entry' => entry.1 = entry'.1 ∧
    R entry.2 entry'.2) t.entries t'.entries) (name : String) {value : α} {value' : β}
    (hvalue : R value value') :
    List.Forall₂ (fun entry entry' => entry.1 = entry'.1 ∧ R entry.2 entry'.2)
      (t.set name value).entries (t'.set name value').entries := by
  obtain ⟨entries⟩ := t
  obtain ⟨entries'⟩ := t'
  simp only [Table.set] at *
  induction h with
  | nil => exact .cons ⟨rfl, hvalue⟩ .nil
  | @cons entry entry' rest rest' he hrest ih =>
      obtain ⟨n, v⟩ := entry
      obtain ⟨n', v'⟩ := entry'
      obtain ⟨rfl, hv⟩ := he
      simp only [Table.setEntries]
      split
      · exact .cons ⟨rfl, hvalue⟩ hrest
      · exact .cons ⟨rfl, hv⟩ ih

end

/-! ## Likenesses -/

/-- In which respects two runs may differ. -/
structure Likeness where
  /-- Which line numbers stand for one another. -/
  number : Int → Int → Prop
  /-- Which file names stand for one another. -/
  filename : Option String → Option String → Prop
  /-- Which lines, with all that is nested beneath them, the second run may be without. -/
  gone : Line → Prop
  /-- After which failures of the first run nothing is said of the second one. -/
  excused : Failure → Prop
  number_refl : ∀ n, number n n
  filename_refl : ∀ f, filename f f
  silent_of_gone : ∀ line, gone line → Shape.of line.text.toList = .silentComment
  excused_through : ∀ {d : Diagnostic} (filename : Option String) (line : Option Int),
    excused (.refused d) → excused (.refused (d.through filename line))
  /-- Failures are only compared where they name the same files and no line is gone. -/
  strict : (∀ failure, excused failure) ∨
    (∀ line, ¬ gone line) ∧ ∀ f f', filename f f' → f = f'

namespace Likeness

variable (r : Likeness)

/-! ## What is alike -/

/-- Forests of lines that are alike: the same texts at the same depths. -/
inductive Lines : List Line → List Line → Prop
  | nil : Lines [] []
  | cons {text : String} {depth index index' : Int} {children children' rest rest' : List Line} :
      r.number index index' → Lines children children' → Lines rest rest' →
      Lines (⟨text, depth, index, children⟩ :: rest) (⟨text, depth, index', children'⟩ :: rest')
  | gone {line : Line} {rest rest' : List Line} :
      r.gone line → Lines rest rest' → Lines (line :: rest) rest'

/-- Contents that are alike: only the lines that comments keep may differ. -/
inductive Contents : Content → Content → Prop
  | same (content : Content) : Contents content content
  | comment {text : String} {visible : Bool} {lines lines' : List Line} :
      r.Lines lines lines' → Contents (.comment text visible lines) (.comment text visible lines')

inductive Nodes : List Node → List Node → Prop
  | nil : Nodes [] []
  | cons {content content' : Content} {line line' : Option Int} {filename filename' : Option String}
      {children children' rest rest' : List Node} :
      r.Contents content content' → Option.Rel r.number line line' →
      r.filename filename filename' → Nodes children children' → Nodes rest rest' →
      Nodes (⟨content, line, filename, children⟩ :: rest)
        (⟨content', line', filename', children'⟩ :: rest')

def Mixins (mixins mixins' : Mixins) : Prop :=
  List.Forall₂ (fun entry entry' => entry.1 = entry'.1 ∧ r.Lines entry.2 entry'.2)
    mixins.entries mixins'.entries

structure States (state state' : State) : Prop where
  constants : state.constants = state'.constants
  mixins : r.Mixins state.mixins state'.mixins

/-- Contexts that are alike. Where all failures are excused, the second run may be in fewer
mixins. -/
structure Contexts (context context' : Context) : Prop where
  disk : context.disk = context'.disk
  loadPaths : context.options.loadPaths = context'.options.loadPaths
  attributeSyntax : context.options.attributeSyntax = context'.options.attributeSyntax
  filename : r.filename context.filename context'.filename
  including : context.including = context'.including ∨
    (∀ failure, r.excused failure) ∧ context'.including ⊆ context.including

structure Frames (frame frame' : Frame) : Prop where
  filename : frame.filename = frame'.filename
  line : Option.Rel r.number frame.line frame'.line

structure Diagnostics (d d' : Diagnostic) : Prop where
  fault : d.fault = d'.fault
  line : Option.Rel r.number d.line d'.line
  filename : d.filename = d'.filename
  backtrace : List.Forall₂ r.Frames d.backtrace d'.backtrace

inductive Failures : Failure → Failure → Prop
  | refused {d d' : Diagnostic} : r.Diagnostics d d' → Failures (.refused d) (.refused d')
  | infiniteNumber : Failures .infiniteNumber .infiniteNumber
  | undecodable (path : String) (fault : Text.Utf8Fault) :
      Failures (.undecodable path fault) (.undecodable path fault)
  | nestingLimit : Failures .nestingLimit .nestingLimit

/-- Results that are alike, where `related` says which values are. -/
inductive Results {α β : Type} (related : α → β → Prop) :
    Except Failure α × State → Except Failure β × State → Prop
  | ok {a : α} {b : β} {t t' : State} :
      related a b → r.States t t' → Results related (.ok a, t) (.ok b, t')
  | error {failure failure' : Failure} {t t' : State} :
      r.Failures failure failure' → r.States t t' →
      Results related (.error failure, t) (.error failure', t')
  | excused {failure : Failure} {t : State} {result : Except Failure β × State} :
      r.excused failure → Results related (.error failure, t) result

inductive Parsed : Except Diagnostic (List Line) → Except Diagnostic (List Line) → Prop
  | ok {lines lines' : List Line} : r.Lines lines lines' → Parsed (.ok lines) (.ok lines')
  | error {d d' : Diagnostic} : r.Diagnostics d d' → Parsed (.error d) (.error d')
  | excused {d : Diagnostic} {result : Except Diagnostic (List Line)} :
      r.excused (.refused d) → Parsed (.error d) result

/-- From states that are alike the two assemblies come to results that are alike. -/
def Matches {α β : Type} (related : α → β → Prop) (x : Assembly α) (y : Assembly β) : Prop :=
  ∀ s s', r.States s s' → r.Results related (x.outcome s) (y.outcome s')

variable {r} {α β γ δ : Type}

/-! ## Forests -/

theorem Lines.refl : ∀ lines : List Line, r.Lines lines lines
  | [] => .nil
  | ⟨_, _, index, children⟩ :: rest => .cons (r.number_refl index) (refl children) (refl rest)

theorem Nodes.append {xs xs' ys ys' : List Node} (hx : r.Nodes xs xs') (hy : r.Nodes ys ys') :
    r.Nodes (xs ++ ys) (xs' ++ ys') := by
  induction hx with
  | nil => exact hy
  | cons hc hl hf hch _ _ ih => exact .cons hc hl hf hch ih

theorem Nodes.isEmpty_eq {xs ys : List Node} (h : r.Nodes xs ys) : xs.isEmpty = ys.isEmpty := by
  cases h <;> rfl

/-- Related forests have directives both or neither. -/
theorem Nodes.any_isDirective_eq {xs ys : List Node} (h : r.Nodes xs ys) :
    xs.any Node.isDirective = ys.any Node.isDirective := by
  induction h with
  | nil => rfl
  | cons hc _ _ _ _ _ ih =>
      rw [List.any_cons, List.any_cons, ih]
      cases hc <;> rfl

theorem Nodes.isDirective_eq {node node' : Node} (h : r.Nodes [node] [node']) :
    node.isDirective = node'.isDirective := by
  simpa using h.any_isDirective_eq

/-! ## States -/

theorem Mixins.refl (mixins : Stylesheet.Mixins) : r.Mixins mixins mixins :=
  List.forall₂_same.mpr fun entry _ => ⟨rfl, Lines.refl entry.2⟩

theorem States.refl (state : State) : r.States state state :=
  ⟨rfl, Mixins.refl _⟩

theorem Contexts.refl (context : Context) : r.Contexts context context :=
  ⟨rfl, rfl, rfl, r.filename_refl _, .inl rfl⟩

/-- The mixins of a name are alike, or there is none in either run. -/
theorem Mixins.get? {mixins mixins' : Stylesheet.Mixins} (h : r.Mixins mixins mixins')
    (name : String) : Option.Rel r.Lines (mixins.get? name) (mixins'.get? name) :=
  Table.rel_get? h name

/-- Defining related bodies under one name keeps the tables related. -/
theorem Mixins.set {mixins mixins' : Stylesheet.Mixins} (h : r.Mixins mixins mixins')
    (name : String) {body body' : List Line} (hb : r.Lines body body') :
    r.Mixins (mixins.set name body) (mixins'.set name body') :=
  Table.rel_set h name hb

/-! ## Where nothing may differ -/

/-- Lines that may not differ in their numbers, and none of which may be missing, are equal. -/
theorem Lines.eq (hn : ∀ {n n'}, r.number n n' → n = n') (hg : ∀ line, ¬ r.gone line)
    {xs ys : List Line} (h : r.Lines xs ys) : xs = ys := by
  induction h with
  | nil => rfl
  | cons hi _ _ ihch ihrest => rw [hn hi, ihch, ihrest]
  | gone hgone _ _ => exact absurd hgone (hg _)

theorem Contents.eq (hn : ∀ {n n'}, r.number n n' → n = n') (hg : ∀ line, ¬ r.gone line)
    {c c' : Content} (h : r.Contents c c') : c = c' := by
  cases h with
  | same => rfl
  | comment hl => rw [hl.eq hn hg]

theorem Mixins.eq (hn : ∀ {n n'}, r.number n n' → n = n') (hg : ∀ line, ¬ r.gone line)
    {mixins mixins' : Stylesheet.Mixins} (h : r.Mixins mixins mixins') : mixins = mixins' := by
  obtain ⟨entries⟩ := mixins
  obtain ⟨entries'⟩ := mixins'
  unfold Mixins at h
  dsimp only at h
  rw [Table.mk.injEq, ← List.forall₂_eq_eq_eq]
  exact h.imp fun entry entry' he => Prod.ext he.1 (he.2.eq hn hg)

theorem line_eq (hn : ∀ {n n'}, r.number n n' → n = n') {line line' : Option Int}
    (h : Option.Rel r.number line line') : line = line' := by
  cases h with
  | none => rfl
  | some hl => exact congrArg some (hn hl)

/-- A likeness that tells all lines and files apart, and drops no line, relates a forest to itself.
-/
theorem Nodes.eq (hn : ∀ {n n'}, r.number n n' → n = n') (hg : ∀ line, ¬ r.gone line)
    (hf : ∀ {f f'}, r.filename f f' → f = f') {xs ys : List Node} (h : r.Nodes xs ys) :
    xs = ys := by
  induction h with
  | nil => rfl
  | cons hc hl hfile _ _ ihch ihrest => rw [hc.eq hn hg, line_eq hn hl, hf hfile, ihch, ihrest]

/-- A likeness that tells all lines apart relates a failure to itself alone. -/
theorem Failures.eq (hn : ∀ {n n'}, r.number n n' → n = n') {failure failure' : Failure}
    (h : r.Failures failure failure') : failure = failure' := by
  cases h with
  | @refused d d' hd =>
      have hframes : d.backtrace = d'.backtrace := by
        rw [← List.forall₂_eq_eq_eq]
        refine hd.backtrace.imp fun frame frame' hframe => ?_
        rw [Frame.mk.injEq]
        exact ⟨hframe.filename, line_eq hn hframe.line⟩
      rw [Failure.refused.injEq, Diagnostic.mk.injEq]
      exact ⟨hd.fault, line_eq hn hd.line, hd.filename, hframes⟩
  | _ => rfl

/-! ## Failures -/

theorem Diagnostics.at (fault : Fault) {line line' : Option Int}
    (h : Option.Rel r.number line line') : r.Diagnostics (fault.at line) (fault.at line') :=
  ⟨rfl, h, rfl, .nil⟩

theorem Diagnostics.refl (d : Diagnostic) : r.Diagnostics d d := by
  have hline : ∀ line : Option Int, Option.Rel r.number line line := by
    intro line
    cases line with
    | none => exact .none
    | some n => exact .some (r.number_refl n)
  exact ⟨rfl, hline _, rfl, List.forall₂_same.mpr fun frame _ => ⟨rfl, hline _⟩⟩

theorem Parsed.refl (result : Except Diagnostic (List Line)) : r.Parsed result result := by
  cases result with
  | ok lines => exact .ok (.refl lines)
  | error d => exact .error (.refl d)

/-- Related diagnostics have a backtrace both or neither. -/
theorem Diagnostics.isEmpty_eq {d d' : Diagnostic} (h : r.Diagnostics d d') :
    d.backtrace.isEmpty = d'.backtrace.isEmpty := by
  obtain ⟨-, -, -, hb⟩ := h
  generalize d.backtrace = frames at hb
  generalize d'.backtrace = frames' at hb
  cases hb <;> rfl

/-- Diagnostics that are alike stay so on their way through a file. -/
theorem Diagnostics.through {d d' : Diagnostic} (h : r.Diagnostics d d')
    (filename : Option String) {line line' : Option Int} (hl : Option.Rel r.number line line') :
    r.Diagnostics (d.through filename line) (d'.through filename line') where
  fault := h.fault
  line := h.line
  filename := by
    simp only [Diagnostic.through, h.isEmpty_eq, h.filename]
  backtrace := by
    refine List.rel_append h.backtrace (.cons ⟨rfl, ?_⟩ .nil)
    cases hl with
    | none => exact h.line
    | some hn => exact .some hn

/-- Where two files are named differently all failures are excused. -/
theorem Diagnostics.through_of_filename {d d' : Diagnostic} (h : r.Diagnostics d d')
    {filename filename' : Option String} (hf : r.filename filename filename')
    {line line' : Option Int} (hl : Option.Rel r.number line line') :
    r.excused (.refused (d.through filename line)) ∨
      r.Diagnostics (d.through filename line) (d'.through filename' line') := by
  rcases r.strict with hall | ⟨-, heq⟩
  · exact .inl (hall _)
  · rw [heq _ _ hf]
    exact .inr (h.through _ hl)

/-! ## Results -/

namespace Matches

variable {P : α → β → Prop} {x : Assembly α} {y : Assembly β}

theorem pure {a : α} {b : β} (h : P a b) : r.Matches P (Pure.pure a) (Pure.pure b) :=
  fun _ _ hs => .ok h hs

theorem refuse (fault : Fault) {line line' : Option Int} (h : Option.Rel r.number line line') :
    r.Matches P (Assembly.refuse fault line) (Assembly.refuse fault line') :=
  fun _ _ hs => .error (.refused (.at fault h)) hs

theorem throw {failure failure' : Failure} (h : r.Failures failure failure') :
    r.Matches P (MonadExcept.throw failure) (MonadExcept.throw failure') :=
  fun _ _ hs => .error h hs

/-- A failure that is excused is matched by anything. -/
theorem excused {failure : Failure} (h : r.excused failure) :
    r.Matches P (MonadExcept.throw failure) y :=
  fun _ _ _ => .excused h

/-- Runs that match step by step. -/
theorem bind {f : α → Assembly γ} {g : β → Assembly δ} {Q : γ → δ → Prop} (h : r.Matches P x y)
    (hfg : ∀ a b, P a b → r.Matches Q (f a) (g b)) : r.Matches Q (x >>= f) (y >>= g) := by
  intro s s' hs
  have hxy := h s s' hs
  rw [outcome_bind, outcome_bind]
  generalize x.outcome s = result at hxy
  generalize y.outcome s' = result' at hxy
  cases hxy with
  | ok hab ht => exact hfg _ _ hab _ _ ht
  | error hf ht => exact .error hf ht
  | excused he => exact .excused he

/-- The states that two runs are in are alike. -/
theorem get {f : State → Assembly α} {g : State → Assembly β}
    (h : ∀ s s', r.States s s' → r.Matches P (f s) (g s')) :
    r.Matches P (MonadState.get >>= f) (MonadState.get >>= g) := by
  intro s s' hs
  rw [outcome_bind, outcome_bind]
  exact h s s' hs s s' hs

theorem modify {f g : State → State} (h : ∀ s s', r.States s s' → r.States (f s) (g s')) :
    r.Matches (fun _ _ => True) (modify f : Assembly Unit) (modify g : Assembly Unit) :=
  fun s s' hs => .ok trivial (h s s' hs)

theorem log (event event' : Event) :
    r.Matches (fun _ _ => True) (Assembly.log event) (Assembly.log event') :=
  fun _ _ hs => .ok trivial ⟨hs.constants, hs.mixins⟩

/-- Where the first run comes to a result, the second one comes to a result that is alike. -/
theorem ok_of_ok (h : r.Matches P x y) {s s' t : State} (hs : r.States s s') {a : α}
    (hx : x.outcome s = (.ok a, t)) :
    ∃ b t', y.outcome s' = (.ok b, t') ∧ P a b ∧ r.States t t' := by
  have hxy := h s s' hs
  rw [hx] at hxy
  generalize y.outcome s' = result at hxy
  cases hxy with
  | ok hab ht => exact ⟨_, _, rfl, hab, ht⟩

/-- A failure that leaves the tables as they were before leaves them alike. -/
theorem restoring (h : r.Matches P x y) :
    r.Matches P (Assembly.restoring x) (Assembly.restoring y) := by
  intro s s' hs
  have hxy := h s s' hs
  rw [outcome_restoring, outcome_restoring]
  generalize x.outcome s = result at hxy
  generalize y.outcome s' = result' at hxy
  cases hxy with
  | ok hab ht => exact .ok hab ht
  | error hf ht => exact .error hf ⟨hs.constants, hs.mixins⟩
  | excused he => exact .excused he

theorem mapDiagnostic {f g : Diagnostic → Diagnostic} (h : r.Matches P x y)
    (he : ∀ d, r.excused (.refused d) → r.excused (.refused (f d)))
    (hfg : ∀ d d', r.Diagnostics d d' →
      r.excused (.refused (f d)) ∨ r.Diagnostics (f d) (g d')) :
    r.Matches P (Assembly.mapDiagnostic f x) (Assembly.mapDiagnostic g y) := by
  intro s s' hs
  have hxy := h s s' hs
  rw [outcome_mapDiagnostic, outcome_mapDiagnostic]
  generalize x.outcome s = result at hxy
  generalize y.outcome s' = result' at hxy
  cases hxy with
  | ok hab ht => exact .ok hab ht
  | error hf ht =>
      cases hf with
      | refused hd =>
          rcases hfg _ _ hd with hex | hd
          · exact .excused hex
          · exact .error (.refused hd) ht
      | infiniteNumber => exact .error .infiniteNumber ht
      | undecodable path fault => exact .error (.undecodable path fault) ht
      | nestingLimit => exact .error .nestingLimit ht
  | @excused failure t result hex =>
      cases failure with
      | refused d => exact .excused (he d hex)
      | _ => exact .excused hex

end Matches

/-! ## Successful runs -/

/-- The comparison of a successful run with another one, in which the numbers of lines and the
files of nodes are the same or not and some silent comments may be missing. -/
def successful (sameNumbers sameFiles : Prop) (missing : Line → Prop) : Likeness where
  number := fun n n' => sameNumbers → n = n'
  filename := fun f f' => sameFiles → f = f'
  gone := fun line => Shape.of line.text.toList = .silentComment ∧ missing line
  excused := fun _ => True
  number_refl := fun _ _ => rfl
  filename_refl := fun _ _ => rfl
  silent_of_gone := fun _ h => h.1
  excused_through := fun _ _ _ => trivial
  strict := .inl fun _ => trivial

end Likeness

end Stylesheet
