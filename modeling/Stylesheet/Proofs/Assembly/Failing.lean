import Stylesheet.Proofs.Assembly.Quiet
import Stylesheet.Proofs.Assembly.Transparency
import Stylesheet.Proofs.Line.Regrouping
import Stylesheet.Proofs.Results

/-!
# How assemblies fail

A failure ends everything around it: it passes unchanged through sibling lines, nested lines and
inclusions, and an import adds to it the line that imports. So a failure is either found in the
lines themselves, and then it is a fault that no file is noted in or a failure that is none, or it
is the failure of something else that was assembled for one of them.

* `fails_bind_iff` : the first step fails, or the second one from what the first one left.
* `arrange_fails` : which line siblings fail at.
* `meaning_fails` : which lines fail by what stands elsewhere.
-/

namespace Stylesheet

def Failure.map (f : Diagnostic → Diagnostic) : Failure → Failure
  | refused d => refused (f d)
  | failure => failure

theorem Failure.map_eq_refused_iff {f : Diagnostic → Diagnostic} {failure : Failure}
    {d : Diagnostic} : failure.map f = .refused d ↔ ∃ d', failure = .refused d' ∧ d = f d' := by
  cases failure with
  | refused d' => simp [map, eq_comm]
  | _ => simp [map]

namespace Assembly

variable {α β : Type} {s : State} {failure : Failure}

/-- From the state on the assembly comes to the failure. -/
def Fails (x : Assembly α) (s : State) (failure : Failure) : Prop :=
  ∃ t, x.outcome s = (.error failure, t)

/-- An assembly fails in one way only. -/
theorem Fails.unique {x : Assembly α} {failure' : Failure} (h : Fails x s failure)
    (h' : Fails x s failure') : failure' = failure := by
  obtain ⟨t, ht⟩ := h
  obtain ⟨t', ht'⟩ := h'
  rw [ht] at ht'
  cases ht'
  rfl

/-- A computation that only returns does not fail. -/
theorem not_fails_pure (a : α) : ¬ Fails (pure a) s failure := by
  rintro ⟨t, ht⟩
  cases ht

theorem fails_throw_iff {thrown : Failure} :
    Fails (throw thrown : Assembly α) s failure ↔ failure = thrown := by
  constructor
  · rintro ⟨t, ht⟩
    cases ht
    rfl
  · rintro rfl
    exact ⟨s, rfl⟩

theorem fails_refuse_iff {fault : Fault} {line : Option Int} :
    Fails (refuse fault line : Assembly α) s failure ↔ failure = .refused (fault.at line) :=
  fails_throw_iff

/-- Two steps fail when the first does, or the second where the first left off. -/
theorem fails_bind_iff {x : Assembly α} {f : α → Assembly β} :
    Fails (x >>= f) s failure ↔
      Fails x s failure ∨ ∃ a t, x.outcome s = (.ok a, t) ∧ Fails (f a) t failure := by
  unfold Fails
  rw [outcome_bind]
  rcases x.outcome s with ⟨thrown | a, t⟩
  · simp
  · simp

/-- After a first step that succeeds only the second one can fail. -/
theorem fails_bind_of_ok {x : Assembly α} {f : α → Assembly β} {a : α} {t : State}
    (h : x.outcome s = (.ok a, t)) : Fails (x >>= f) s failure ↔ Fails (f a) t failure := by
  unfold Fails
  rw [outcome_bind, h]

theorem fails_bind_pure_iff {x : Assembly α} {g : α → β} :
    Fails (x >>= fun a => pure (g a)) s failure ↔ Fails x s failure := by
  rw [fails_bind_iff]
  constructor
  · rintro (h | ⟨a, t, -, h⟩)
    · exact h
    · exact absurd h (not_fails_pure _)
  · exact .inl

/-- Only the diagnostic of the failure changes, and only if it has one. -/
theorem fails_mapDiagnostic_iff {f : Diagnostic → Diagnostic} {x : Assembly α} :
    Fails (mapDiagnostic f x) s failure ↔ ∃ inner, Fails x s inner ∧ failure = inner.map f := by
  have hmap : ∀ inner t, x.outcome s = (.error inner, t) →
      (mapDiagnostic f x).outcome s = (.error (inner.map f), t) := by
    intro inner t hx
    rw [outcome_mapDiagnostic, hx]
    cases inner <;> rfl
  constructor
  · rintro ⟨t, ht⟩
    rcases hx : x.outcome s with ⟨inner | a, u⟩
    · rw [hmap inner u hx] at ht
      cases ht
      exact ⟨inner, ⟨t, hx⟩, rfl⟩
    · rw [outcome_mapDiagnostic_eq_ok_iff.mpr hx] at ht
      cases ht
  · rintro ⟨inner, ⟨t, hx⟩, rfl⟩
    exact ⟨t, hmap inner t hx⟩

/-- Putting the tables back hides no failure and makes none. -/
theorem fails_restoring_iff {x : Assembly α} :
    Fails (restoring x) s failure ↔ Fails x s failure := by
  unfold Fails
  rw [outcome_restoring]
  rcases x.outcome s with ⟨thrown | a, t⟩
  · simp
  · simp

end Assembly

open Assembly

/-! ## Failures in the lines themselves -/

/-- However the assembly fails, it has found a fault at a line. -/
def Assembly.Refuses {α : Type} (x : Assembly α) : Prop :=
  ∀ s failure, x.Fails s failure → failure.IsFault

namespace Assembly.Refuses

variable {α : Type}

theorem of_quiet {x : Assembly α} (h : Quiet x) : Refuses x := by
  rintro s failure ⟨t, ht⟩
  exact h.isFault ht

theorem refuse (fault : Fault) (line : Option Int) :
    Refuses (Assembly.refuse fault line : Assembly α) :=
  of_quiet (.refuse fault line)

theorem modify (f : State → State) : Refuses (MonadStateOf.modifyGet fun s => ((), f s)) := by
  rintro s failure ⟨t, ht⟩
  cases ht

end Assembly.Refuses

/-! ## Templates that are no lines -/

theorem untraced_of_tabulateFrom {unit : Option (List Char)} {kept : List (List Char × Nat)}
    {d : Diagnostic} (h : tabulateFrom unit kept = .error d) : d.Untraced := by
  induction kept generalizing unit with
  | nil => cases h
  | cons line rest ih =>
      obtain ⟨raw, number⟩ := line
      unfold tabulateFrom at h
      split at h
      · exact ih (error_of_map h)
      · split at h
        · cases h
          exact Fault.untraced_at _ _
        · exact ih (error_of_map h)
      · split at h
        · exact ih (error_of_map h)
        · cases h
          exact Fault.untraced_at _ _

/-- Cutting a template into lines fails without a backtrace. -/
theorem untraced_of_tabulate {template : List Char} {d : Diagnostic}
    (h : tabulate template = .error d) : d.Untraced := by
  unfold tabulate at h
  split at h
  · cases h
  · split at h
    · exact untraced_of_tabulateFrom (error_of_map h)
    · cases h
      exact Fault.untraced_at _ _

theorem untraced_of_level (base : Int) (lines : List Line) {d : Diagnostic}
    (h : level base lines = .error d) : d.Untraced := by
  induction base, lines using siblings.induct with
  | case1 base =>
      rw [level_nil] at h
      cases h
  | case2 base line later hshallow =>
      rw [level_shallow later hshallow] at h
      cases h
  | case3 base line hdeep =>
      rw [level_last hdeep] at h
      cases h
  | case4 base line hdeep next later hnext ih =>
      rw [level_sibling later hdeep hnext] at h
      rcases error_of_bind h with h | ⟨_, -, h⟩
      · exact ih h
      · cases h
  | case5 base line hdeep next later hnext hjump =>
      rw [level_jump later hdeep hnext hjump] at h
      cases h
      exact Fault.untraced_at _ _
  | case6 base line hdeep next later hnext hjump ihchildren ihrest =>
      rw [level_nested later hdeep hnext hjump] at h
      rcases error_of_bind h with h | ⟨⟨children, rest⟩, hchildren, h⟩
      · exact ihchildren h
      · rcases error_of_bind h with h | ⟨_, -, h⟩
        · exact ihrest rest (length_le_of_level hchildren) h
        · cases h

theorem untraced_of_regroup {lines : List Line} {d : Diagnostic} (h : regroup lines 0 = .error d) :
    d.Untraced := by
  cases lines with
  | nil => cases h
  | cons line after =>
      rw [regroup_cons] at h
      rcases error_of_bind h with h | ⟨_, -, h⟩
      · exact untraced_of_level _ _ h
      · cases h

/-- A template of which no lines can be made is refused in its own file. -/
theorem untraced_of_parseLines {template : List Char} {d : Diagnostic}
    (h : parseLines template = .error d) : d.Untraced := by
  unfold parseLines at h
  rcases error_of_bind h with h | ⟨lines, -, h⟩
  · exact untraced_of_tabulate h
  · rcases error_of_bind h with h | ⟨_, -, h⟩
    · exact untraced_of_regroup h
    · cases h

/-! ## Lines by themselves -/

theorem defineMixin_refuses (text : List Char) (body : List Line) (line : Int) :
    (defineMixin text body line).Refuses := by
  unfold defineMixin
  dsimp only
  split
  · exact .refuse _ _
  · exact .modify _

/-- The line evaluates the expression: the value of its attribute or constant. -/
inductive Line.Evaluates (context : Context) (line : Line) : List Char → Prop
  | attr {way : AttributeSyntax} {name value : List Char} :
      Shape.of line.text.toList = .attr way →
      context.options.attributeSyntax ≠ some way.other →
      attributeParts? way line.text.toList = some ⟨name, true, value⟩ → Evaluates context line value
  | constant {name value : List Char} {conditional : Bool} :
      Shape.of line.text.toList = .constant →
      constantParts? line.text.toList = some ⟨name, conditional, value⟩ →
      Evaluates context line value

variable {elsewhere : Elsewhere} {context : Context} {root : Bool} {s : State} {failure : Failure}

/-- An expression fails exactly when it has no CSS text under the constants, at its line. -/
theorem evaluate_fails_iff {expression : List Char} {line : Int} :
    (Assembly.evaluate expression line).Fails s failure ↔
      ∃ refusal, Expr.cssOf s.constants (String.ofList expression) = .error refusal ∧
        failure = refusal.at (some line) := by
  unfold Fails
  rw [outcome_evaluate]
  cases Expr.cssOf s.constants (String.ofList expression) with
  | ok css => simp
  | error refusal => simp [eq_comm]

/-- An attribute fails by a fault in its line, or by its value. -/
theorem attribute?_fails {way : AttributeSyntax} {text : List Char} {line : Int}
    (h : (attribute? context way text line).Fails s failure) :
    failure.IsFault ∨ context.options.attributeSyntax ≠ some way.other ∧ ∃ name value,
      attributeParts? way text = some ⟨name, true, value⟩ ∧
      (Assembly.evaluate value line).Fails s failure := by
  unfold attribute? at h
  split at h
  · exact .inl (Refuses.refuse _ _ _ _ h)
  · next hway =>
      split at h
      · exact .inl (Refuses.refuse _ _ _ _ h)
      · next name value hparts =>
          exact .inr ⟨hway, name, value, hparts, fails_bind_pure_iff.mp h⟩
      · exact absurd h (not_fails_pure _)

theorem defineConstant_fails {text : List Char} {line : Int}
    (h : (defineConstant text line).Fails s failure) :
    failure.IsFault ∨ ∃ name conditional value,
      constantParts? text = some ⟨name, conditional, value⟩ ∧
      (Assembly.evaluate value line).Fails s failure := by
  unfold defineConstant at h
  split at h
  · exact .inl (Refuses.refuse _ _ _ _ h)
  · next name conditional value hparts =>
      rcases fails_bind_iff.mp h with h | ⟨css, t, -, h⟩
      · exact .inr ⟨name, conditional, value, hparts, h⟩
      · exact .inl (Refuses.modify _ _ _ h)

/-! ## Inclusions -/

/-- An inclusion looks its body up, refuses it while it is being assembled, and else assembles it.
-/
theorem outcome_includeMixin (line : Line) (s : State) :
    (includeMixin elsewhere context line.text.toList line.index).outcome s =
      (match s.mixins.get? line.mixinName with
        | none => Assembly.refuse (.undefinedMixin line.mixinName) line.index
        | some body =>
          if context.including.contains line.mixinName then
            Assembly.refuse (.mixinRecursion line.mixinName) line.index
          else elsewhere { context with including := line.mixinName :: context.including } false
            body : Assembly (List Node)).outcome s :=
  outcome_bind_of_ok (outcome_get s) _

/-- The body of a mixin that is defined and has not been entered is assembled. -/
theorem outcome_includeMixin_of_get? {line : Line} {body : List Line}
    (hbody : s.mixins.get? line.mixinName = some body) (hnew : line.mixinName ∉ context.including) :
    (includeMixin elsewhere context line.text.toList line.index).outcome s =
      (elsewhere { context with including := line.mixinName :: context.including } false
        body).outcome s := by
  rw [outcome_includeMixin, hbody]
  dsimp only
  rw [if_neg (mt List.contains_iff_mem.mp hnew)]

/-- An inclusion fails if its mixin is not defined or is being included already, and else if the
body of the mixin does. -/
theorem includeMixin_fails_iff (line : Line) :
    (includeMixin elsewhere context line.text.toList line.index).Fails s failure ↔
      match s.mixins.get? line.mixinName with
      | none => failure = .refused ((Fault.undefinedMixin line.mixinName).at (some line.index))
      | some body =>
        if line.mixinName ∈ context.including then
          failure = .refused ((Fault.mixinRecursion line.mixinName).at (some line.index))
        else (elsewhere { context with including := line.mixinName :: context.including } false
          body).Fails s failure := by
  unfold Fails
  rw [outcome_includeMixin]
  cases s.mixins.get? line.mixinName with
  | none => exact fails_refuse_iff
  | some body =>
      dsimp only
      by_cases hmem : line.mixinName ∈ context.including
      · rw [if_pos hmem, if_pos (List.contains_iff_mem.mpr hmem)]
        exact fails_refuse_iff
      · rw [if_neg hmem, if_neg (mt List.contains_iff_mem.mp hmem)]

/-! ## Imports -/

/-- The state in which a file is assembled that was found for a target: both are in the log. -/
def State.importing (s : State) (target path : String) (filename : Option String) : State :=
  { s with events := .importing path filename :: .resolved target path :: s.events }

/-- The diagnostic with the file noted in it, unless it comes from an imported file. -/
def Diagnostic.noted (filename : Option String) (d : Diagnostic) : Diagnostic :=
  if d.backtrace.isEmpty then d.through filename none else d

/-- No file is noted after another one. -/
theorem Failure.map_noted_map_through (failure : Failure) (inner outer : Option String)
    (line : Option Int) :
    (failure.map (·.through inner line)).map (.noted outer) = failure.map (·.through inner line) := by
  cases failure with
  | refused d => simp [map, Diagnostic.noted, Diagnostic.through]
  | _ => rfl

/-- What a template fails by is what its lines do, and so is the state that it leaves. -/
theorem outcome_document_of_lines {template : String} {lines : List Line}
    (hparse : parseLines template.toList = .ok lines) :
    (document elsewhere context template).outcome s =
      match (elsewhere context true lines).outcome s with
      | (.ok nodes, t) => (.ok ⟨.root, none, context.filename, nodes⟩, t)
      | (.error failure, t) => (.error (failure.map (.noted context.filename)), t) := by
  unfold document
  rw [outcome_mapDiagnostic, hparse]
  dsimp only
  rw [outcome_bind]
  rcases (elsewhere context true lines).outcome s with ⟨failure | nodes, t⟩
  · cases failure <;> rfl
  · rfl

/-- A template fails by its lines, or because no lines can be made of it. -/
theorem document_fails_iff {template : String} :
    (document elsewhere context template).Fails s failure ↔
      ∃ inner, failure = inner.map (.noted context.filename) ∧
        match parseLines template.toList with
        | .error d => inner = .refused d
        | .ok lines => (elsewhere context true lines).Fails s inner := by
  unfold document
  rw [fails_mapDiagnostic_iff]
  refine exists_congr fun inner => ?_
  rw [and_comm]
  refine and_congr Iff.rfl ?_
  cases parseLines template.toList with
  | error d => exact fails_throw_iff
  | ok lines => exact fails_bind_pure_iff

/-- The failure of a template names at least the file of the template. -/
theorem backtrace_ne_nil_of_document {template : String} {d : Diagnostic}
    (h : (document elsewhere context template).Fails s (.refused d)) : d.backtrace ≠ [] := by
  obtain ⟨inner, hinner, -⟩ := document_fails_iff.mp h
  obtain ⟨d', -, rfl⟩ := Failure.map_eq_refused_iff.mp hinner.symm
  unfold Diagnostic.noted
  split
  · simp [Diagnostic.through]
  · next hne => simpa using hne

/-- The file at a path, as it is assembled for the line of a file that imports it. -/
def imported (elsewhere : Elsewhere) (context : Context) (line : Int) (path template : String) :
    Assembly Node :=
  Assembly.mapDiagnostic (·.through context.filename line)
    (Assembly.restoring (document elsewhere (context.inFile path) template))

theorem importTarget_fails_iff {target : List Char} {path template : String}
    (hpath : Import.resolve context.disk.isFile target context.options.loadPaths = .file path)
    (htext : context.disk.readText path = .ok template) (line : Int) :
    (importTarget elsewhere context line target).Fails s failure ↔
      (imported elsewhere context line path template).Fails
        (s.importing (String.ofList target) path context.filename) failure := by
  unfold importTarget
  dsimp only
  rw [hpath]
  dsimp only
  rw [fails_bind_of_ok (outcome_log _ _)]
  unfold importFile
  rw [htext]
  dsimp only
  rw [fails_bind_of_ok (outcome_log _ _)]
  exact fails_bind_pure_iff

/-- A file that is imported fails as its document does, with the import's place added. -/
theorem imported_fails_iff {line : Int} {path template : String} :
    (imported elsewhere context line path template).Fails s failure ↔
      ∃ inner, failure = inner.map (·.through context.filename line) ∧
        (document elsewhere (context.inFile path) template).Fails s inner := by
  unfold imported
  rw [fails_mapDiagnostic_iff]
  refine exists_congr fun inner => ?_
  rw [fails_restoring_iff, and_comm]

/-- A target that fails does so because no text was read for it, or in the file. -/
theorem importTarget_fails {target : List Char} {line : Int}
    (h : (importTarget elsewhere context line target).Fails s failure) :
    failure.IsFault ∨ ∃ path,
      Import.resolve context.disk.isFile target context.options.loadPaths = .file path ∧
      ((∃ fault, context.disk.readText path = .error (.encoding fault) ∧
          failure = .undecodable path fault) ∨
        ∃ template, context.disk.readText path = .ok template) := by
  unfold importTarget at h
  dsimp only at h
  split at h
  · next path hpath =>
      rw [fails_bind_of_ok (outcome_log _ _)] at h
      unfold importFile at h
      split at h
      · exact .inl (Refuses.refuse _ _ _ _ h)
      · next fault htext =>
          exact .inr ⟨path, hpath, .inl ⟨fault, htext, fails_throw_iff.mp h⟩⟩
      · next template htext => exact .inr ⟨path, hpath, .inr ⟨template, htext⟩⟩
  · rw [fails_bind_of_ok (outcome_log _ _)] at h
    exact absurd h (not_fails_pure _)
  · exact absurd h (not_fails_pure _)
  · exact .inl (Refuses.refuse _ _ _ _ h)

/-- A file whose bytes are no text fails as undecodable, not with a diagnostic. -/
theorem importTarget_fails_of_encoding {target : List Char} {path : String} {line : Int}
    {fault : Text.Utf8Fault}
    (hpath : Import.resolve context.disk.isFile target context.options.loadPaths = .file path)
    (htext : context.disk.readText path = .error (.encoding fault)) :
    (importTarget elsewhere context line target).Fails s (.undecodable path fault) := by
  unfold importTarget
  dsimp only
  rw [hpath]
  dsimp only
  rw [fails_bind_of_ok (outcome_log _ _)]
  unfold importFile
  rw [htext]
  exact fails_throw_iff.mpr rfl

/-- Of several targets one fails, after the ones before it have been imported. -/
theorem outcome_importTargets_eq_error_iff {targets : List (List Char)} {line : Int} {t : State} :
    (importTargets elsewhere context line targets).outcome s = (.error failure, t) ↔
      ∃ earlier target later nodes u, targets = earlier ++ target :: later ∧
        (importTargets elsewhere context line earlier).outcome s = (.ok nodes, u) ∧
        (importTarget elsewhere context line target).outcome u = (.error failure, t) := by
  induction targets generalizing s with
  | nil =>
      constructor
      · intro h
        cases h
      · rintro ⟨earlier, target, later, -, -, heq, -, -⟩
        cases earlier <;> cases heq
  | cons first rest ih =>
      rw [importTargets, outcome_bind_eq_error_iff]
      constructor
      · -- the first target fails, or it is among the earlier ones
        rintro (h | ⟨nodes, v, hfirst, h⟩)
        · exact ⟨[], first, rest, [], s, rfl, rfl, h⟩
        · obtain ⟨earlier, target, later, more, u, rfl, hearlier, hfails⟩ :=
            ih.mp (outcome_bind_pure_eq_error_iff.mp h)
          refine ⟨first :: earlier, target, later, nodes ++ more, u, rfl, ?_, hfails⟩
          rw [importTargets]
          exact outcome_bind_eq_ok_iff.mpr ⟨nodes, v, hfirst,
            outcome_bind_eq_ok_iff.mpr ⟨more, u, hearlier, rfl⟩⟩
      · rintro ⟨earlier, target, later, nodes, u, heq, hearlier, hfails⟩
        cases earlier with
        | nil =>
            cases heq
            cases hearlier
            exact .inl hfails
        | cons first' earlier =>
            cases heq
            rw [importTargets] at hearlier
            obtain ⟨nodes, v, hfirst, hrest⟩ := outcome_bind_eq_ok_iff.mp hearlier
            obtain ⟨more, w, hmore, hpure⟩ := outcome_bind_eq_ok_iff.mp hrest
            cases hpure
            refine .inr ⟨nodes, v, hfirst, outcome_bind_pure_eq_error_iff.mpr ?_⟩
            exact ih.mpr ⟨earlier, target, later, more, u, rfl, hmore, hfails⟩

/-- A list of targets fails at the first of them that does. -/
theorem importTargets_fails_iff {targets : List (List Char)} {line : Int} :
    (importTargets elsewhere context line targets).Fails s failure ↔
      ∃ earlier target later nodes t, targets = earlier ++ target :: later ∧
        (importTargets elsewhere context line earlier).outcome s = (.ok nodes, t) ∧
        (importTarget elsewhere context line target).Fails t failure := by
  constructor
  · rintro ⟨t, ht⟩
    obtain ⟨earlier, target, later, nodes, u, heq, hearlier, hfails⟩ :=
      outcome_importTargets_eq_error_iff.mp ht
    exact ⟨earlier, target, later, nodes, u, heq, hearlier, t, hfails⟩
  · rintro ⟨earlier, target, later, nodes, u, heq, hearlier, t, hfails⟩
    exact ⟨t, outcome_importTargets_eq_error_iff.mpr
      ⟨earlier, target, later, nodes, u, heq, hearlier, hfails⟩⟩

/-! ## Lines -/

def Line.ImportsTargets (line : Line) (value : List Char) : Prop :=
  Shape.of line.text.toList = .directive ∧
    ∃ name, directiveParts line.text.toList = (name, some value) ∧
      isImport name (some value) = true

theorem meaning_of_inclusion {line : Line}
    (hshape : Shape.of line.text.toList = .mixinInclusion) :
    meaning elsewhere context line = (do
      pure (.nodes .mixin
        (← includeMixin elsewhere context line.text.toList line.index))) := by
  unfold meaning
  dsimp only
  rw [hshape]

theorem meaning_of_import {line : Line} {value : List Char} (h : line.ImportsTargets value) :
    meaning elsewhere context line = (do
      pure (.nodes .imports
        (← importTargets elsewhere context line.index (Import.targets value)))) := by
  obtain ⟨hshape, name, hparts, himport⟩ := h
  unfold meaning
  dsimp only
  rw [hshape]
  dsimp only
  rw [hparts]
  dsimp only
  rw [if_pos himport]

theorem meaning_fails_iff_of_inclusion {line : Line}
    (hshape : Shape.of line.text.toList = .mixinInclusion) :
    (meaning elsewhere context line).Fails s failure ↔
      (includeMixin elsewhere context line.text.toList line.index).Fails s failure := by
  rw [meaning_of_inclusion hshape]
  exact fails_bind_pure_iff

theorem meaning_fails_iff_of_import {line : Line} {value : List Char}
    (h : line.ImportsTargets value) :
    (meaning elsewhere context line).Fails s failure ↔
      (importTargets elsewhere context line.index (Import.targets value)).Fails s failure := by
  rw [meaning_of_import h]
  exact fails_bind_pure_iff

/-- A line fails when the expression that it evaluates does. -/
theorem meaning_fails_of_evaluates {line : Line} {expression : List Char}
    (h : line.Evaluates context expression)
    (hfails : (Assembly.evaluate expression line.index).Fails s failure) :
    (meaning elsewhere context line).Fails s failure := by
  unfold meaning
  dsimp only
  cases h with
  | attr hshape hway hparts =>
      rw [hshape]
      refine fails_bind_pure_iff.mpr ?_
      unfold attribute?
      rw [if_neg hway, hparts]
      exact fails_bind_pure_iff.mpr hfails
  | constant hshape hparts =>
      rw [hshape]
      refine fails_bind_pure_iff.mpr ?_
      unfold defineConstant
      rw [hparts]
      exact fails_bind_iff.mpr (.inl hfails)

/-- What a line fails by is found in the line itself, in what it says or in the value of its
expression, unless the line includes or imports. -/
theorem meaning_fails {line : Line} (h : (meaning elsewhere context line).Fails s failure) :
    failure.IsFault ∨
      (∃ expression, line.Evaluates context expression ∧
        (Assembly.evaluate expression line.index).Fails s failure) ∨
      Shape.of line.text.toList = .mixinInclusion ∨ ∃ value, line.ImportsTargets value := by
  unfold meaning at h
  dsimp only at h
  cases hshape : Shape.of line.text.toList with
  | attr way =>
      rw [hshape] at h
      rcases attribute?_fails (fails_bind_pure_iff.mp h) with h | ⟨hway, name, value, hparts, h⟩
      · exact .inl h
      · exact .inr (.inl ⟨value, .attr hshape hway hparts, h⟩)
  | constant =>
      rw [hshape] at h
      rcases defineConstant_fails (fails_bind_pure_iff.mp h) with
        h | ⟨name, conditional, value, hparts, h⟩
      · exact .inl h
      · exact .inr (.inl ⟨value, .constant hshape hparts, h⟩)
  | mixinDefinition =>
      rw [hshape] at h
      exact .inl (defineMixin_refuses _ _ _ _ _ (fails_bind_pure_iff.mp h))
  | directive =>
      rw [hshape] at h
      dsimp only at h
      obtain ⟨name, value, hparts⟩ :
          ∃ name value, directiveParts line.text.toList = (name, value) := ⟨_, _, rfl⟩
      rw [hparts] at h
      dsimp only at h
      split at h
      · next himport =>
          cases value with
          | none => exact .inl (Refuses.refuse _ _ _ _ h)
          | some value => exact .inr (.inr (.inr ⟨value, hshape, name, hparts, himport⟩))
      · exact absurd h (not_fails_pure _)
  | mixinInclusion => exact .inr (.inr (.inl rfl))
  -- the other shapes mean what they say and do not fail
  | _ =>
      rw [hshape] at h
      exact absurd h (not_fails_pure _)

/-- A line fails by its meaning, or because lines are nested beneath it that may not be, or one of
these lines fails. -/
theorem build_fails_iff {line : Line} :
    (build elsewhere context line).Fails s failure ↔
      (meaning elsewhere context line).Fails s failure ∨
      ∃ found t, (meaning elsewhere context line).outcome s = (.ok found, t) ∧
        ((refuseNested (line.children.head?.map (·.index)) found).Fails t failure ∨
          ∃ content, found = .item content ∧
            (beneath elsewhere context content line.children).Fails t failure) := by
  obtain ⟨text, depth, index, children⟩ := line
  rw [build_eq, fails_bind_iff]
  refine or_congr Iff.rfl (exists_congr fun found => exists_congr fun t => ?_)
  refine and_congr_right fun _ => ?_
  rw [fails_bind_iff]
  refine or_congr Iff.rfl ?_
  constructor
  · rintro ⟨_, u, hnested, h⟩
    obtain rfl := (refuseNested_quiet _ _).state_eq hnested
    cases found with
    | item content => exact ⟨content, rfl, fails_bind_pure_iff.mp h⟩
    | _ => exact absurd h (not_fails_pure _)
  · rintro ⟨content, rfl, h⟩
    refine ⟨(), t, ?_, fails_bind_pure_iff.mpr h⟩
    cases children <;> rfl

/-! ## Siblings -/

/-- Siblings fail as soon as a line among them does. -/
theorem outcome_arrange_of_build {opened left : Option OpenRule} {pre post : List Line} {line : Line}
    {nodes : List Node} {t u : State}
    (hpre : (advance elsewhere context root opened pre).outcome s = (.ok (nodes, left), t))
    (h : (build elsewhere context line).outcome t = (.error failure, u)) :
    (arrange elsewhere context root opened (pre ++ line :: post)).outcome s =
      (.error failure, u) := by
  rw [arrange_append, outcome_bind_of_ok hpre]
  dsimp only
  rw [outcome_bind_pure_eq_error_iff, arrange_cons]
  exact outcome_bind_of_error h _

/-- Siblings fail by themselves or at the first line that does. -/
theorem arrange_fails {opened : Option OpenRule} {lines : List Line}
    (h : (arrange elsewhere context root opened lines).Fails s failure) :
    failure.IsFault ∨ ∃ pre line post nodes left t, lines = pre ++ line :: post ∧
      (advance elsewhere context root opened pre).outcome s = (.ok (nodes, left), t) ∧
      (build elsewhere context line).Fails t failure := by
  induction lines generalizing opened s with
  | nil =>
      cases opened with
      | none =>
          rw [arrange] at h
          exact absurd h (not_fails_pure _)
      | some first =>
          rw [arrange] at h
          exact .inl (Refuses.refuse _ _ _ _ h)
  | cons line lines ih =>
      rw [arrange_cons] at h
      -- the line fails, or its place after an open rule is refused, or a later line fails
      rcases fails_bind_iff.mp h with h | ⟨found, t, hbuild, h⟩
      · exact .inr ⟨[], line, lines, [], opened, s, rfl, rfl, h⟩
      · rcases fails_bind_iff.mp h with h | ⟨⟨nodes, left⟩, u, hcontinue, h⟩
        · exact .inl (Refuses.of_quiet (continueRule_quiet _ _ _ _) _ _ h)
        · rcases ih (fails_bind_pure_iff.mp h) with h |
            ⟨pre, line', post, more, left', v, rfl, hpre, hline⟩
          · exact .inl h
          · refine .inr ⟨line :: pre, line', post, nodes ++ more, left', v, rfl, ?_, hline⟩
            exact advance_cons_eq_ok_iff.mpr
              ⟨found, t, nodes, left, u, more, hbuild, hcontinue, hpre, rfl⟩

end Stylesheet
