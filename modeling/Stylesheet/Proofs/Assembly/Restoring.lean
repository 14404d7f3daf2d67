import Mathlib
import Stylesheet.Proofs.Assembly.Running

/-!
# Imports that fail

A file that is imported goes on from the constants and mixins of the file that imports it, and may
define all of them anew before it fails. None of this is seen outside: the importing file keeps
what the targets before this one have left, however far the failing target got and however deep in
further imports the failure lies.

* `tables_of_importTarget` : a target that fails leaves the constants and mixins alone.
* `tables_of_failing_import` : several targets, of which one fails.
* `Run.Assembles.ends_of_import` : a whole run that such an import ends, which leaves them as well.
-/

namespace Stylesheet

open Assembly

variable {elsewhere : Elsewhere} {context : Context} {line : Int} {before after : State}
  {failure : Failure}

/-! ## One target -/

theorem exists_error_of_mapDiagnostic {α : Type} {x : Assembly α} {f : Diagnostic → Diagnostic}
    (h : (mapDiagnostic f x).outcome before = (.error failure, after)) :
    ∃ inner, x.outcome before = (.error inner, after) := by
  rw [outcome_mapDiagnostic] at h
  split at h
  · next d t hx =>
      cases h
      exact ⟨_, hx⟩
  · exact ⟨failure, h⟩

/-- A failure beneath a restoring step leaves the tables of before. -/
theorem tables_of_restoring {α : Type} {x : Assembly α}
    (h : (restoring x).outcome before = (.error failure, after)) :
    after.tables = before.tables := by
  rw [outcome_restoring] at h
  split at h
  · cases h
  · cases h
    rfl

/-- A file that fails leaves the constants and mixins alone, whatever it has defined before. -/
theorem tables_of_importFile {target path : String}
    (h : (importFile elsewhere context line target path).outcome before = (.error failure, after)) :
    after.tables = before.tables := by
  unfold importFile at h
  split at h
  · cases h
    rfl
  · cases h
    rfl
  · -- what the file has defined is undone here; only the log goes on
    rw [outcome_bind_of_ok (outcome_log _ _), outcome_bind_pure_eq_error_iff] at h
    obtain ⟨inner, hinner⟩ := exists_error_of_mapDiagnostic h
    exact (tables_of_restoring hinner).trans rfl

/-- A target that fails leaves the tables as they were before it. -/
theorem tables_of_importTarget {target : List Char}
    (h : (importTarget elsewhere context line target).outcome before = (.error failure, after)) :
    after.tables = before.tables := by
  unfold importTarget at h
  dsimp only at h
  split at h
  · rw [outcome_bind_of_ok (outcome_log _ _)] at h
    exact (tables_of_importFile h).trans rfl
  · rw [outcome_bind_of_ok (outcome_log _ _)] at h
    cases h
  · cases h
  · cases h
    rfl

/-! ## Several targets -/

/-- **An import that fails leaves the constants and mixins of the targets before.** One target fails
after the ones before it have been imported, whatever for: it is not found or cannot be read, the
file is refused at some line, or something that it imports in turn fails. The constants and mixins
are then those from which this target started. -/
theorem tables_of_failing_import {limit : Nat} {targets : List (List Char)}
    (h : (importTargets (assemble limit) context line targets).outcome before =
      (.error failure, after)) :
    ∃ earlier target later nodes between, targets = earlier ++ target :: later ∧
      (importTargets (assemble limit) context line earlier).outcome before =
        (.ok nodes, between) ∧
      (importTarget (assemble limit) context line target).Fails between failure ∧
      after.constants = between.constants ∧ after.mixins = between.mixins := by
  obtain ⟨earlier, target, later, nodes, between, htargets, hearlier, htarget⟩ :=
    outcome_importTargets_eq_error_iff.mp h
  -- nothing comes after the target that fails, so its state is the last one
  have htables := tables_of_importTarget htarget
  exact ⟨earlier, target, later, nodes, between, htargets, hearlier, ⟨after, htarget⟩,
    congrArg Prod.fst htables, congrArg Prod.snd htables⟩

/-- The second file redefines what the first one has defined, and then fails in a file of its
own. -/
theorem tables_of_second_target :
    let disk := Disk.ofKnown [
      ("./_f.sass", .ok [33, 99, 32, 61, 32, 34, 120, 34, 10, 61, 109, 10, 32, 97]),
      ("./_g.sass", .ok [33, 99, 32, 61, 32, 34, 121, 34, 10, 61, 109, 10, 32, 98, 10, 64, 105, 109, 112, 111,
        114, 116, 32, 104, 46, 115, 97, 115, 115])]
    let context : Context := { options := {}, disk }
    let failure : Failure := .refused {
      fault := .fileNotFound "h.sass"
      line := some 4
      filename := some "./_g.sass"
      backtrace := [⟨some "./_g.sass", some 4⟩, ⟨none, some 1⟩] }
    let after : State := {
      constants := ⟨[("important", "!important"), ("c", "x")]⟩
      mixins := ⟨[("m", [⟨"a", 1, 3, []⟩])]⟩
      events := [.importing "./_g.sass" none, .resolved "g" "./_g.sass",
        .importing "./_f.sass" none, .resolved "f" "./_f.sass"] }
    (importTargets (assemble 2) context 1 [['f'], ['g'], ['k']]).outcome {} =
      (.error failure, after) ∧
    ∃ earlier target later nodes between,
      [['f'], ['g'], ['k']] = earlier ++ target :: later ∧
      (importTargets (assemble 2) context 1 earlier).outcome {} = (.ok nodes, between) ∧
      (importTarget (assemble 2) context 1 target).Fails between failure ∧
      after.constants = between.constants ∧ after.mixins = between.mixins := by
  intro disk context failure after
  have h : (importTargets (assemble 2) context 1 [['f'], ['g'], ['k']]).outcome {} =
      (.error failure, after) := by
    dsimp only [disk, context, failure, after]
    cbv
  exact ⟨h, tables_of_failing_import h⟩

/-- **The run ends where the import fails.** Nothing after an import that fails is assembled, at
whatever depth of inclusions it stands, so the run leaves the constants and mixins that the import
has left. This is a result about whole runs beside `tables_of_failing_import`, which is about one
line. -/
theorem Run.Assembles.ends_of_import {r : Run} {names : List String} {b : Siblings} {line : Line}
    {value : List Char} (hassembles : r.Assembles names b) (hreaches : b.Reaches line before)
    (himport : line.ImportsTargets value)
    (h : (importTargets (assemble b.limit) b.context line.index (Import.targets value)).outcome
      before = (.error failure, after)) :
    r.Ends (failure.map (.noted r.context.filename)) after := by
  refine hassembles.ends (hreaches.ends ?_)
  have hmeaning : (meaning (assemble b.limit) b.context line).outcome before =
      (.error failure, after) := by
    rw [meaning_of_import himport]
    exact outcome_bind_of_error h _
  obtain ⟨text, depth, index, children⟩ := line
  rw [build_eq]
  exact outcome_bind_of_error hmeaning _

end Stylesheet
