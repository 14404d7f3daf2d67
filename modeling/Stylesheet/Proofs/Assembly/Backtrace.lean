import Mathlib
import Stylesheet.Proofs.Assembly.Running

/-!
# The backtrace of a refused template

A template is refused for a fault in one file, the template itself or one that is imported. The
diagnostic traces the fault from that file through every file that was waiting for it, each with the
line of its import, and it names the file of the fault.

* `Run.exists_raising` : where the fault is.
* `backtrace_of_assembleTemplate` : what the diagnostic says.
-/

namespace Stylesheet

open Assembly

namespace Run

variable {r r' : Run} {frames : List Frame} {names : List String} {d : Diagnostic}

/-- The run is refused, and not because of a run that it has started: all of these have come to
nodes. -/
structure RaisesItself (r : Run) : Prop where
  refused : ∃ d, r.Fails (.refused d)
  alone : ∀ names b line r' failure, r.Assembles names b → b.Imports line r' → ¬ r'.Fails failure

/-- Only the file of the fault adds its frame to an empty backtrace. -/
theorem raisesItself_of_length (h : r.Fails (.refused d)) (hlength : d.backtrace.length = 1) :
    r.RaisesItself := by
  refine ⟨⟨d, h⟩, fun names b line r' failure hassembles himports hfails => ?_⟩
  have hup := hassembles.fails (himports.fails hfails)
  obtain ⟨d', hd', -⟩ := Failure.map_eq_refused_iff.mp (Assembly.Fails.unique h hup)
  obtain ⟨d'', rfl, -⟩ := Failure.map_eq_refused_iff.mp hd'
  have heq := Assembly.Fails.unique h (hassembles.fails_of_imports himports hfails)
  cases heq
  rw [Diagnostic.through_backtrace, List.length_append] at hlength
  have hpositive := List.length_pos_iff.mpr hfails.backtrace_ne_nil
  simp only [List.length_singleton] at hlength
  omega

/-- The fault of a refused template is in the file of some run. The induction is on the limit, which
is smaller for a run that is started. -/
theorem exists_raising (r : Run) {d : Diagnostic} (h : r.Fails (.refused d)) :
    ∃ frames names r', r.Running frames names r' ∧ r'.RaisesItself := by
  rcases refused_inside h with ⟨d', huntraced, rfl⟩ |
    ⟨names, b, line, r', d', hassembles, himports, hfails, -⟩
  · refine ⟨[], [], r, .self, raisesItself_of_length h ?_⟩
    rw [Diagnostic.through_backtrace, huntraced.2]
    rfl
  · obtain ⟨frames, names', r'', hrunning, hraises⟩ := exists_raising r' hfails
    exact ⟨_, _, r'', (Running.self.imported hassembles himports).trans hrunning, hraises⟩
termination_by r.limit
decreasing_by
  rw [limit_eq_of_imports himports]
  exact hassembles.limit_lt

/-- In the file of the fault the diagnostic gets this file, and a frame with the fault's line. -/
theorem RaisesItself.diagnostic (hraises : r.RaisesItself) (h : r.Fails (.refused d)) :
    d.backtrace = [⟨r.context.filename, d.line⟩] ∧ d.filename = r.context.filename := by
  rcases refused_inside h with ⟨d', ⟨hfilename, hbacktrace⟩, rfl⟩ |
    ⟨names, b, line, r', d', hassembles, himports, hfails, -⟩
  · simp [Diagnostic.through, hfilename, hbacktrace]
  · exact absurd hfails (hraises.alone _ _ _ _ _ hassembles himports)

/-- The run that raises puts its own place first, before the frames of all that wait for it. -/
theorem backtrace_of_fails (h : r.Fails (.refused d)) (hrunning : r.Running frames names r')
    (hraises : r'.RaisesItself) :
    d.backtrace = ⟨r'.context.filename, d.line⟩ :: frames ∧ d.filename = r'.context.filename := by
  obtain ⟨d', hd'⟩ := hraises.refused
  obtain ⟨hbacktrace, hfilename⟩ := hraises.diagnostic hd'
  -- the runs that wait fail by this one, and in no other way
  have heq := Assembly.Fails.unique (hrunning.fails hd') h
  cases heq
  dsimp only
  rw [hbacktrace]
  exact ⟨rfl, hfilename⟩

end Run

/-- **The backtrace of a refused template.** The fault is in the file of a run that is running, and
then the backtrace consists of this file with the line of the fault, and of a frame for every run
that waits, with the line of its import, the innermost first; `Frame.text` shows them. The
diagnostic names the file of the fault. -/
theorem backtrace_of_assembleTemplate {options : Options} {disk : Disk} {template : String}
    {state after : State} {limit : Nat} {d : Diagnostic}
    (h : assembleTemplate options disk template state limit = (.error (.refused d), after)) :
    (∃ frames names r, Run.Running ⟨limit, { options, disk }, template, state⟩ frames names r ∧
      r.RaisesItself) ∧
    ∀ frames names r, Run.Running ⟨limit, { options, disk }, template, state⟩ frames names r →
      r.RaisesItself →
        d.backtrace = ⟨r.context.filename, d.line⟩ :: frames ∧
        d.filename = r.context.filename := by
  have hfails : Run.Fails ⟨limit, { options, disk }, template, state⟩ (.refused d) := ⟨after, h⟩
  refine ⟨Run.exists_raising _ hfails, fun frames names r hrunning hraises => ?_⟩
  exact Run.backtrace_of_fails hfails hrunning hraises

/-- The second of two files that the body of a mixin imports includes an unknown mixin. -/
theorem backtrace_of_import_in_mixin :
    let disk := Disk.ofKnown [("./_g.sass", .ok [98]), ("./_f.sass", .ok [99, 10, 32, 43, 110])]
    let template := "=m\n @import g, f\na\n +m"
    let d : Diagnostic := {
      fault := .undefinedMixin "n"
      line := some 2
      filename := some "./_f.sass"
      backtrace := [⟨some "./_f.sass", some 2⟩, ⟨none, some 2⟩] }
    (∃ after, assembleTemplate {} disk template {} 4 = (.error (.refused d), after)) ∧
    ∃ names r, Run.Running ⟨4, { options := {}, disk }, template, {}⟩ [⟨none, some 2⟩] names r ∧
      r.RaisesItself ∧ r.context.filename = some "./_f.sass" := by
  intro disk template d
  have hrefused : (assembleTemplate {} disk template {} 4).1 = .error (.refused d) := by
    dsimp only [disk, template, d]
    cbv
  have h : assembleTemplate {} disk template {} 4 =
      (.error (.refused d), (assembleTemplate {} disk template {} 4).2) :=
    Prod.ext hrefused rfl
  obtain ⟨⟨frames, names, r, hrunning, hraises⟩, hall⟩ := backtrace_of_assembleTemplate h
  obtain ⟨hbacktrace, hfilename⟩ := hall frames names r hrunning hraises
  obtain ⟨-, rfl⟩ := List.cons.inj hbacktrace
  exact ⟨⟨_, h⟩, names, r, hrunning, hraises, hfilename.symm⟩

end Stylesheet
