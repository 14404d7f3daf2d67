import Stylesheet.Proofs.Assembly.Outcome

/-!
# Steps that change nothing

Most steps of an assembly look at a line and either have a result or refuse the line; they leave
the state as it is, and no file is noted in a fault that they find.

* `refuseNested_quiet`, `place_quiet`, `continueRule_quiet` : these steps.
* `outcome_evaluate` : an expression can fail in one more way.
-/

namespace Stylesheet

/-! ## Faults that no file is noted in -/

/-- The diagnostic has passed through no file. -/
def Diagnostic.Untraced (d : Diagnostic) : Prop :=
  d.filename = none ∧ d.backtrace = []

/-- The failure is a fault at a line, and has passed through no file. -/
def Failure.IsFault (failure : Failure) : Prop :=
  ∃ (fault : Fault) (line : Option Int), failure = .refused (fault.at line)

/-- A diagnostic that is raised at a line has no backtrace yet. -/
theorem Fault.untraced_at (fault : Fault) (line : Option Int) : (fault.at line).Untraced :=
  ⟨rfl, rfl⟩

theorem Fault.isFault_refused (fault : Fault) (line : Option Int) :
    (Failure.refused (fault.at line)).IsFault :=
  ⟨fault, line, rfl⟩

namespace Assembly

variable {α β : Type}

/-- The assembly leaves every state as it is, and if it fails it finds a fault at a line. -/
def Quiet (x : Assembly α) : Prop :=
  ∀ s, (∃ a, x.outcome s = (.ok a, s)) ∨
    ∃ failure : Failure, failure.IsFault ∧ x.outcome s = (.error failure, s)

namespace Quiet

theorem pure (a : α) : Quiet (Pure.pure a) :=
  fun _ => .inl ⟨a, rfl⟩

theorem refuse (fault : Fault) (line : Option Int) :
    Quiet (Assembly.refuse fault line : Assembly α) :=
  fun _ => .inr ⟨_, fault.isFault_refused line, rfl⟩

theorem get : Quiet (MonadStateOf.get : Assembly State) :=
  fun s => .inl ⟨s, rfl⟩

theorem bind {x : Assembly α} {f : α → Assembly β} (hx : Quiet x) (hf : ∀ a, Quiet (f a)) :
    Quiet (x >>= f) := by
  intro s
  rw [outcome_bind]
  rcases hx s with ⟨a, ha⟩ | ⟨failure, hfault, hfailure⟩
  · rw [ha]
    exact hf a s
  · rw [hfailure]
    exact .inr ⟨failure, hfault, rfl⟩

/-- What is quiet leaves the state as it found it. -/
theorem state_eq {x : Assembly α} (h : Quiet x) {s t : State} {a : α}
    (ha : x.outcome s = (.ok a, t)) : t = s := by
  rcases h s with ⟨b, hb⟩ | ⟨failure, -, hfailure⟩
  · rw [ha] at hb
    cases hb
    rfl
  · rw [ha] at hfailure
    cases hfailure

/-- What is quiet fails with a fault of its own only. -/
theorem isFault {x : Assembly α} (h : Quiet x) {s t : State} {failure : Failure}
    (hfailure : x.outcome s = (.error failure, t)) : failure.IsFault := by
  rcases h s with ⟨a, ha⟩ | ⟨failure', hfault, hfailure'⟩
  · rw [hfailure] at ha
    cases ha
  · rw [hfailure] at hfailure'
    cases hfailure'
    exact hfault

end Quiet

end Assembly

open Assembly

theorem refuseNested_quiet (nested : Option Int) (found : Meaning Content) :
    Quiet (refuseNested nested found) := by
  unfold refuseNested
  split
  · exact .refuse _ _
  · exact .refuse _ _
  · exact .pure _

theorem place_quiet (root : Bool) (line : Int) (found : Meaning Node) :
    Quiet (place root line found) := by
  unfold place
  split
  · split
    · exact .refuse _ _
    · exact .pure _
  · split
    · exact .refuse _ _
    · exact .pure _
  · split
    · exact .pure _
    · exact .refuse _ _
  · split
    · exact .pure _
    · exact .refuse _ _
  · exact .pure _

theorem continueRule_quiet (root : Bool) (line : Int) (opened : Option OpenRule)
    (found : Meaning Node) : Quiet (continueRule root line opened found) := by
  unfold continueRule
  split
  · dsimp only
    split
    · split
      · exact .pure _
      · exact .refuse _ _
    · exact .pure _
  · split
    · exact .refuse _ _
    · exact .bind (place_quiet _ _ _) fun _ => .pure _

/-- An expression changes nothing either, but what it fails by need not be a fault. -/
theorem outcome_evaluate (expression : List Char) (line : Int) (s : State) :
    (Assembly.evaluate expression line).outcome s =
      (match Expr.cssOf s.constants (String.ofList expression) with
        | .ok css => .ok css
        | .error refusal => .error (refusal.at (some line)), s) := by
  refine (outcome_bind_of_ok (outcome_get s) _).trans ?_
  cases Expr.cssOf s.constants (String.ofList expression) <;> rfl

/-- An expression that has a CSS text is evaluated to it, and the state stays. -/
theorem outcome_evaluate_of_cssOf {expression : List Char} {s : State} {css : String} (line : Int)
    (h : Expr.cssOf s.constants (String.ofList expression) = .ok css) :
    (Assembly.evaluate expression line).outcome s = (.ok css, s) := by
  rw [outcome_evaluate, h]

end Stylesheet
