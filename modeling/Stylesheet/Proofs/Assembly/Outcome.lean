import Stylesheet.Assembly.Document

/-!
# What assemblies come to

`Assembly.outcome` is taken apart along the way an assembly is written: one equation for each way
of building an assembly from smaller ones. Later modules never look at how an assembly keeps its
state.

`Assembly.Yields` is the use of these equations for a property of results: it says that whatever
state an assembly starts from, a result it comes to has the property.

* `outcome_bind` : the second step starts from what the first one left, or does not start.
* `outcome_bind_eq_error_iff` : which of two steps an assembly fails by.
* `outcome_restoring` : a failure leaves the constants and mixins that there were before.
* `Yields.bind` : a property of the first result that the second step relies on.
-/

namespace Stylesheet.Assembly

variable {α β : Type}

/-! ## Equations -/

@[simp] theorem outcome_pure (a : α) (s : State) :
    (pure a : Assembly α).outcome s = (.ok a, s) := rfl

@[simp] theorem outcome_throw (failure : Failure) (s : State) :
    (throw failure : Assembly α).outcome s = (.error failure, s) := rfl

@[simp] theorem outcome_refuse (fault : Fault) (line : Option Int) (s : State) :
    (refuse fault line : Assembly α).outcome s = (.error (.refused (fault.at line)), s) := rfl

@[simp] theorem outcome_get (s : State) : (get : Assembly State).outcome s = (.ok s, s) := rfl

@[simp] theorem outcome_modify (f : State → State) (s : State) :
    (modify f : Assembly Unit).outcome s = (.ok (), f s) := rfl

@[simp] theorem outcome_log (event : Event) (s : State) :
    (log event).outcome s = (.ok (), { s with events := event :: s.events }) := rfl

/-- The second step starts from what the first one left; after a failure it does not start. -/
theorem outcome_bind (x : Assembly α) (f : α → Assembly β) (s : State) :
    (x >>= f).outcome s = match x.outcome s with
      | (.ok a, t) => (f a).outcome t
      | (.error failure, t) => (.error failure, t) := by
  unfold outcome
  rw [ExceptT.run_bind, StateT.run_bind]
  rcases x.run.run s with ⟨_ | _, t⟩ <;> rfl

/-- An assembly that came to a result took a first step that did. -/
theorem outcome_bind_eq_ok_iff {x : Assembly α} {f : α → Assembly β} {s t : State} {b : β} :
    (x >>= f).outcome s = (.ok b, t) ↔
      ∃ a u, x.outcome s = (.ok a, u) ∧ (f a).outcome u = (.ok b, t) := by
  rw [outcome_bind]
  constructor
  · intro h
    split at h
    · next a u hx => exact ⟨a, u, hx, h⟩
    · cases h
  · rintro ⟨a, u, hx, hf⟩
    rw [hx]
    exact hf

/-- After a step that succeeds the next one starts in the state it left. -/
theorem outcome_bind_of_ok {x : Assembly α} {s t : State} {a : α} (h : x.outcome s = (.ok a, t))
    (f : α → Assembly β) : (x >>= f).outcome s = (f a).outcome t := by
  rw [outcome_bind, h]

/-- A first step that fails ends the assembly in the state that it leaves. -/
theorem outcome_bind_of_error {x : Assembly α} {s t : State} {failure : Failure}
    (h : x.outcome s = (.error failure, t)) (f : α → Assembly β) :
    (x >>= f).outcome s = (.error failure, t) := by
  rw [outcome_bind, h]

/-- An assembly fails by its first step, or by the second one from what the first one left. -/
theorem outcome_bind_eq_error_iff {x : Assembly α} {f : α → Assembly β} {s t : State}
    {failure : Failure} :
    (x >>= f).outcome s = (.error failure, t) ↔
      x.outcome s = (.error failure, t) ∨
      ∃ a u, x.outcome s = (.ok a, u) ∧ (f a).outcome u = (.error failure, t) := by
  rw [outcome_bind]
  rcases x.outcome s with ⟨thrown | a, u⟩
  · simp
  · constructor
    · intro h
      exact .inr ⟨a, u, rfl, h⟩
    · rintro (h | ⟨_, _, h, hf⟩)
      · cases h
      · cases h
        exact hf

/-- A pure last step neither fails nor hides a failure. -/
theorem outcome_bind_pure_eq_error_iff {x : Assembly α} {g : α → β} {s t : State}
    {failure : Failure} :
    (x >>= fun a => pure (g a)).outcome s = (.error failure, t) ↔
      x.outcome s = (.error failure, t) := by
  rw [outcome_bind_eq_error_iff]
  constructor
  · rintro (h | ⟨a, u, -, h⟩)
    · exact h
    · cases h
  · exact .inl

/-- What is done after a failure starts from what the failing assembly left. -/
theorem outcome_tryCatch (x : Assembly α) (handle : Failure → Assembly α) (s : State) :
    (tryCatch x handle).outcome s = match x.outcome s with
      | (.ok a, t) => (.ok a, t)
      | (.error failure, t) => (handle failure).outcome t := by
  unfold outcome
  rw [ExceptT.run_tryCatch, StateT.run_bind]
  rcases x.run.run s with ⟨_ | _, t⟩ <;> rfl

/-- Only the diagnostic of a failure changes, and only if it has one. -/
theorem outcome_mapDiagnostic (f : Diagnostic → Diagnostic) (x : Assembly α) (s : State) :
    (mapDiagnostic f x).outcome s = match x.outcome s with
      | (.error (.refused d), t) => (.error (.refused (f d)), t)
      | result => result := by
  rw [mapDiagnostic, outcome_tryCatch]
  rcases x.outcome s with ⟨failure | a, t⟩
  · cases failure <;> rfl
  · rfl

/-- A failure leaves the constants and mixins that there were before. -/
theorem outcome_restoring (x : Assembly α) (s : State) :
    (restoring x).outcome s = match x.outcome s with
      | (.ok a, t) => (.ok a, t)
      | (.error failure, t) => (.error failure, { s with events := t.events }) := by
  rw [restoring, outcome_bind, outcome_get]
  show (tryCatch x _).outcome s = _
  rw [outcome_tryCatch]
  rcases x.outcome s with ⟨_ | _, t⟩ <;> rfl

/-- What a failure says does not matter to a result. -/
theorem outcome_mapDiagnostic_eq_ok_iff {f : Diagnostic → Diagnostic} {x : Assembly α} {s t : State}
    {a : α} : (mapDiagnostic f x).outcome s = (.ok a, t) ↔ x.outcome s = (.ok a, t) := by
  rw [outcome_mapDiagnostic]
  rcases x.outcome s with ⟨failure | b, u⟩
  · cases failure <;> simp
  · rfl

/-- Putting the tables back on failure leaves a success as it is. -/
theorem outcome_restoring_eq_ok_iff {x : Assembly α} {s t : State} {a : α} :
    (restoring x).outcome s = (.ok a, t) ↔ x.outcome s = (.ok a, t) := by
  rw [outcome_restoring]
  rcases x.outcome s with ⟨failure | b, u⟩ <;> simp

/-! ## Properties of results -/

/-- Every result that the assembly comes to has the property. -/
def Yields (x : Assembly α) (P : α → Prop) : Prop :=
  ∀ s a t, x.outcome s = (.ok a, t) → P a

namespace Yields

variable {x : Assembly α} {P Q : α → Prop}

theorem pure {a : α} (h : P a) : Yields (Pure.pure a) P := by
  intro s b t hb
  cases hb
  exact h

theorem throw (failure : Failure) : Yields (MonadExcept.throw failure : Assembly α) P := by
  intro s a t ha
  cases ha

theorem refuse (fault : Fault) (line : Option Int) :
    Yields (Assembly.refuse fault line : Assembly α) P :=
  throw _

/-- A step that yields anything. -/
theorem any (x : Assembly α) : Yields x fun _ => True :=
  fun _ _ _ _ => trivial

theorem bind {f : α → Assembly β} {R : β → Prop} (h : Yields x P)
    (hf : ∀ a, P a → Yields (f a) R) : Yields (x >>= f) R := by
  intro s b t hb
  obtain ⟨a, u, ha, hb⟩ := outcome_bind_eq_ok_iff.mp hb
  exact hf a (h s a u ha) u b t hb

theorem mono (h : Yields x P) (hPQ : ∀ a, P a → Q a) : Yields x Q :=
  fun s a t ha => hPQ a (h s a t ha)

/-- Changing what a failure says changes no result. -/
theorem mapDiagnostic {f : Diagnostic → Diagnostic} (h : Yields x P) :
    Yields (Assembly.mapDiagnostic f x) P := by
  intro s a t ha
  exact h s a t (outcome_mapDiagnostic_eq_ok_iff.mp ha)

theorem restoring (h : Yields x P) : Yields (Assembly.restoring x) P := by
  intro s a t ha
  exact h s a t (outcome_restoring_eq_ok_iff.mp ha)

end Yields

/-! ## Properties of results and states -/

/-- From a state with the invariant the assembly comes to results with the property only, and to
states that have the invariant again. -/
def Ensures (I : State → Prop) (x : Assembly α) (P : α → Prop) : Prop :=
  ∀ s a t, I s → x.outcome s = (.ok a, t) → I t ∧ P a

namespace Ensures

variable {I : State → Prop} {x : Assembly α} {P Q : α → Prop}

theorem pure {a : α} (h : P a) : Ensures I (Pure.pure a) P := by
  intro s b t hs hb
  cases hb
  exact ⟨hs, h⟩

theorem throw (failure : Failure) : Ensures I (MonadExcept.throw failure : Assembly α) P := by
  intro s a t hs ha
  cases ha

theorem refuse (fault : Fault) (line : Option Int) :
    Ensures I (Assembly.refuse fault line : Assembly α) P :=
  throw _

theorem get : Ensures I (MonadStateOf.get : Assembly State) I := by
  intro s a t hs ha
  cases ha
  exact ⟨hs, hs⟩

theorem modify {f : State → State} (hf : ∀ s, I s → I (f s)) :
    Ensures I (MonadStateOf.modifyGet fun s => ((), f s)) fun _ => True := by
  intro s a t hs ha
  cases ha
  exact ⟨hf s hs, trivial⟩

theorem bind {f : α → Assembly β} {R : β → Prop} (h : Ensures I x P)
    (hf : ∀ a, P a → Ensures I (f a) R) : Ensures I (x >>= f) R := by
  intro s b t hs hb
  obtain ⟨a, u, ha, hb⟩ := outcome_bind_eq_ok_iff.mp hb
  obtain ⟨hu, hP⟩ := h s a u hs ha
  exact hf a hP u b t hu hb

theorem mapDiagnostic {f : Diagnostic → Diagnostic} (h : Ensures I x P) :
    Ensures I (Assembly.mapDiagnostic f x) P := by
  intro s a t hs ha
  exact h s a t hs (outcome_mapDiagnostic_eq_ok_iff.mp ha)

theorem restoring (h : Ensures I x P) : Ensures I (Assembly.restoring x) P := by
  intro s a t hs ha
  exact h s a t hs (outcome_restoring_eq_ok_iff.mp ha)

end Ensures

end Stylesheet.Assembly
