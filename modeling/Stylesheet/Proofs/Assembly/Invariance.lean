import Stylesheet.Proofs.Assembly.Quiet
import Stylesheet.Proofs.Assembly.Siblings

/-!
# What assemblies that succeed leave as it was

An assembly changes its state in three ways only: it writes to the log, it defines constants and it
defines mixins. A property of states that survives these three survives every assembly that comes to
a result, whatever is included and imported on the way.

* `arrange_keeps` : siblings, by induction on the lines.
* `assemble_keeps` : what is included and imported, by induction on the limit.
-/

namespace Stylesheet

/-- The property survives everything that is done to a state. -/
structure State.Stable (P : State → Prop) : Prop where
  event : ∀ s event, P s → P { s with events := event :: s.events }
  constant : ∀ s name css, P s → P { s with constants := s.constants.set name css }
  mixin : ∀ s name body, P s → P { s with mixins := s.mixins.set name body }

namespace Assembly

variable {α β : Type} {P : State → Prop}

/-- From a state with the property the assembly comes to a result only in states with it. -/
def Keeps (P : State → Prop) (x : Assembly α) : Prop :=
  ∀ s a t, P s → x.outcome s = (.ok a, t) → P t

namespace Keeps

theorem pure (a : α) : Keeps P (Pure.pure a) := by
  intro s b t hs h
  cases h
  exact hs

theorem throw (failure : Failure) : Keeps P (MonadExcept.throw failure : Assembly α) := by
  intro s a t hs h
  cases h

/-- What leaves the state alone keeps every property of it. -/
theorem of_quiet {x : Assembly α} (h : Quiet x) : Keeps P x := by
  intro s a t hs ha
  rwa [h.state_eq ha]

theorem refuse (fault : Fault) (line : Option Int) :
    Keeps P (Assembly.refuse fault line : Assembly α) :=
  throw _

theorem modify {f : State → State} (hf : ∀ s, P s → P (f s)) :
    Keeps P (MonadStateOf.modifyGet fun s => ((), f s)) := by
  intro s a t hs h
  cases h
  exact hf s hs

theorem bind {x : Assembly α} {f : α → Assembly β} (hx : Keeps P x) (hf : ∀ a, Keeps P (f a)) :
    Keeps P (x >>= f) := by
  intro s b t hs h
  obtain ⟨a, u, ha, hb⟩ := outcome_bind_eq_ok_iff.mp h
  exact hf a u b t (hx s a u hs ha) hb

theorem mapDiagnostic {f : Diagnostic → Diagnostic} {x : Assembly α} (h : Keeps P x) :
    Keeps P (Assembly.mapDiagnostic f x) := by
  intro s a t hs ha
  exact h s a t hs (outcome_mapDiagnostic_eq_ok_iff.mp ha)

theorem restoring {x : Assembly α} (h : Keeps P x) : Keeps P (Assembly.restoring x) := by
  intro s a t hs ha
  exact h s a t hs (outcome_restoring_eq_ok_iff.mp ha)

end Keeps

end Assembly

open Assembly

def Elsewhere.Keeps (P : State → Prop) (elsewhere : Elsewhere) : Prop :=
  ∀ context root lines, Assembly.Keeps P (elsewhere context root lines)

variable {P : State → Prop} {elsewhere : Elsewhere} {context : Context}

/-! ## Lines -/

theorem log_keeps (hP : State.Stable P) (event : Event) : Keeps P (Assembly.log event) :=
  .modify fun s => hP.event s event

theorem evaluate_keeps (expression : List Char) (line : Int) :
    Keeps P (Assembly.evaluate expression line) := by
  intro s css t hs h
  rw [outcome_evaluate] at h
  cases (Prod.mk.inj h).2
  exact hs

theorem attribute?_keeps (way : AttributeSyntax) (text : List Char) (line : Int) :
    Keeps P (attribute? context way text line) := by
  unfold attribute?
  split
  · exact .refuse _ _
  · split
    · exact .refuse _ _
    · exact .bind (evaluate_keeps _ _) fun _ => .pure _
    · exact .pure _

theorem defineConstant_keeps (hP : State.Stable P) (text : List Char) (line : Int) :
    Keeps P (defineConstant text line) := by
  unfold defineConstant
  split
  · exact .refuse _ _
  · next name conditional value _ =>
      refine .bind (evaluate_keeps _ _) fun css => .modify fun s hs => ?_
      split
      · unfold Table.setIfAbsent
        split
        · exact hs
        · exact hP.constant s _ css hs
      · exact hP.constant s _ css hs

theorem defineMixin_keeps (hP : State.Stable P) (text : List Char) (body : List Line) (line : Int) :
    Keeps P (defineMixin text body line) := by
  unfold defineMixin
  dsimp only
  split
  · exact .refuse _ _
  · exact .modify fun s => hP.mixin s _ body

/-- An inclusion keeps what the arranging of its body keeps. -/
theorem includeMixin_keeps (h : elsewhere.Keeps P) (text : List Char) (line : Int) :
    Keeps P (includeMixin elsewhere context text line) := by
  unfold includeMixin
  refine .bind (.of_quiet .get) fun state => ?_
  split
  · exact .refuse _ _
  · split
    · exact .refuse _ _
    · exact h _ false _

theorem document_keeps (h : elsewhere.Keeps P) (template : String) :
    Keeps P (document elsewhere context template) := by
  refine .mapDiagnostic ?_
  split
  · exact .throw _
  · exact .bind (h context true _) fun _ => .pure _

theorem importFile_keeps (hP : State.Stable P) (h : elsewhere.Keeps P) (line : Int)
    (target path : String) : Keeps P (importFile elsewhere context line target path) := by
  unfold importFile
  split
  · exact .refuse _ _
  · exact .throw _
  · refine .bind (log_keeps hP _) fun _ => ?_
    exact .bind (.mapDiagnostic (.restoring (document_keeps h _))) fun _ => .pure _

/-- Importing keeps what the arranging of files keeps. -/
theorem importTargets_keeps (hP : State.Stable P) (h : elsewhere.Keeps P) (line : Int)
    (targets : List (List Char)) : Keeps P (importTargets elsewhere context line targets) := by
  induction targets with
  | nil => exact .pure _
  | cons target targets ih =>
      rw [importTargets]
      refine .bind ?_ fun _ => .bind ih fun _ => .pure _
      unfold importTarget
      dsimp only
      split
      · exact .bind (log_keeps hP _) fun _ => importFile_keeps hP h line _ _
      · exact .bind (log_keeps hP _) fun _ => .pure _
      · exact .pure _
      · exact .refuse _ _

/-- No line, whatever it means, breaks a stable property. -/
theorem meaning_keeps (hP : State.Stable P) (h : elsewhere.Keeps P) (line : Line) :
    Keeps P (meaning elsewhere context line) := by
  dsimp only [meaning]
  cases Shape.of line.text.toList with
  | attr way => exact .bind (attribute?_keeps _ _ _) fun _ => .pure _
  | constant => exact .bind (defineConstant_keeps hP _ _) fun _ => .pure _
  | directive =>
      dsimp only
      split
      · split
        · exact .refuse _ _
        · exact .bind (importTargets_keeps hP h _ _) fun _ => .pure _
      · exact .pure _
  | mixinDefinition => exact .bind (defineMixin_keeps hP _ _ _) fun _ => .pure _
  | mixinInclusion => exact .bind (includeMixin_keeps h _ _) fun _ => .pure _
  | _ => exact .pure _

/-! ## Siblings -/

mutual

theorem build_keeps (hP : State.Stable P) (h : elsewhere.Keeps P) :
    ∀ line, Keeps P (build elsewhere context line)
  | ⟨text, depth, index, children⟩ => by
    rw [build_eq]
    refine .bind (meaning_keeps hP h _) fun found => ?_
    refine .bind (.of_quiet (refuseNested_quiet _ _)) fun _ => ?_
    cases found with
    | item content =>
        refine .bind ?_ fun _ => .pure _
        unfold beneath
        split
        · exact .pure _
        · exact arrange_keeps hP h false children none
    | _ => exact .pure _

/-- Arranging lines keeps a stable property, line by line. -/
theorem arrange_keeps (hP : State.Stable P) (h : elsewhere.Keeps P) (root : Bool) :
    ∀ lines opened, Keeps P (arrange elsewhere context root opened lines)
  | [], none => by
    rw [arrange]
    exact .pure _
  | [], some first => by
    rw [arrange]
    exact .refuse _ _
  | line :: lines, opened => by
    rw [arrange_cons]
    refine .bind (build_keeps hP h line) fun found => ?_
    refine .bind (.of_quiet (continueRule_quiet _ _ _ _)) fun (nodes, left) => ?_
    exact .bind (arrange_keeps hP h root lines left) fun _ => .pure _

end

/-- Assembling keeps a stable property, however deep inclusions and imports may be nested. -/
theorem assemble_keeps (hP : State.Stable P) (limit : Nat) : (assemble limit).Keeps P := by
  induction limit with
  | zero => exact fun _ _ _ => .throw _
  | succ limit ih => exact fun context root lines => arrange_keeps hP ih root lines none

theorem advance_keeps (hP : State.Stable P) (h : elsewhere.Keeps P) (root : Bool)
    (lines : List Line) (opened : Option OpenRule) :
    Keeps P (advance elsewhere context root opened lines) := by
  induction lines generalizing opened with
  | nil => exact .pure _
  | cons line lines ih =>
      rw [advance]
      refine .bind (build_keeps hP h line) fun found => ?_
      refine .bind (.of_quiet (continueRule_quiet _ _ _ _)) fun (nodes, left) => ?_
      exact .bind (ih left) fun _ => .pure _

end Stylesheet
