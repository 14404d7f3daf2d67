import Stylesheet.Proofs.Assembly.Quiet
import Stylesheet.Proofs.Assembly.Transparency
import Stylesheet.Proofs.Line.Parsing

/-!
# Runs over the same lines

Two runs over the same lines can differ in what they start from: in their states, and in the way of
writing attributes that their options refuse. A `Pairing` says which states belong together and
which lines the runs may meet. If everything that an assembly does to a state keeps states together,
then the runs come to the same, the same nodes or the same failure, and to states that belong
together. Only where the first run fails in a way that is excused nothing is said of the second one.

* `Agree.bind`, `Follows.bind` : runs that go together step by step.
* `arrange_follows` : sibling lines, by induction on the lines.
* `assemble_carries` : whole assemblies, by induction on the limit.
-/

namespace Stylesheet

open Assembly

/-- How two runs over the same lines may differ. -/
structure Pairing where
  /-- Which states belong together. -/
  states : State → State → Prop
  /-- Which lines the runs may meet. -/
  admits : Line → Prop
  /-- After which failures of the first run nothing is said of the second one. -/
  excused : Failure → Prop
  /-- Both runs evaluate expressions with the same constants. -/
  constants_eq : ∀ {s s'}, states s s' → s.constants = s'.constants
  /-- Both runs may define the same constant. -/
  withConstants : ∀ {s s'}, states s s' → ∀ constants : Constants,
    states { s with constants := constants } { s' with constants := constants }
  /-- Both runs may write the same event into their logs. -/
  withEvent : ∀ {s s'}, states s s' → ∀ event : Event,
    states { s with events := event :: s.events } { s' with events := event :: s'.events }
  /-- Both runs may define the same mixin, if its lines may be met. -/
  withMixin : ∀ {s s'}, states s s' → ∀ (name : String) {body : List Line},
    (∀ line : Line, line.Within body → admits line) →
    states { s with mixins := s.mixins.set name body } { s' with mixins := s'.mixins.set name body }
  /-- An inclusion that may be met finds the same body in both runs, and lines that may be met. -/
  included : ∀ {s s'}, states s s' → ∀ line, admits line →
    Shape.of line.text.toList = .mixinInclusion →
    s.mixins.get? line.mixinName = s'.mixins.get? line.mixinName ∧
      ∀ body, s.mixins.get? line.mixinName = some body →
        ∀ inner : Line, inner.Within body → admits inner
  /-- Both runs may go back to earlier tables. -/
  restored : ∀ {s s' t t'}, states s s' → states t t' →
    states { s with events := t.events } { s' with events := t'.events }
  excused_through : ∀ {d : Diagnostic} (filename : Option String) (line : Option Int),
    excused (.refused d) → excused (.refused (d.through filename line))

namespace Pairing

variable (p : Pairing)

def Admits (lines : List Line) : Prop :=
  ∀ line : Line, line.Within lines → p.admits line

/-- Results that agree: the same, in states that belong together. -/
inductive Agree {α : Type} : Except Failure α × State → Except Failure α × State → Prop
  | same (result : Except Failure α) {t t' : State} :
      p.states t t' → Agree (result, t) (result, t')
  | excused {failure : Failure} {t : State} {result : Except Failure α × State} :
      p.excused failure → Agree (.error failure, t) result

/-- From states that belong together the two assemblies come to results that agree. -/
def Follows {α : Type} (x x' : Assembly α) : Prop :=
  ∀ s s', p.states s s' → p.Agree (x.outcome s) (x'.outcome s')

/-- Contexts of runs that go together. Of the ways of writing attributes both refuse the same ones,
or the refusal is excused; and all lines of files that can be imported may be met. -/
structure Contexts (context context' : Context) : Prop where
  disk : context.disk = context'.disk
  loadPaths : context.options.loadPaths = context'.options.loadPaths
  filename : context.options.filename = context'.options.filename
  including : context.including = context'.including
  attributes : ∀ way, (context.options.attributeSyntax = some way.other ↔
      context'.options.attributeSyntax = some way.other) ∨
    context.options.attributeSyntax = some way.other ∧
      ∀ line, p.excused (.refused ((Fault.refusedAttributeSyntax way).at line))
  files : ∀ target path text lines,
    Import.resolve context.disk.isFile target context.options.loadPaths = .file path →
    context.disk.readText path = .ok text → parseLines text.toList = .ok lines → p.Admits lines

/-- A way of assembling lines elsewhere that keeps two runs together. -/
def Carries (elsewhere : Elsewhere) : Prop :=
  ∀ {context context' : Context}, p.Contexts context context' → ∀ (root : Bool)
    {lines : List Line}, p.Admits lines →
    p.Follows (elsewhere context root lines) (elsewhere context' root lines)

variable {p} {α β : Type}

/-- A pairing admits a forest when it admits each line and what is beneath it. -/
theorem admits_cons_iff {line : Line} {lines : List Line} :
    p.Admits (line :: lines) ↔ p.admits line ∧ p.Admits line.children ∧ p.Admits lines := by
  unfold Admits
  simp only [Line.within_cons_iff]
  constructor
  · intro h
    exact ⟨h line (.inl rfl), fun inner hinner => h inner (.inr (.inl hinner)),
      fun later hlater => h later (.inr (.inr hlater))⟩
  · rintro ⟨hline, hchildren, hlines⟩ inner (rfl | hinner | hinner)
    · exact hline
    · exact hchildren inner hinner
    · exact hlines inner hinner

/-! ## Steps -/

/-- A result that agrees so far agrees after what comes next, if this does for what is come to. -/
theorem Agree.bind {x x' : Assembly α} {f f' : α → Assembly β} {s s' : State}
    (hx : p.Agree (x.outcome s) (x'.outcome s'))
    (hf : ∀ a t t', x.outcome s = (.ok a, t) → p.states t t' →
      p.Agree ((f a).outcome t) ((f' a).outcome t')) :
    p.Agree ((x >>= f).outcome s) ((x' >>= f').outcome s') := by
  rw [outcome_bind, outcome_bind]
  generalize x.outcome s = result at hx hf
  generalize x'.outcome s' = result' at hx
  cases hx with
  | same result ht =>
      cases result with
      | error failure => exact .same (.error failure) ht
      | ok a => exact hf a _ _ rfl ht
  | excused hexcused => exact .excused hexcused

namespace Follows

variable {x x' : Assembly α}

theorem pure (a : α) : p.Follows (Pure.pure a) (Pure.pure a) :=
  fun _ _ hs => .same (.ok a) hs

theorem throw (failure : Failure) :
    p.Follows (MonadExcept.throw failure : Assembly α) (MonadExcept.throw failure) :=
  fun _ _ hs => .same (.error failure) hs

theorem refuse (fault : Fault) (line : Option Int) :
    p.Follows (Assembly.refuse fault line : Assembly α) (Assembly.refuse fault line) :=
  throw _

theorem excused {failure : Failure} (h : p.excused failure) :
    p.Follows (MonadExcept.throw failure) x' :=
  fun _ _ _ => .excused h

/-- Runs that go together step by step. -/
theorem bind {f f' : α → Assembly β} (hx : p.Follows x x')
    (hf : ∀ a, p.Follows (f a) (f' a)) : p.Follows (x >>= f) (x' >>= f') :=
  fun s s' hs => (hx s s' hs).bind fun a t t' _ ht => hf a t t' ht

/-- What a step does may depend on the states. -/
theorem get {f f' : State → Assembly α}
    (h : ∀ s s', p.states s s' → p.Follows (f s) (f' s')) :
    p.Follows (MonadState.get >>= f) (MonadState.get >>= f') := by
  intro s s' hs
  rw [outcome_bind, outcome_bind]
  exact h s s' hs s s' hs

theorem modify {f : State → State} (h : ∀ s s', p.states s s' → p.states (f s) (f s')) :
    p.Follows (modify f : Assembly Unit) (modify f : Assembly Unit) :=
  fun s s' hs => .same (.ok ()) (h s s' hs)

theorem log (event : Event) : p.Follows (Assembly.log event) (Assembly.log event) :=
  modify fun _ _ hs => p.withEvent hs event

theorem mapDiagnostic {f : Diagnostic → Diagnostic} (hx : p.Follows x x')
    (hf : ∀ d, p.excused (.refused d) → p.excused (.refused (f d))) :
    p.Follows (Assembly.mapDiagnostic f x) (Assembly.mapDiagnostic f x') := by
  intro s s' hs
  have hagree := hx s s' hs
  rw [outcome_mapDiagnostic, outcome_mapDiagnostic]
  generalize x.outcome s = result at hagree
  generalize x'.outcome s' = result' at hagree
  cases hagree with
  | same result ht =>
      cases result with
      | ok a => exact .same (.ok a) ht
      | error failure => cases failure <;> exact .same _ ht
  | @excused failure t result hexcused =>
      cases failure with
      | refused d => exact .excused (hf d hexcused)
      | _ => exact .excused hexcused

theorem restoring (hx : p.Follows x x') :
    p.Follows (Assembly.restoring x) (Assembly.restoring x') := by
  intro s s' hs
  have hagree := hx s s' hs
  rw [outcome_restoring, outcome_restoring]
  generalize x.outcome s = result at hagree
  generalize x'.outcome s' = result' at hagree
  cases hagree with
  | same result ht =>
      cases result with
      | ok a => exact .same (.ok a) ht
      | error failure => exact .same (.error failure) (p.restored hs ht)
  | excused hexcused => exact .excused hexcused

end Follows

variable {elsewhere : Elsewhere} {context context' : Context}

/-! ## Contexts -/

theorem Contexts.enterMixin (h : p.Contexts context context') (name : String) :
    p.Contexts { context with including := name :: context.including }
      { context' with including := name :: context'.including } :=
  ⟨h.disk, h.loadPaths, h.filename, congrArg (name :: ·) h.including, h.attributes, h.files⟩

theorem Contexts.enterFile (h : p.Contexts context context') (path : String) :
    p.Contexts (context.inFile path) (context'.inFile path) :=
  ⟨h.disk, h.loadPaths, rfl, rfl, h.attributes, h.files⟩

/-! ## Expressions and definitions -/

theorem evaluate_follows (expression : List Char) (line : Int) :
    p.Follows (evaluate expression line) (evaluate expression line) := by
  refine Follows.get fun s s' hs => ?_
  rw [p.constants_eq hs]
  cases Expr.cssOf s'.constants (String.ofList expression) with
  | ok css => exact Follows.pure css
  | error refusal => exact Follows.throw _

/-- Attributes are all that the options decide about. -/
theorem attribute?_follows (h : p.Contexts context context') (way : AttributeSyntax)
    (text : List Char) (line : Int) :
    p.Follows (attribute? context way text line) (attribute? context' way text line) := by
  unfold attribute?
  rcases h.attributes way with hiff | ⟨hrefused, hexcused⟩
  · -- both accept the way or both refuse it
    rw [if_congr hiff rfl rfl]
    split
    · exact Follows.refuse _ _
    · split
      · exact Follows.refuse _ _
      · exact Follows.bind (evaluate_follows _ _) fun css => Follows.pure _
      · exact Follows.pure _
  · rw [if_pos hrefused]
    exact Follows.excused (hexcused _)

theorem defineConstant_follows (text : List Char) (line : Int) :
    p.Follows (defineConstant text line) (defineConstant text line) := by
  unfold defineConstant
  split
  · exact Follows.refuse _ _
  · refine Follows.bind (evaluate_follows _ _) fun css => Follows.modify fun s s' hs => ?_
    rw [p.constants_eq hs]
    exact p.withConstants hs _

/-- A mixin's definition is the same step, as long as its body is admitted. -/
theorem defineMixin_follows (text : List Char) {body : List Line} (hbody : p.Admits body)
    (line : Int) : p.Follows (defineMixin text body line) (defineMixin text body line) := by
  unfold defineMixin
  dsimp only
  split
  · exact Follows.refuse _ _
  · exact Follows.modify fun s s' hs => p.withMixin hs _ hbody

/-! ## Inclusions and imports -/

/-- An admitted inclusion stays in step, through the body that both tables hold. -/
theorem includeMixin_follows (he : p.Carries elsewhere) (h : p.Contexts context context')
    {line : Line} (hline : p.admits line)
    (hshape : Shape.of line.text.toList = .mixinInclusion) :
    p.Follows (includeMixin elsewhere context line.text.toList line.index)
      (includeMixin elsewhere context' line.text.toList line.index) := by
  refine Follows.get fun s s' hs => ?_
  obtain ⟨hget, hbody⟩ := p.included hs line hline hshape
  -- the second run finds the same body, or none either
  unfold Line.mixinName at hget hbody
  rw [← hget, ← h.including]
  split
  · exact Follows.refuse _ _
  · next body hfound =>
      split
      · exact Follows.refuse _ _
      · have henter := h.enterMixin (String.ofList (Text.trim (line.text.toList.drop 1)))
        rw [← h.including] at henter
        exact he henter false (hbody body hfound)

/-- A document stays in step when all its lines are admitted. -/
theorem document_follows (he : p.Carries elsewhere) (h : p.Contexts context context')
    {template : String}
    (hlines : ∀ lines, parseLines template.toList = .ok lines → p.Admits lines) :
    p.Follows (document elsewhere context template) (document elsewhere context' template) := by
  unfold document Context.filename
  rw [← h.filename]
  refine Follows.mapDiagnostic ?_ fun d hexcused => ?_
  · split
    · exact Follows.throw _
    · next lines hparse =>
        exact Follows.bind (he h true (hlines lines hparse)) fun nodes => Follows.pure _
  · split
    · exact p.excused_through _ _ hexcused
    · exact hexcused

theorem importFile_follows (he : p.Carries elsewhere) (h : p.Contexts context context')
    (line : Int) {target : List Char} {path : String}
    (hpath : Import.resolve context.disk.isFile target context.options.loadPaths = .file path)
    (shown : String) :
    p.Follows (importFile elsewhere context line shown path)
      (importFile elsewhere context' line shown path) := by
  have hfiles := h.files target path
  unfold importFile Context.filename
  rw [← h.disk, ← h.filename]
  split
  · exact Follows.refuse _ _
  · exact Follows.throw _
  · next template htext =>
      refine Follows.bind (Follows.log _) fun _ => ?_
      have hinner := h.enterFile path
      unfold Context.inFile at hinner
      rw [← h.disk] at hinner
      have hdocument := document_follows he hinner fun lines hparse =>
        hfiles template lines hpath htext hparse
      -- a file that fails leaves the tables as they were before it, in both runs
      exact Follows.bind (Follows.mapDiagnostic (Follows.restoring hdocument)
        fun d hexcused => p.excused_through _ _ hexcused) fun tree => Follows.pure _

theorem importTarget_follows (he : p.Carries elsewhere) (h : p.Contexts context context')
    (line : Int) (target : List Char) :
    p.Follows (importTarget elsewhere context line target)
      (importTarget elsewhere context' line target) := by
  have hreference : ∀ name, reference context line name = reference context' line name := by
    intro name
    unfold reference Context.filename
    rw [h.filename]
  unfold importTarget
  dsimp only
  rw [← h.disk, ← h.loadPaths]
  split
  · next path hpath =>
      exact Follows.bind (Follows.log _) fun _ => importFile_follows he h line hpath _
  · rw [hreference]
    exact Follows.bind (Follows.log _) fun _ => Follows.pure _
  · rw [hreference]
    exact Follows.pure _
  · exact Follows.refuse _ _

/-- A list of targets stays in step, by induction on the list. -/
theorem importTargets_follows (he : p.Carries elsewhere) (h : p.Contexts context context')
    (line : Int) (targets : List (List Char)) :
    p.Follows (importTargets elsewhere context line targets)
      (importTargets elsewhere context' line targets) := by
  induction targets with
  | nil => exact Follows.pure []
  | cons target targets ih =>
      rw [importTargets, importTargets]
      exact Follows.bind (importTarget_follows he h line target) fun nodes =>
        Follows.bind ih fun more => Follows.pure _

/-! ## Lines -/

/-- An admitted line means the same in both runs. -/
theorem meaning_follows (he : p.Carries elsewhere) (h : p.Contexts context context') {line : Line}
    (hline : p.admits line) (hchildren : p.Admits line.children) :
    p.Follows (meaning elsewhere context line) (meaning elsewhere context' line) := by
  unfold meaning
  dsimp only
  cases hshape : Shape.of line.text.toList with
  | attr way =>
      exact Follows.bind (attribute?_follows h way _ _) fun content => Follows.pure _
  | constant => exact Follows.bind (defineConstant_follows _ _) fun _ => Follows.pure _
  | directive =>
      dsimp only
      split
      · split
        · exact Follows.refuse _ _
        · exact Follows.bind (importTargets_follows he h _ _) fun nodes => Follows.pure _
      · exact Follows.pure _
  | mixinDefinition =>
      exact Follows.bind (defineMixin_follows _ hchildren _) fun _ => Follows.pure _
  | mixinInclusion =>
      exact Follows.bind (includeMixin_follows he h hline hshape) fun nodes => Follows.pure _
  | _ => exact Follows.pure _

theorem refuseNested_follows (nested : Option Int) (found : Meaning Content) :
    p.Follows (refuseNested nested found) (refuseNested nested found) := by
  unfold refuseNested
  split
  · exact Follows.refuse _ _
  · exact Follows.refuse _ _
  · exact Follows.pure _

/-! ## Siblings -/

theorem place_follows (root : Bool) (line : Int) (found : Meaning Node) :
    p.Follows (place root line found) (place root line found) := by
  cases found with
  | silent => exact Follows.pure []
  | _ =>
      unfold place
      dsimp only
      split
      · first | exact Follows.refuse _ _ | exact Follows.pure _
      · first | exact Follows.refuse _ _ | exact Follows.pure _

theorem continueRule_follows (root : Bool) (line : Int) (opened : Option OpenRule)
    (found : Meaning Node) :
    p.Follows (continueRule root line opened found) (continueRule root line opened found) := by
  unfold continueRule
  split
  · dsimp only
    split
    · split
      · exact Follows.pure _
      · exact Follows.refuse _ _
    · exact Follows.pure _
  · split
    · exact Follows.refuse _ _
    · exact Follows.bind (place_follows _ _ _) fun nodes => Follows.pure _

mutual

/-- One admitted line, with what is beneath it, is built in step. -/
theorem build_follows (he : p.Carries elsewhere) (h : p.Contexts context context') :
    ∀ line : Line, p.admits line → p.Admits line.children →
      p.Follows (build elsewhere context line) (build elsewhere context' line)
  | ⟨text, depth, index, children⟩, hline, hchildren => by
    rw [build_eq, build_eq]
    refine Follows.bind (meaning_follows he h hline hchildren) fun found => ?_
    refine Follows.bind (refuseNested_follows _ found) fun _ => ?_
    cases found with
    | item content =>
        unfold Context.filename
        rw [h.filename]
        refine Follows.bind ?_ fun nodes => Follows.pure _
        cases content with
        | comment _ _ _ =>
            -- lines beneath a comment are not assembled
            exact Follows.pure []
        | _ => exact arrange_follows he h false children none hchildren
    | _ => exact Follows.pure _

/-- Sibling lines that may be met. -/
theorem arrange_follows (he : p.Carries elsewhere) (h : p.Contexts context context')
    (root : Bool) : ∀ (lines : List Line) (opened : Option OpenRule), p.Admits lines →
      p.Follows (arrange elsewhere context root opened lines)
        (arrange elsewhere context' root opened lines)
  | [], none, _ => by
    rw [arrange, arrange]
    exact Follows.pure []
  | [], some first, _ => by
    rw [arrange, arrange]
    exact Follows.refuse _ _
  | line :: lines, opened, hlines => by
    obtain ⟨hline, hchildren, hlater⟩ := admits_cons_iff.mp hlines
    rw [arrange_cons, arrange_cons]
    refine Follows.bind (build_follows he h line hline hchildren) fun found => ?_
    refine Follows.bind (continueRule_follows root line.index opened found) fun (nodes, left) => ?_
    exact Follows.bind (arrange_follows he h root lines left hlater) fun more => Follows.pure _

end

/-- Lines that are gone through to a place where they may be cut. -/
theorem advance_follows (he : p.Carries elsewhere) (h : p.Contexts context context')
    (root : Bool) {lines : List Line} (hlines : p.Admits lines) (opened : Option OpenRule) :
    p.Follows (advance elsewhere context root opened lines)
      (advance elsewhere context' root opened lines) := by
  induction lines generalizing opened with
  | nil => exact Follows.pure _
  | cons line lines ih =>
      obtain ⟨hline, hchildren, hlater⟩ := admits_cons_iff.mp hlines
      rw [advance, advance]
      refine Follows.bind (build_follows he h line hline hchildren) fun found => ?_
      refine Follows.bind (continueRule_follows root line.index opened found) fun (nodes, left) => ?_
      exact Follows.bind (ih hlater left) fun (more, open') => Follows.pure _

/-! ## Whole assemblies -/

/-- Assembling carries a pairing, however deep inclusions and imports may be nested. -/
theorem assemble_carries (limit : Nat) : p.Carries (assemble limit) := by
  induction limit with
  | zero => exact fun _ _ _ _ => Follows.throw .nestingLimit
  | succ limit ih => exact fun h root lines hlines => arrange_follows ih h root lines none hlines

end Pairing

end Stylesheet
