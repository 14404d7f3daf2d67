import Mathlib
import Stylesheet.Engine
import Stylesheet.Proofs.Assembly.Failing

/-!
# Engines can be called again

An engine keeps notes while it is called, and a call that fails leaves it with whatever was noted
last. The notes do not matter to the next call. Every method does what the part of an assembly does
that it stands for, if the note of the line is right: from the same tables it comes to the same
result and leaves the same tables. Methods that enter a mixin leave it again, also if they fail, and
the note of the line is read only where it has just been set: for a fault in the line itself, and for
a fault that comes from an engine which this line has started.

A fault of another engine gets its entry for this engine when the call ends, not at the line that
imports; `Refines` says of the failure what it will be then.

* `Refines.bind` : two steps, each of which does what a part of the assembly does.
* `appendChildren_refines` : sibling lines, by induction on the lines.
* `call_eq` : a call is an assembly of the template.
* `call_after` : any engine after any calls.
-/

namespace Stylesheet

open Assembly Method

/-- The diagnostic as it is when the engine's call ends: one that comes from another engine gets the
line that this engine is at. -/
def Diagnostic.recorded (filename : Option String) (line : Option Int) (d : Diagnostic) :
    Diagnostic :=
  if d.backtrace.isEmpty then d else d.through filename line

def Engine.context (engine : Engine) (disk : Disk) : Context where
  options := engine.options
  disk := disk
  including := engine.including.reverse

def Engine.at (engine : Engine) (line : Option Int) (state : State) : Engine :=
  { engine with line, state }

namespace Engine

variable {engine : Engine} {line line' : Option Int} {s t : State}

@[simp] theorem at_state : (engine.at line s).state = s := rfl

@[simp] theorem at_line : (engine.at line s).line = line := rfl

@[simp] theorem at_including : (engine.at line s).including = engine.including := rfl

@[simp] theorem at_options : (engine.at line s).options = engine.options := rfl

@[simp] theorem at_template : (engine.at line s).template = engine.template := rfl

@[simp] theorem at_filename : (engine.at line s).filename = engine.filename := rfl

@[simp] theorem at_context (disk : Disk) :
    (engine.at line s).context disk = engine.context disk := rfl

@[simp] theorem at_at : (engine.at line s).at line' t = engine.at line' t := rfl

theorem at_self : engine.at engine.line engine.state = engine := rfl

end Engine

/-! ## What methods come to -/

namespace Method

variable {α β : Type} {engine : Engine}

@[simp] theorem outcome_pure (a : α) : (pure a : Method α).outcome engine = (.ok a, engine) := rfl

@[simp] theorem outcome_throw (failure : Failure) :
    (throw failure : Method α).outcome engine = (.error failure, engine) := rfl

@[simp] theorem outcome_get : (get : Method Engine).outcome engine = (.ok engine, engine) := rfl

@[simp] theorem outcome_modify (f : Engine → Engine) :
    (modify f : Method Unit).outcome engine = (.ok (), f engine) := rfl

/-- The last step runs whether the method succeeds or fails. -/
@[simp] theorem outcome_ensuring (m : Method α) (last : Engine → Engine) :
    (ensuring m last).outcome engine = ((m.outcome engine).1, last (m.outcome engine).2) := rfl

/-- A step of the assembly changes the engine's state and nothing else of it. -/
@[simp] theorem outcome_ofAssembly (x : Assembly α) :
    (ofAssembly x).outcome engine =
      ((x.outcome engine.state).1, { engine with state := (x.outcome engine.state).2 }) := rfl

/-- Methods run one after the other until one fails. -/
theorem outcome_bind (m : Method α) (f : α → Method β) :
    (m >>= f).outcome engine = match m.outcome engine with
      | (.ok a, after) => (f a).outcome after
      | (.error failure, after) => (.error failure, after) := by
  unfold outcome
  rw [ExceptT.run_bind, StateT.run_bind]
  rcases m.run.run engine with ⟨_ | _, after⟩ <;> rfl

/-- A handler starts in the engine that the failure left. -/
theorem outcome_tryCatch (m : Method α) (handle : Failure → Method α) :
    (tryCatch m handle).outcome engine = match m.outcome engine with
      | (.ok a, after) => (.ok a, after)
      | (.error failure, after) => (handle failure).outcome after := by
  unfold outcome
  rw [ExceptT.run_tryCatch, StateT.run_bind]
  rcases m.run.run engine with ⟨_ | _, after⟩ <;> rfl

/-! ## Methods that do what assemblies do -/

/-- For the engine the method does what the assembly does from the engine's tables: it comes to the
same result, or to the failure that the assembly comes to when the call ends, and leaves the same
tables. Of the engine's notes only the line may be another one, and not even that, where it is kept,
if the method succeeds. -/
inductive Refines (kept : Bool) (engine : Engine) (m : Method α) (x : Assembly α) : Prop
  | ok {a : α} {s : State} (line : Option Int) : x.outcome engine.state = (.ok a, s) →
      (kept = true → line = engine.line) → m.outcome engine = (.ok a, engine.at line s) →
      Refines kept engine m x
  | error (inner : Failure) (s : State) (line : Option Int) :
      x.outcome engine.state = (.error (inner.map (.recorded engine.filename line)), s) →
      m.outcome engine = (.error inner, engine.at line s) → Refines kept engine m x

namespace Refines

variable {kept : Bool} {m : Method α} {x : Assembly α}

theorem pure (a : α) : Refines kept engine (Pure.pure a) (Pure.pure a) :=
  .ok engine.line rfl (fun _ => rfl) rfl

theorem map_recorded_at (fault : Fault) (line line' : Option Int) (filename : Option String) :
    (Failure.refused (fault.at line)).map (.recorded filename line') = .refused (fault.at line) := by
  simp [Failure.map, Diagnostic.recorded, Fault.at]

/-- A failure that has not come from another engine stays as it is. -/
theorem throw {failure : Failure} (h : ∀ d, failure = .refused d → d.backtrace = []) :
    Refines kept engine (MonadExcept.throw failure : Method α) (MonadExcept.throw failure) := by
  refine .error failure engine.state engine.line ?_ rfl
  cases failure with
  | refused d => simp [Failure.map, Diagnostic.recorded, h d rfl]
  | _ => rfl

/-- A fault at the line that the engine is at. -/
theorem refuse (fault : Fault) {line : Int} (hline : engine.line = some line) :
    Refines kept engine (Method.refuse fault : Method α) (Assembly.refuse fault line) := by
  refine .error (.refused (fault.at line)) engine.state engine.line ?_ ?_
  · rw [map_recorded_at]
    rfl
  · unfold Method.refuse
    rw [Method.outcome_bind, Method.outcome_get]
    dsimp only
    rw [hline, Method.outcome_throw, ← hline, Engine.at_self]

/-- An assembly that leaves the tables as they are and fails by faults only. -/
theorem ofQuiet (hx : Quiet x) : Refines kept engine (ofAssembly x) x := by
  rcases hx engine.state with ⟨a, ha⟩ | ⟨failure, ⟨fault, line, rfl⟩, hfailure⟩
  · refine .ok engine.line ha (fun _ => rfl) ?_
    rw [outcome_ofAssembly, ha]
    rfl
  · refine .error (.refused (fault.at line)) engine.state engine.line ?_ ?_
    · rw [map_recorded_at]
      exact hfailure
    · rw [outcome_ofAssembly, hfailure]
      rfl

theorem log (event : Event) :
    Refines kept engine (ofAssembly (Assembly.log event)) (Assembly.log event) :=
  .ok engine.line rfl (fun _ => rfl) rfl

/-- Two steps do what two parts of an assembly do if each of them does. -/
theorem bind {f : α → Method β} {g : α → Assembly β} (h : Refines kept engine m x)
    (hf : ∀ a line s, (kept = true → line = engine.line) →
      Refines kept (engine.at line s) (f a) (g a)) :
    Refines kept engine (m >>= f) (x >>= g) := by
  cases h with
  | error inner s line hx hm =>
      refine .error inner s line ?_ ?_
      · exact outcome_bind_of_error hx g
      · rw [Method.outcome_bind, hm]
  | @ok a s line hx hline hm =>
      have hx' : (x >>= g).outcome engine.state = (g a).outcome s := outcome_bind_of_ok hx g
      have hm' : (m >>= f).outcome engine = (f a).outcome (engine.at line s) := by
        rw [Method.outcome_bind, hm]
      cases hf a line s hline with
      | ok line' hb hline' hb' =>
          refine .ok line' (hx'.trans hb) (fun hkept => (hline' hkept).trans (hline hkept)) ?_
          rw [hm', hb', Engine.at_at]
      | error inner s' line' hb hb' =>
          refine .error inner s' line' (hx'.trans hb) ?_
          rw [hm', hb', Engine.at_at]

/-- A last step that fails in neither. -/
theorem bind_pure (h : Refines kept engine m x) (g : α → β) :
    Refines kept engine (do return g (← m)) (do return g (← x)) :=
  h.bind fun a _ _ _ => .pure (g a)

/-- A method that looks at the engine first. -/
theorem get {f : Engine → Method α} (h : Refines kept engine (f engine) x) :
    Refines kept engine (MonadState.get >>= f) x := by
  have hf : (MonadState.get >>= f).outcome engine = (f engine).outcome engine := by
    rw [Method.outcome_bind, Method.outcome_get]
  cases h with
  | ok line hx hline hm => exact .ok line hx hline (hf.trans hm)
  | error inner s line hx hm => exact .error inner s line hx (hf.trans hm)

/-- Where the line need not be kept. -/
theorem anyLine (h : Refines kept engine m x) : Refines false engine m x := by
  cases h with
  | ok line hx _ hm => exact .ok line hx nofun hm
  | error inner s line hx hm => exact .error inner s line hx hm

/-- Only what the assembly comes to matters. -/
theorem congr {y : Assembly α} (h : Refines kept engine m x)
    (hy : y.outcome engine.state = x.outcome engine.state) : Refines kept engine m y := by
  cases h with
  | ok line hx hline hm => exact .ok line (hy.trans hx) hline hm
  | error inner s line hx hm => exact .error inner s line (hy.trans hx) hm

end Refines

end Method

/-- The engine assembles lines as they are assembled elsewhere. -/
def Append.Refines (append : Append) (disk : Disk) (elsewhere : Elsewhere) : Prop :=
  ∀ (engine : Engine) (root : Bool) (lines : List Line),
    Method.Refines false engine (append root lines) (elsewhere (engine.context disk) root lines)

namespace Engine

variable {append : Append} {disk : Disk} {elsewhere : Elsewhere} {engine : Engine} {line : Int}

/-! ## The tree of a template -/

/-- A call of an engine that is in no mixin does what the assembly of its template does, and its
entry is the one that the assembly notes. -/
theorem outcome_toTree (engine : Engine) (h : append.Refines disk elsewhere) :
    ∃ line, (toTree append).outcome engine =
      (((document elsewhere (engine.context disk) engine.template).outcome engine.state).1,
        engine.at line
          ((document elsewhere (engine.context disk) engine.template).outcome engine.state).2) := by
  unfold toTree document
  rw [Method.outcome_tryCatch, outcome_mapDiagnostic, Method.outcome_bind, Method.outcome_get]
  dsimp only
  cases hparse : parseLines engine.template.toList with
  | error d =>
      obtain ⟨-, hbacktrace⟩ := untraced_of_parseLines hparse
      refine ⟨engine.line, ?_⟩
      simp only [Method.outcome_bind, Method.outcome_throw, Assembly.outcome_throw,
        Method.outcome_get, hbacktrace, List.isEmpty_nil, if_true]
      rfl
  | ok lines =>
      dsimp only
      rw [Method.outcome_bind, Assembly.outcome_bind]
      cases h engine true lines with
      | @ok nodes s line hx _ hm =>
          refine ⟨line, ?_⟩
          rw [hx, hm]
          rfl
      | error inner s line hx hm =>
          refine ⟨line, ?_⟩
          rw [hx, hm]
          -- the engine adds its entry to the failure, which is what is recorded of it
          cases inner with
          | refused d =>
              by_cases hbacktrace : d.backtrace = []
              · simp [Method.outcome_bind, Failure.map, Diagnostic.recorded, hbacktrace]
                rfl
              · simp [Method.outcome_bind, Failure.map, Diagnostic.recorded, hbacktrace,
                  Diagnostic.through]
          | _ => rfl

/-! ## Lines -/

/-- The engine evaluates an expression as the assembly does at the current line. -/
theorem evaluate_refines (hline : engine.line = some line) (expression : List Char) :
    Refines true engine (evaluate expression) (Assembly.evaluate expression line) := by
  refine .get (.congr ?_ (outcome_bind_of_ok (Assembly.outcome_get _) _))
  cases Expr.cssOf engine.state.constants (String.ofList expression) with
  | ok css => exact .pure css
  | error refusal =>
      rw [hline]
      refine .throw fun d hd => ?_
      cases refusal with
      | fault fault =>
          cases hd
          rfl
      | infiniteNumber => cases hd

/-- The engine reads an attribute as the assembly does at the current line. -/
theorem parseAttribute_refines (hline : engine.line = some line) (way : AttributeSyntax)
    (text : List Char) :
    Refines true engine (parseAttribute way text)
      (attribute? (engine.context disk) way text line) := by
  unfold parseAttribute attribute?
  refine .get ?_
  show Refines true engine (if engine.options.attributeSyntax = some way.other then _ else _)
    (if engine.options.attributeSyntax = some way.other then _ else _)
  split
  · exact .refuse _ hline
  · cases attributeParts? way text with
    | none => exact .refuse _ hline
    | some parts =>
        obtain ⟨name, computed, value⟩ := parts
        cases computed with
        | true => exact (evaluate_refines hline _).bind_pure _
        | false => exact .pure _

theorem parseConstant_refines (hline : engine.line = some line) (text : List Char) :
    Refines true engine (parseConstant text) (defineConstant text line) := by
  unfold parseConstant defineConstant
  cases constantParts? text with
  | none => exact .refuse _ hline
  | some parts =>
      refine (evaluate_refines hline _).bind fun css number s _ => ?_
      exact .ok number rfl (fun _ => rfl) rfl

theorem parseMixinDefinition_refines (hline : engine.line = some line) (text : List Char)
    (body : List Line) :
    Refines true engine (parseMixinDefinition text body) (defineMixin text body line) := by
  dsimp only [parseMixinDefinition, defineMixin]
  split
  · exact .refuse _ hline
  · exact .ok engine.line rfl (fun _ => rfl) rfl

/-- The mixin is left again whatever its body comes to, and if it comes to nodes the line is the one
that includes it. -/
theorem parseMixinInclude_refines (h : append.Refines disk elsewhere)
    (hline : engine.line = some line) (text : List Char) :
    Refines true engine (parseMixinInclude append text)
      (includeMixin elsewhere (engine.context disk) text line) := by
  unfold parseMixinInclude includeMixin
  dsimp only
  generalize String.ofList (Text.trim (text.drop 1)) = name
  refine .get (.congr ?_ (outcome_bind_of_ok (Assembly.outcome_get _) _))
  cases engine.state.mixins.get? name with
  | none => exact .refuse _ hline
  | some body =>
      have hentered : (engine.context disk).including.contains name =
          engine.including.contains name := by
        simp [Engine.context]
      dsimp only
      rw [hentered]
      split
      · exact .refuse _ hline
      · let inside : Engine := { engine with including := engine.including ++ [name] }
        have hcontext : { engine.context disk with
            including := name :: (engine.context disk).including } = inside.context disk := by
          simp [Engine.context, inside]
        -- the engine that leaves the mixin differs from the one that entered it by what was noted
        have hleave : ∀ number s, { inside.at number s with
            including := (inside.at number s).including.dropLast } = engine.at number s := by
          intro number s
          simp [inside, Engine.at]
        rw [hcontext]
        cases h inside false body with
        | @ok nodes s number hx _ hm =>
            refine .ok engine.line hx (fun _ => rfl) ?_
            rw [Method.outcome_bind, Method.outcome_modify]
            dsimp only
            rw [Method.outcome_bind, Method.outcome_ensuring, hm]
            dsimp only
            rw [hleave]
            rfl
        | error inner s number hx hm =>
            refine .error inner s number hx ?_
            rw [Method.outcome_bind, Method.outcome_modify]
            dsimp only
            rw [Method.outcome_bind, Method.outcome_ensuring, hm]
            dsimp only
            rw [hleave]

/-- The other engine's failure has an entry for that engine, so that it will get one for the line of
this one. -/
theorem importFile_refines (h : append.Refines disk elsewhere) (hline : engine.line = some line)
    (target path : String) :
    Refines true engine (importFile append disk target path)
      (Stylesheet.importFile elsewhere (engine.context disk) line target path) := by
  unfold importFile Stylesheet.importFile
  dsimp only [Engine.context]
  cases disk.readText path with
  | error fault =>
      cases fault with
      | access fault => exact .refuse _ hline
      | encoding fault =>
          refine .throw fun d hd => ?_
          cases hd
  | ok template =>
      refine .get ((Refines.log _).bind fun _ number s hnumber => .get ?_)
      obtain rfl : number = some line := (hnumber rfl).trans hline
      let other : Engine :=
        { template, options := engine.options.withFilename path, state := s }
      obtain ⟨last, htree⟩ := outcome_toTree other h
      -- the part of the assembly that stands for the other engine
      let run : Except Failure Node × State :=
        (document elsewhere (other.context disk) template).outcome s
      have hrun : (toTree append).outcome other = (run.1, other.at last run.2) := htree
      show Refines true (engine.at line s) (takeOver ((toTree append).outcome other))
        (Assembly.mapDiagnostic (·.through engine.filename line)
          (restoring (document elsewhere (other.context disk) template)) >>= fun root =>
            pure root.children)
      rw [hrun]
      cases hresult : run with
      | mk result after =>
          have houtcome : (document elsewhere (other.context disk) template).outcome s =
              (result, after) := hresult
          cases result with
          | ok root =>
              refine .ok line ?_ (fun _ => rfl) rfl
              rw [Assembly.outcome_bind, outcome_mapDiagnostic, outcome_restoring, Engine.at_state,
                houtcome]
              rfl
          | error failure =>
              refine .error failure { s with events := after.events } line ?_ rfl
              rw [Assembly.outcome_bind, outcome_mapDiagnostic, outcome_restoring, Engine.at_state,
                houtcome]
              cases failure with
              | refused d =>
                  have hfile : d.backtrace ≠ [] := backtrace_ne_nil_of_document ⟨after, houtcome⟩
                  simp [Failure.map, Diagnostic.recorded, hfile]
              | _ => rfl

theorem importTarget_refines (h : append.Refines disk elsewhere) (hline : engine.line = some line)
    (target : List Char) :
    Refines true engine (importTarget append disk target)
      (Stylesheet.importTarget elsewhere (engine.context disk) line target) := by
  unfold importTarget Stylesheet.importTarget
  refine .get ?_
  dsimp only
  have hresolve : Import.resolve (engine.context disk).disk.isFile target
      (engine.context disk).options.loadPaths =
      Import.resolve disk.isFile target engine.options.loadPaths := rfl
  rw [hresolve, hline]
  cases Import.resolve disk.isFile target engine.options.loadPaths with
  | file path =>
      refine (Refines.log _).bind fun _ number s hnumber => ?_
      exact importFile_refines h ((hnumber rfl).trans hline) _ path
  | fallback name => exact (Refines.log _).bind fun _ _ _ _ => .pure _
  | reference name => exact .pure _
  | missing => exact .refuse _ hline

/-- The engine imports a list of targets as the assembly does, left to right. -/
theorem importTargets_refines (h : append.Refines disk elsewhere)
    (hline : engine.line = some line) (targets : List (List Char)) :
    Refines true engine (importTargets append disk targets)
      (Stylesheet.importTargets elsewhere (engine.context disk) line targets) := by
  induction targets generalizing engine with
  | nil => exact .pure _
  | cons target targets ih =>
      rw [importTargets, Stylesheet.importTargets]
      refine (importTarget_refines h hline target).bind fun nodes number s hnumber => ?_
      exact (ih ((hnumber rfl).trans hline)).bind_pure _

/-- The engine reads a line as the assembly does. -/
theorem parseLine_refines (h : append.Refines disk elsewhere) {line : Line}
    (hline : engine.line = some line.index) :
    Refines true engine (parseLine append disk line)
      (meaning elsewhere (engine.context disk) line) := by
  dsimp only [parseLine, meaning]
  cases Shape.of line.text.toList with
  | attr way => exact (parseAttribute_refines hline way _).bind_pure _
  | constant => exact (parseConstant_refines hline _).bind fun _ _ _ _ => .pure _
  | silentComment => exact .pure _
  | comment => exact .pure _
  | directive =>
      obtain ⟨name, value, hparts⟩ :
          ∃ name value, directiveParts line.text.toList = (name, value) := ⟨_, _, rfl⟩
      dsimp only
      rw [hparts]
      dsimp only
      split
      · cases value with
        | none => exact .refuse _ hline
        | some value => exact (importTargets_refines h hline _).bind_pure _
      · exact .pure _
  | escapedRule => exact .pure _
  | mixinDefinition => exact (parseMixinDefinition_refines hline _ _).bind fun _ _ _ _ => .pure _
  | mixinInclusion => exact (parseMixinInclude_refines h hline _).bind_pure _
  | rule => exact .pure _

/-- What an engine does once it has noted a line. -/
theorem refines_noted {α : Type} {number : Int} {m : Method α} {x : Assembly α}
    (h : Method.Refines false (engine.at number engine.state) m x) :
    Method.Refines false engine
      (do modify fun engine => { engine with line := some number }; m) x := by
  have hm : (do modify fun engine : Engine => { engine with line := some number }; m).outcome engine =
      m.outcome (engine.at number engine.state) := by
    rw [Method.outcome_bind, Method.outcome_modify]
    rfl
  cases h with
  | ok line hx _ hafter => exact .ok line hx nofun (hm.trans hafter)
  | error inner s line hx hafter => exact .error inner s line hx (hm.trans hafter)

mutual

/-- The engine builds a line's nodes as the assembly does. -/
theorem build_refines (h : append.Refines disk elsewhere) : ∀ (engine : Engine) (line : Line),
    Method.Refines false engine (build append disk line)
      (Stylesheet.build elsewhere (engine.context disk) line)
  | engine, ⟨text, depth, index, children⟩ => by
    rw [build, build_eq]
    refine refines_noted ?_
    refine (parseLine_refines h rfl).anyLine.bind fun found number s _ => ?_
    refine (Refines.ofQuiet (refuseNested_quiet _ found)).bind fun _ number' s' _ => ?_
    cases found with
    | item content =>
        cases content with
        | comment text visible lines => exact (Refines.pure []).bind fun _ _ _ _ => .get (.pure _)
        | _ =>
            refine (appendChildren_refines h false (engine.at number' s') children none).bind ?_
            exact fun nodes _ _ _ => .get (.pure _)
    | constant => exact .pure _
    | mixin => exact .pure _
    | silent => exact .pure _
    | nodes origin nodes => exact .pure _

/-- Sibling lines, whatever the engine has noted before. -/
theorem appendChildren_refines (h : append.Refines disk elsewhere) (root : Bool) :
    ∀ (engine : Engine) (lines : List Line) (opened : Option OpenRule),
      Method.Refines false engine (appendChildren append disk root opened lines)
        (arrange elsewhere (engine.context disk) root opened lines)
  | engine, [], none => by
    rw [appendChildren, arrange]
    exact .pure _
  | engine, [], some first => by
    rw [appendChildren, arrange]
    exact .throw fun d hd => by cases hd; rfl
  | engine, line :: lines, opened => by
    rw [appendChildren, arrange_cons]
    refine (build_refines h engine line).bind fun found number s _ => ?_
    refine (Refines.ofQuiet (continueRule_quiet _ _ _ _)).bind fun result number' s' _ => ?_
    obtain ⟨nodes, left⟩ := result
    exact (appendChildren_refines h root (engine.at number' s') lines left).bind_pure _

end

/-! ## Calls -/

/-- Appending lines refines arranging them, under every limit. -/
theorem appending_refines (disk : Disk) (limit : Nat) :
    (appending disk limit).Refines disk (assemble limit) := by
  induction limit with
  | zero => exact fun _ _ _ => .throw nofun
  | succ limit ih => exact fun engine root lines => appendChildren_refines ih root engine lines none

/-- **A call is an assembly.** An engine that is in no mixin comes to what the assembly of its
template comes to from its tables, and is again in no mixin. Whatever line it has noted, nothing
else about it has changed. -/
theorem call_eq (engine : Engine) (hincluding : engine.including = []) (disk : Disk) (limit : Nat) :
    ∃ line, engine.call disk limit =
      ((assembleTemplate engine.options disk engine.template engine.state limit).1,
        engine.at line
          (assembleTemplate engine.options disk engine.template engine.state limit).2) := by
  have hcontext : engine.context disk = { options := engine.options, disk } := by
    simp [Engine.context, hincluding]
  obtain ⟨line, hcall⟩ := outcome_toTree engine (appending_refines disk limit)
  rw [hcontext] at hcall
  exact ⟨line, hcall⟩

/-- What calls leave of an engine: its template, its options, and no mixin that it would be in. -/
theorem after_notes (engine : Engine) (hincluding : engine.including = []) (disks : List Disk)
    (limit : Nat) :
    (engine.after disks limit).including = [] ∧
      (engine.after disks limit).template = engine.template ∧
      (engine.after disks limit).options = engine.options := by
  induction disks generalizing engine with
  | nil => exact ⟨hincluding, rfl, rfl⟩
  | cons disk disks ih =>
      obtain ⟨line, hcall⟩ := call_eq engine hincluding disk limit
      have hnext : (engine.call disk limit).2.including = [] := by rw [hcall]; exact hincluding
      have hafter := ih _ hnext
      rw [hcall] at hafter
      unfold after at hafter ⊢
      rw [List.foldl_cons, hcall]
      exact hafter

/-- **An engine can be called again after anything.** Take a new engine and call it any number of
times, while the disk changes between the calls, each call succeeding or failing at any point. Then
the engine is in no mixin, and its next call comes to what the call of another new engine comes to
that starts from the tables the last call has left: to the same tree or the same failure, with its
line, its file and its backtrace, and it leaves the same tables. Both come to what the assembly of
the template comes to. -/
theorem call_after (template : String) (options : Options) (state : State) (disks : List Disk)
    (disk : Disk) (limit : Nat) :
    let engine := Engine.after { template, options, state } disks limit
    engine.including = [] ∧
      (engine.call disk limit).1 = (engine.renewed.call disk limit).1 ∧
      (engine.call disk limit).2.state = (engine.renewed.call disk limit).2.state ∧
      (engine.call disk limit).2.including = [] ∧
      ((engine.call disk limit).1, (engine.call disk limit).2.state) =
        assembleTemplate options disk template engine.state limit := by
  intro engine
  -- calls leave no mixin open, whatever they came to
  obtain ⟨hincluding, htemplate, hoptions⟩ :=
    after_notes { template, options, state } rfl disks limit
  obtain ⟨line, hcall⟩ := call_eq engine hincluding disk limit
  obtain ⟨line', hrenewed⟩ := call_eq engine.renewed rfl disk limit
  have hsame : assembleTemplate engine.renewed.options disk engine.renewed.template
      engine.renewed.state limit =
      assembleTemplate engine.options disk engine.template engine.state limit := rfl
  rw [hsame] at hrenewed
  have htree : assembleTemplate engine.options disk engine.template engine.state limit =
      assembleTemplate options disk template engine.state limit := by
    rw [show engine.options = options from hoptions,
      show engine.template = template from htemplate]
  rw [hcall, hrenewed, ← htree]
  exact ⟨hincluding, rfl, rfl, hincluding, rfl⟩

/-- A mixin that includes itself: the failing call leaves the note of the line where it was, and the
mixin is left. -/
example :
    let engine : Engine := { template := "=m\n  x\n    +m\na\n  +m", options := {} }
    let after := (engine.call (Disk.ofKnown []) 3).2
    (after.line, after.including, after.state.mixins.names) = (some 3, [], ["m"]) := by
  dsimp only
  cbv

end Engine

end Stylesheet
