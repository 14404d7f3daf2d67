import Stylesheet.Proofs.Assembly.Failing

/-!
# What is running while a template is compiled

While lines are assembled, the lines above them, the lines that include them and the files that
have imported theirs are waiting. A `Run` is the compilation of one template; it assembles
`Siblings`, these open other siblings, nested ones or the body of a mixin, and a line among them
that imports starts another run. `Run.Running` is the chain of runs that have started each other.

Failures travel this chain in both directions: what fails makes everything above it fail, and what
fails does so by itself or by something beneath it.

* `Run.Assembles.fails` : siblings that fail make the run fail that assembles them.
* `Siblings.fails_inside` : where the failure of siblings comes from.
* `Run.Running.fails` : a run that fails makes every run fail that waits for it, and each of them
  adds its own line.
-/

namespace Stylesheet

open Assembly

/-- Sibling lines with everything that their assembly depends on. -/
structure Siblings where
  limit : Nat
  context : Context
  root : Bool
  lines : List Line
  start : State

/-- A template with everything that its compilation depends on. -/
structure Run where
  limit : Nat
  context : Context
  template : String
  start : State

def Context.entering (context : Context) (name : String) : Context :=
  { context with including := name :: context.including }

namespace Siblings

def assembly (b : Siblings) : Assembly (List Node) :=
  arrange (assemble b.limit) b.context b.root none b.lines

/-- The siblings come to the failure in the state. -/
def Ends (b : Siblings) (failure : Failure) (t : State) : Prop :=
  b.assembly.outcome b.start = (.error failure, t)

def Fails (b : Siblings) (failure : Failure) : Prop :=
  b.assembly.Fails b.start failure

/-- The line is next: the siblings before it have been assembled, and have left the state. -/
def Reaches (b : Siblings) (line : Line) (s : State) : Prop :=
  ∃ pre post nodes left, b.lines = pre ++ line :: post ∧
    (advance (assemble b.limit) b.context b.root none pre).outcome b.start =
      (.ok (nodes, left), s)

/-- Siblings wait for others in which a line of theirs is spelled out: for those nested beneath a
line that becomes a node, or for the body of a mixin that a line includes. The names are those of
the mixins that are entered. -/
inductive Opens (b : Siblings) : List String → Siblings → Prop
  | nested {line : Line} {s t : State} {content : Content} : b.Reaches line s →
      (meaning (assemble b.limit) b.context line).outcome s = (.ok (.item content), t) →
      (∀ text output lines, content ≠ .comment text output lines) →
      Opens b [] ⟨b.limit, b.context, false, line.children, t⟩
  | inclusion {line : Line} {s : State} {body : List Line} {limit : Nat} : b.Reaches line s →
      Shape.of line.text.toList = .mixinInclusion →
      s.mixins.get? line.mixinName = some body → line.mixinName ∉ b.context.including →
      b.limit = limit + 1 →
      Opens b [line.mixinName] ⟨limit, b.context.entering line.mixinName, false, body, s⟩

/-- A line of the siblings starts the run of a file that it imports, after the targets before this
one. -/
inductive Imports (b : Siblings) (line : Line) : Run → Prop
  | target {s t : State} {value target : List Char} {earlier later : List (List Char)}
      {nodes : List Node} {path template : String} : b.Reaches line s →
      line.ImportsTargets value → Import.targets value = earlier ++ target :: later →
      (importTargets (assemble b.limit) b.context line.index earlier).outcome s = (.ok nodes, t) →
      Import.resolve b.context.disk.isFile target b.context.options.loadPaths = .file path →
      b.context.disk.readText path = .ok template →
      Imports b line ⟨b.limit, b.context.inFile path, template,
        t.importing (String.ofList target) path b.context.filename⟩

/-- A line of the siblings is next which comes to a failure that is no fault of the line: its value
is an infinite number, or a file that it imports is no text. -/
inductive Escapes (b : Siblings) : Failure → Prop
  | infinite {line : Line} {s : State} {expression : List Char} : b.Reaches line s →
      line.Evaluates b.context expression →
      Expr.cssOf s.constants (String.ofList expression) = .error .infiniteNumber →
      Escapes b .infiniteNumber
  | undecodable {line : Line} {s t : State} {value target : List Char}
      {earlier later : List (List Char)} {nodes : List Node} {path : String}
      {fault : Text.Utf8Fault} : b.Reaches line s → line.ImportsTargets value →
      Import.targets value = earlier ++ target :: later →
      (importTargets (assemble b.limit) b.context line.index earlier).outcome s = (.ok nodes, t) →
      Import.resolve b.context.disk.isFile target b.context.options.loadPaths = .file path →
      b.context.disk.readText path = .error (.encoding fault) →
      Escapes b (.undecodable path fault)

/-- No deeper nesting is allowed, and a line is next whose mixin would be entered. -/
def Exhausted (b : Siblings) : Prop :=
  b.limit = 0 ∧ ∃ line s, b.Reaches line s ∧ Shape.of line.text.toList = .mixinInclusion ∧
    s.mixins.contains line.mixinName = true ∧ line.mixinName ∉ b.context.including

/-- Siblings wait for others, directly or through siblings between them. The names are those of the
mixins that are entered on the way, the innermost first. -/
inductive Awaits (b : Siblings) : List String → Siblings → Prop
  | self : Awaits b [] b
  | opened {names more : List String} {b' b'' : Siblings} : Awaits b names b' → b'.Opens more b'' →
      Awaits b (more ++ names) b''

end Siblings

namespace Run

def Ends (r : Run) (failure : Failure) (t : State) : Prop :=
  (document (assemble r.limit) r.context r.template).outcome r.start = (.error failure, t)

def Fails (r : Run) (failure : Failure) : Prop :=
  (document (assemble r.limit) r.context r.template).Fails r.start failure

/-- The run assembles the siblings while the bodies of the mixins with the names are being
assembled, the innermost first. -/
inductive Assembles (r : Run) : List String → Siblings → Prop
  | top {limit : Nat} {lines : List Line} : r.limit = limit + 1 →
      parseLines r.template.toList = .ok lines →
      Assembles r [] ⟨limit, r.context, true, lines, r.start⟩
  | opened {names more : List String} {b b' : Siblings} : Assembles r names b → b.Opens more b' →
      Assembles r (more ++ names) b'

/-- The second run has been started by the first one, directly or by runs between them. There is a
frame for each run that waits for another one, with the line that imports, and a name for each mixin
whose body is being assembled in one of them, the innermost first. -/
inductive Running (r : Run) : List Frame → List String → Run → Prop
  | self : Running r [] [] r
  | imported {frames : List Frame} {names more : List String} {r' r'' : Run} {b : Siblings}
      {line : Line} : Running r frames names r' → r'.Assembles more b → b.Imports line r'' →
      Running r (⟨r'.context.filename, some line.index⟩ :: frames) (more ++ names) r''

end Run

/-- The siblings come to a failure that is no fault of one of their lines: the limit is reached, the
failure is none that has a diagnostic, or a run fails that a line among them starts. -/
inductive Siblings.Breaks (b : Siblings) : Failure → Prop
  | exhausted : b.Exhausted → Breaks b .nestingLimit
  | escapes {failure : Failure} : b.Escapes failure → Breaks b failure
  | imports {line : Line} {r : Run} {inner : Failure} : b.Imports line r → r.Fails inner →
      Breaks b (inner.map (·.through b.context.filename line.index))

/-! ## Failures on their way up -/

namespace Siblings

variable {b b' : Siblings} {names : List String} {line : Line} {s t : State} {failure : Failure}

/-- A failure that is no fault has no diagnostic to change. -/
theorem Escapes.map_eq (h : b.Escapes failure) (f : Diagnostic → Diagnostic) :
    failure.map f = failure := by
  cases h with
  | infinite _ _ _ => rfl
  | undecodable _ _ _ _ _ _ => rfl

/-- Siblings fail as soon as one of them does. -/
theorem Reaches.ends (hreaches : b.Reaches line s)
    (h : (build (assemble b.limit) b.context line).outcome s = (.error failure, t)) :
    b.Ends failure t := by
  obtain ⟨pre, post, nodes, left, hlines, hpre⟩ := hreaches
  unfold Ends assembly
  rw [hlines]
  exact outcome_arrange_of_build hpre h

/-- Siblings fail with what the line that they reach fails with. -/
theorem Reaches.fails (hreaches : b.Reaches line s)
    (h : (build (assemble b.limit) b.context line).Fails s failure) : b.Fails failure := by
  obtain ⟨t, ht⟩ := h
  exact ⟨t, hreaches.ends ht⟩

theorem Opens.ends (hopens : b.Opens names b') (h : b'.Ends failure t) : b.Ends failure t := by
  cases hopens with
  | @nested line s u content hreaches hmeaning hcomment =>
      refine hreaches.ends ?_
      obtain ⟨text, depth, index, children⟩ := line
      have hnested : (refuseNested (children.head?.map (·.index)) (.item content)).outcome u =
          (.ok (), u) := by
        cases children <;> rfl
      rw [build_eq, outcome_bind_of_ok hmeaning, outcome_bind_of_ok hnested]
      -- what is beneath the line is assembled before its node is made
      refine outcome_bind_of_error ?_ _
      cases content with
      | comment text output lines => exact absurd rfl (hcomment text output lines)
      | _ => exact h
  | @inclusion line s body limit hreaches hshape hbody hnew hlimit =>
      refine hreaches.ends ?_
      have hinclude : (includeMixin (assemble b.limit) b.context line.text.toList
          line.index).outcome s = (.error failure, t) := by
        rw [outcome_includeMixin_of_get? hbody hnew, hlimit]
        exact h
      obtain ⟨text, depth, index, children⟩ := line
      rw [build_eq]
      refine outcome_bind_of_error ?_ _
      rw [meaning_of_inclusion hshape]
      exact outcome_bind_of_error hinclude _

theorem Awaits.head {more : List String} {b'' : Siblings} (h : b.Opens more b')
    (h' : b'.Awaits names b'') : b.Awaits (names ++ more) b'' := by
  induction h' with
  | self =>
      have hself := Awaits.self.opened h
      rwa [List.append_nil] at hself
  | opened _ hopens ih =>
      rw [List.append_assoc]
      exact ih.opened hopens

/-- Siblings fail as the file that they import does, with the import's place added. -/
theorem Imports.fails {r : Run} (himports : b.Imports line r) (h : r.Fails failure) :
    b.Fails (failure.map (·.through b.context.filename line.index)) := by
  obtain ⟨hreaches, himport, htargets, hearlier, hpath, htext⟩ := himports
  refine hreaches.fails (build_fails_iff.mpr (.inl ?_))
  rw [meaning_fails_iff_of_import himport, importTargets_fails_iff]
  refine ⟨_, _, _, _, _, htargets, hearlier, ?_⟩
  rw [importTarget_fails_iff hpath htext, imported_fails_iff]
  exact ⟨failure, rfl, h⟩

end Siblings

namespace Run

variable {r r' : Run} {names : List String} {frames : List Frame} {b : Siblings}
  {failure : Failure}

/-- All siblings of a run belong to the same file, and depend on the mixins that are entered. -/
theorem Assembles.context_eq (h : r.Assembles names b) :
    b.context = { r.context with including := names ++ r.context.including } := by
  induction h with
  | top _ _ => rfl
  | opened _ hopens ih =>
      cases hopens with
      | nested _ _ _ => exact ih
      | inclusion _ _ _ _ _ =>
          rw [ih]
          rfl

/-- What a run assembles has a limit below the run's own. -/
theorem Assembles.limit_lt (h : r.Assembles names b) : b.limit < r.limit := by
  induction h with
  | top hlimit _ =>
      dsimp only
      omega
  | opened _ hopens ih =>
      cases hopens with
      | nested _ _ _ => exact ih
      | inclusion _ _ _ _ hlimit =>
          dsimp only
          omega

theorem Assembles.awaits {more : List String} {b' : Siblings} (h : r.Assembles names b)
    (h' : b.Awaits more b') : r.Assembles (more ++ names) b' := by
  induction h' with
  | self => exact h
  | opened _ hopens ih =>
      rw [List.append_assoc]
      exact ih.opened hopens

/-- The run ends in the state in which siblings fail that it assembles. -/
theorem Assembles.ends {t : State} (h : r.Assembles names b) (hends : b.Ends failure t) :
    r.Ends (failure.map (.noted r.context.filename)) t := by
  induction h with
  | @top limit lines hlimit hparse =>
      unfold Run.Ends
      rw [outcome_document_of_lines hparse, hlimit]
      have htop : (assemble (limit + 1) r.context true lines).outcome r.start =
          (.error failure, t) := hends
      rw [htop]
  | opened _ hopens ih => exact ih (hopens.ends hends)

/-- A run fails as the siblings that it assembles do, with the file noted. -/
theorem Assembles.fails (h : r.Assembles names b) (hfails : b.Fails failure) :
    r.Fails (failure.map (.noted r.context.filename)) := by
  obtain ⟨t, ht⟩ := hfails
  exact ⟨t, h.ends ht⟩

/-- The failure of a run names at least the file of the run. -/
theorem Fails.backtrace_ne_nil {d : Diagnostic} (h : r.Fails (.refused d)) : d.backtrace ≠ [] :=
  backtrace_ne_nil_of_document h

/-- A run that fails makes the run fail that waits for it; the line that imports is added, and
nothing else, as the file of the fault is noted already. -/
theorem Assembles.fails_of_imports (h : r.Assembles names b) {line : Line}
    (himports : b.Imports line r') (hfails : r'.Fails failure) :
    r.Fails (failure.map (·.through r.context.filename line.index)) := by
  have hup := h.fails (himports.fails hfails)
  have hfile : b.context.filename = r.context.filename := by
    rw [h.context_eq]
    rfl
  rwa [hfile, Failure.map_noted_map_through] at hup

/-- A run that fails makes every run fail that waits for it. To its diagnostic the frames of these
runs are added, from the inside out. -/
theorem Running.fails (h : r.Running frames names r') {d : Diagnostic}
    (hfails : r'.Fails (.refused d)) :
    r.Fails (.refused { d with backtrace := d.backtrace ++ frames }) := by
  induction h generalizing d with
  | self =>
      rw [List.append_nil]
      exact hfails
  | @imported frames names more r' r'' b line _ hassembles himports ih =>
      have hup := ih (hassembles.fails_of_imports himports hfails)
      have heq : { d.through r'.context.filename line.index with
            backtrace := (d.through r'.context.filename line.index).backtrace ++ frames } =
          { d with
            backtrace := d.backtrace ++ ⟨r'.context.filename, some line.index⟩ :: frames } := by
        simp [Diagnostic.through, hfails.backtrace_ne_nil]
      rwa [heq] at hup

end Run

/-! ## Failures on their way down -/

/-- Where the targets of an import fail, the file of one of them does, if the fault is not in the
line itself and the file is a text. -/
theorem Siblings.Reaches.imports_fails {b : Siblings} {line : Line} {s : State} {value : List Char}
    {failure : Failure} (hreaches : b.Reaches line s) (himport : line.ImportsTargets value)
    (h : (importTargets (assemble b.limit) b.context line.index (Import.targets value)).Fails s
      failure) : failure.IsFault ∨ b.Breaks failure := by
  obtain ⟨earlier, target, later, nodes, t, htargets, hearlier, h⟩ := importTargets_fails_iff.mp h
  rcases importTarget_fails h with hfault | ⟨path, hpath, ⟨fault, htext, rfl⟩ | ⟨template, htext⟩⟩
  · exact .inl hfault
  · exact .inr (.escapes (.undecodable hreaches himport htargets hearlier hpath htext))
  · rw [importTarget_fails_iff hpath htext] at h
    obtain ⟨inner, rfl, hfails⟩ := imported_fails_iff.mp h
    exact .inr (.imports (.target hreaches himport htargets hearlier hpath htext) hfails)

/-- Where the value of a line fails, the fault is in the line unless the value is infinite. -/
theorem Siblings.Reaches.evaluate_fails {b : Siblings} {line : Line} {s : State}
    {expression : List Char} {failure : Failure} (hreaches : b.Reaches line s)
    (hevaluates : line.Evaluates b.context expression)
    (h : (Assembly.evaluate expression line.index).Fails s failure) :
    failure.IsFault ∨ b.Escapes failure := by
  obtain ⟨refusal, hcss, rfl⟩ := evaluate_fails_iff.mp h
  cases refusal with
  | fault fault => exact .inl (fault.isFault_refused _)
  | infiniteNumber => exact .inr (.infinite hreaches hevaluates hcss)

/-- Where an inclusion fails, the fault is in the line, or the limit is reached, or the body of the
mixin fails, which is assembled one level deeper. -/
theorem Siblings.Reaches.inclusion_fails {b : Siblings} {line : Line} {s : State}
    {failure : Failure} (hreaches : b.Reaches line s)
    (hshape : Shape.of line.text.toList = .mixinInclusion)
    (h : (meaning (assemble b.limit) b.context line).Fails s failure) :
    failure.IsFault ∨ b.Breaks failure ∨
      ∃ names b', b.Opens names b' ∧ b'.limit < b.limit ∧ b'.Fails failure := by
  rw [meaning_fails_iff_of_inclusion hshape, includeMixin_fails_iff] at h
  split at h
  · rw [h]
    exact .inl (Fault.isFault_refused _ _)
  · next body hbody =>
      split at h
      · rw [h]
        exact .inl (Fault.isFault_refused _ _)
      · next hnew =>
          -- the body is assembled one level deeper, or the limit is reached here
          cases hlimit : b.limit with
          | zero =>
              rw [hlimit] at h
              cases fails_throw_iff.mp h
              have hdefined : s.mixins.contains line.mixinName = true := by
                unfold Table.contains
                rw [hbody]
                rfl
              exact .inr (.inl (.exhausted ⟨hlimit, line, s, hreaches, hshape, hdefined, hnew⟩))
          | succ limit =>
              rw [hlimit] at h
              exact .inr (.inr ⟨_, _, .inclusion hreaches hshape hbody hnew hlimit,
                Nat.lt_succ_self limit, h⟩)

/-- Where what is beneath a line fails, the lines nested there do. -/
theorem Siblings.Reaches.beneath_fails {b : Siblings} {line : Line} {s t : State}
    {content : Content} {failure : Failure} (hreaches : b.Reaches line s)
    (hmeaning : (meaning (assemble b.limit) b.context line).outcome s = (.ok (.item content), t))
    (h : (beneath (assemble b.limit) b.context content line.children).Fails t failure) :
    b.Opens [] ⟨b.limit, b.context, false, line.children, t⟩ ∧
      (⟨b.limit, b.context, false, line.children, t⟩ : Siblings).Fails failure := by
  have hcomment : ∀ text output lines, content ≠ .comment text output lines := by
    rintro text output lines rfl
    exact not_fails_pure _ h
  refine ⟨.nested hreaches hmeaning hcomment, ?_⟩
  cases content with
  | comment text output lines => exact absurd rfl (hcomment text output lines)
  | _ => exact h

/-- The lines nested beneath a line are smaller than the lines that it stands among. -/
theorem Siblings.Reaches.sizeOf_lt {b : Siblings} {line : Line} {s : State}
    (h : b.Reaches line s) : sizeOf line.children < sizeOf b.lines := by
  obtain ⟨pre, post, nodes, left, hlines, -⟩ := h
  have hmem : line ∈ b.lines := by
    rw [hlines]
    simp
  have hline := List.sizeOf_lt_of_mem hmem
  obtain ⟨text, depth, index, children⟩ := line
  simp only [Line.mk.sizeOf_spec] at hline
  show sizeOf children < sizeOf b.lines
  omega

/-- Siblings fail by a fault in a line, or siblings that they wait for break. The recursion is on the
lines that are nested, and on the limit for the bodies of mixins. -/
theorem Siblings.fails_inside (b : Siblings) {failure : Failure} (h : b.Fails failure) :
    failure.IsFault ∨ ∃ names b', b.Awaits names b' ∧ b'.Breaks failure := by
  rcases arrange_fails h with h | ⟨pre, line, post, nodes, left, s, hlines, hpre, h⟩
  · exact .inl h
  have hreaches : b.Reaches line s := ⟨pre, post, nodes, left, hlines, hpre⟩
  -- what siblings fail by that a line opens is found inside these
  have hinside : ∀ {more : List String} {b' : Siblings}, b.Opens more b' →
      (failure.IsFault ∨ ∃ names b'', b'.Awaits names b'' ∧ b''.Breaks failure) →
      failure.IsFault ∨ ∃ names b'', b.Awaits names b'' ∧ b''.Breaks failure := by
    rintro more b' hopens (h | ⟨names, b'', hawaits, hbreaks⟩)
    · exact .inl h
    · exact .inr ⟨_, b'', .head hopens hawaits, hbreaks⟩
  rcases build_fails_iff.mp h with h | ⟨found, t, hmeaning, h | ⟨content, rfl, h⟩⟩
  · rcases meaning_fails h with h' | ⟨expression, hevaluates, h'⟩ | hshape | ⟨value, himport⟩
    · exact .inl h'
    · rcases hreaches.evaluate_fails hevaluates h' with h' | h'
      · exact .inl h'
      · exact .inr ⟨[], b, .self, .escapes h'⟩
    · rcases hreaches.inclusion_fails hshape h with h | h | ⟨names, b', hopens, hlimit, h⟩
      · exact .inl h
      · exact .inr ⟨[], b, .self, h⟩
      · exact hinside hopens (Siblings.fails_inside b' h)
    · rw [meaning_fails_iff_of_import himport] at h
      rcases hreaches.imports_fails himport h with h | h
      · exact .inl h
      · exact .inr ⟨[], b, .self, h⟩
  · exact .inl (Refuses.of_quiet (refuseNested_quiet _ _) _ _ h)
  · obtain ⟨hopens, hnested⟩ := hreaches.beneath_fails hmeaning h
    exact hinside hopens (Siblings.fails_inside _ hnested)
termination_by (b.limit, sizeOf b.lines)
decreasing_by
  · exact Prod.Lex.left _ _ hlimit
  · exact Prod.Lex.right _ hreaches.sizeOf_lt

namespace Run

variable {r r' : Run} {names : List String} {frames : List Frame}

/-- A file that is imported is assembled under the limit of the importing line. -/
theorem limit_eq_of_imports {b : Siblings} {line : Line} (h : b.Imports line r) :
    r.limit = b.limit := by
  cases h
  rfl

/-- A run fails by a fault in its own file, or because the limit is reached, or by a failure that is
no fault, or by a run that it starts. -/
theorem fails_inside {failure : Failure} (h : r.Fails failure) :
    (∃ d : Diagnostic, d.Untraced ∧ failure = .refused (d.through r.context.filename none)) ∨
    failure = .nestingLimit ∨
    (∃ names b, r.Assembles names b ∧ b.Escapes failure) ∨
    ∃ names b line r' inner, r.Assembles names b ∧ b.Imports line r' ∧ r'.Fails inner ∧
      failure = inner.map (·.through r.context.filename line.index) := by
  obtain ⟨inner, rfl, hlines⟩ := document_fails_iff.mp h
  -- a diagnostic without a backtrace gets its only entry from this run
  have hown : ∀ d : Diagnostic, d.Untraced → ∃ d' : Diagnostic, d'.Untraced ∧
      (Failure.refused d).map (.noted r.context.filename) =
        .refused (d'.through r.context.filename none) := by
    intro d huntraced
    refine ⟨d, huntraced, ?_⟩
    simp [Failure.map, Diagnostic.noted, huntraced.2]
  cases hparse : parseLines r.template.toList with
  | error d =>
      rw [hparse] at hlines
      cases hlines
      exact .inl (hown d (untraced_of_parseLines hparse))
  | ok lines =>
      rw [hparse] at hlines
      cases hlimit : r.limit with
      | zero =>
          rw [hlimit] at hlines
          cases fails_throw_iff.mp hlines
          exact .inr (.inl rfl)
      | succ limit =>
          rw [hlimit] at hlines
          have htop : r.Assembles [] ⟨limit, r.context, true, lines, r.start⟩ := .top hlimit hparse
          -- where the siblings at the top break off, some lines that the run assembles do
          rcases Siblings.fails_inside ⟨limit, r.context, true, lines, r.start⟩ hlines with
            ⟨fault, line, rfl⟩ | ⟨names, b, hawaits, hbreaks⟩
          · exact .inl (hown _ (fault.untraced_at line))
          · have hassembles := htop.awaits hawaits
            cases hbreaks with
            | exhausted _ => exact .inr (.inl rfl)
            | escapes hescapes =>
                refine .inr (.inr (.inl ⟨_, b, hassembles, ?_⟩))
                rwa [hescapes.map_eq]
            | @imports line r' inner himports hfails =>
                refine .inr (.inr (.inr ⟨_, b, line, r', inner, hassembles, himports, hfails, ?_⟩))
                rw [Failure.map_noted_map_through, hassembles.context_eq]
                rfl

/-- A run is refused for a fault in its own file, or because a run that it starts is refused. -/
theorem refused_inside {d : Diagnostic} (h : r.Fails (.refused d)) :
    (∃ d' : Diagnostic, d'.Untraced ∧ d = d'.through r.context.filename none) ∨
    ∃ names b line r', ∃ d' : Diagnostic, r.Assembles names b ∧ b.Imports line r' ∧
      r'.Fails (.refused d') ∧ d = d'.through r.context.filename line.index := by
  rcases fails_inside h with ⟨d', huntraced, heq⟩ | hlimit | ⟨names, b, -, hescapes⟩ |
    ⟨names, b, line, r', inner, hassembles, himports, hfails, heq⟩
  · cases heq
    exact .inl ⟨d', huntraced, rfl⟩
  · cases hlimit
  · cases hescapes
  · obtain ⟨d', rfl, rfl⟩ := Failure.map_eq_refused_iff.mp heq.symm
    exact .inr ⟨names, b, line, r', d', hassembles, himports, hfails, rfl⟩

/-- Runs that wait for runs: the frames and the mixins entered add up. -/
theorem Running.trans {r'' : Run} {frames' : List Frame} {names' : List String}
    (h : r.Running frames names r') (h' : r'.Running frames' names' r'') :
    r.Running (frames' ++ frames) (names' ++ names) r'' := by
  induction h' with
  | self => exact h
  | imported _ hassembles himports ih =>
      rw [List.cons_append, List.append_assoc]
      exact ih.imported hassembles himports

end Run

end Stylesheet
