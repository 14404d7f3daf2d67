import Mathlib
import Stylesheet.Proofs.Assembly.Invariance
import Stylesheet.Proofs.Assembly.Running

/-!
# Mixins that include themselves

A mixin whose body is being assembled is not entered again in the same run, whatever lies between
the two inclusions: nested lines, other mixins, imports that are over. The names of the mixins that
have been entered are in the context, and a mixin that is defined stays defined, so that nothing
else can be wrong with the inclusion first.

A file that is imported starts without these names. There the body is assembled once more.

* `assembleTemplate_of_recursion` : an inclusion of a mixin that its run has entered is refused.
* `included_again_across_import` : an inclusion in an imported file is not.
-/

namespace Stylesheet

open Assembly

/-! ## Mixins stay defined -/

theorem Table.contains_set {α : Type} {t : Table α} {name : String} (h : t.contains name = true)
    (other : String) (value : α) : (t.set other value).contains name = true := by
  unfold contains at h ⊢
  by_cases heq : name = other
  · rw [heq, get?_set_self]
    rfl
  · rwa [get?_set_of_ne _ _ heq]

/-- Whatever is assembled, a mixin that is defined stays defined. -/
theorem stable_contains (name : String) :
    State.Stable fun s => s.mixins.contains name = true where
  event _ _ h := h
  constant _ _ _ h := h
  mixin _ other body h := Table.contains_set h other body

variable {b : Siblings} {line : Line} {s : State}

theorem Siblings.Reaches.first {post : List Line} (h : b.lines = line :: post) :
    b.Reaches line b.start :=
  ⟨[], post, [], none, h, rfl⟩

theorem Siblings.Reaches.keeps (h : b.Reaches line s) {P : State → Prop} (hP : State.Stable P)
    (hstart : P b.start) : P s := by
  obtain ⟨pre, -, nodes, left, -, hpre⟩ := h
  exact advance_keeps hP (assemble_keeps hP b.limit) b.root pre none _ _ _ hstart hpre

/-- Mixins that have been entered are defined in siblings that are opened since. -/
theorem Siblings.Opens.contains {b' : Siblings} {names more : List String} (h : b.Opens more b')
    (hnames : ∀ name ∈ names, b.start.mixins.contains name = true) :
    ∀ name ∈ more ++ names, b'.start.mixins.contains name = true := by
  cases h with
  | @nested line s t content hreaches hmeaning _ =>
      intro name hname
      have hs := hreaches.keeps (stable_contains name) (hnames name hname)
      exact meaning_keeps (stable_contains name) (assemble_keeps (stable_contains name) b.limit)
        line s _ t hs hmeaning
  | @inclusion line s body limit hreaches _ hbody _ _ =>
      intro name hname
      rcases List.mem_cons.mp hname with rfl | hname
      · show (s.mixins.get? _).isSome = true
        rw [hbody]
        rfl
      · exact hreaches.keeps (stable_contains name) (hnames name hname)

/-- The mixins that a run has entered are defined. The induction is on the siblings that have been
opened since. -/
theorem Run.Assembles.contains {r : Run} {names : List String} (h : r.Assembles names b) :
    ∀ name ∈ names, b.start.mixins.contains name = true := by
  induction h with
  | top _ _ => simp
  | opened _ hopens ih => exact hopens.contains ih

/-! ## Inclusions that are refused -/

/-- An inclusion of a mixin that is defined and has been entered is refused at its line. -/
theorem Siblings.Reaches.fails_of_recursion (hreaches : b.Reaches line s)
    (hshape : Shape.of line.text.toList = .mixinInclusion)
    (hdefined : s.mixins.contains line.mixinName = true)
    (hentered : line.mixinName ∈ b.context.including) :
    b.Fails (.refused ((Fault.mixinRecursion line.mixinName).at (some line.index))) := by
  refine hreaches.fails (build_fails_iff.mpr (.inl ?_))
  rw [meaning_fails_iff_of_inclusion hshape, includeMixin_fails_iff]
  obtain ⟨body, hbody⟩ := Option.isSome_iff_exists.mp hdefined
  rw [hbody]
  dsimp only
  rw [if_pos hentered]

/-- **A mixin is not entered again in the same run.** Let a run that is going on assemble the bodies
of some mixins, and let the next line include one of these. Then the template is refused for this
inclusion. -/
theorem assembleTemplate_of_recursion {options : Options} {disk : Disk} {template : String}
    {state : State} {limit : Nat} {frames : List Frame} {outer names : List String} {r : Run}
    (hrunning : Run.Running ⟨limit, { options, disk }, template, state⟩ frames outer r)
    (hassembles : r.Assembles names b) (hreaches : b.Reaches line s)
    (hshape : Shape.of line.text.toList = .mixinInclusion) (hname : line.mixinName ∈ names) :
    ∃ after, assembleTemplate options disk template state limit = (.error (.refused {
      fault := .mixinRecursion line.mixinName
      line := some line.index
      filename := r.context.filename
      backtrace := ⟨r.context.filename, some line.index⟩ :: frames }), after) := by
  have hdefined : s.mixins.contains line.mixinName = true :=
    hreaches.keeps (stable_contains _) (hassembles.contains _ hname)
  have hentered : line.mixinName ∈ b.context.including := by
    rw [hassembles.context_eq]
    exact List.mem_append_left _ hname
  have hfails := hassembles.fails (hreaches.fails_of_recursion hshape hdefined hentered)
  exact hrunning.fails hfails

/-- In an imported file a mixin includes itself, beneath a line and after an import of its own. -/
theorem recursion_after_import_refused :
    let disk := Disk.ofKnown [("./_f.sass", .ok [61, 109, 10, 32, 97, 10, 32, 32, 64, 105, 109, 112,
      111, 114, 116, 32, 103, 10, 32, 32, 43, 109, 10, 98, 10, 32, 43, 109]),
      ("./_g.sass", .ok [99])]
    ∃ after, assembleTemplate {} disk "@import f" {} 6 = (.error (.refused {
      fault := .mixinRecursion "m"
      line := some 4
      filename := some "./_f.sass"
      backtrace := [⟨some "./_f.sass", some 4⟩, ⟨none, some 1⟩] }), after) := by
  intro disk
  let context : Context := { options := {}, disk }
  let file : Context := context.inFile "./_f.sass"
  let outside : Line := ⟨"+m", 1, 6, []⟩
  let inside : Line := ⟨"+m", 2, 4, []⟩
  let rule : Line := ⟨"a", 1, 2, [⟨"@import g", 2, 3, []⟩, inside]⟩
  let start : State := State.importing {} "f" "./_f.sass" none
  let defined : State := { start with mixins := ⟨[("m", [rule])]⟩ }
  let last : State := defined.importing "g" "./_g.sass" (some "./_f.sass")
  let r : Run := ⟨5, file, "=m\n a\n  @import g\n  +m\nb\n +m", start⟩
  -- the template waits for the file
  have htemplate : Run.Assembles ⟨6, context, "@import f", {}⟩ []
      ⟨5, context, true, [⟨"@import f", 0, 1, []⟩], {}⟩ := by
    refine .top rfl ?_
    show parseLines "@import f".toList = _
    cbv
  have himports : Siblings.Imports ⟨5, context, true, [⟨"@import f", 0, 1, []⟩], {}⟩
      ⟨"@import f", 0, 1, []⟩ r := by
    have htargets : Import.targets "f".toList = [] ++ "f".toList :: [] := by cbv
    exact .target (.first rfl) ⟨by cbv, "import".toList, by cbv, by cbv⟩ htargets rfl rfl (by cbv)
  have hrunning : Run.Running ⟨6, context, "@import f", {}⟩ [⟨none, some 1⟩] [] r :=
    .imported .self htemplate himports
  -- in the file a rule waits for the mixin
  have htop : r.Assembles []
      ⟨4, file, true, [⟨"=m", 0, 1, [rule]⟩, ⟨"b", 0, 5, [outside]⟩], start⟩ := by
    refine .top rfl ?_
    show parseLines "=m\n a\n  @import g\n  +m\nb\n +m".toList = _
    dsimp only [rule, inside, outside]
    cbv
  have hnested : r.Assembles [] ⟨4, file, false, [outside], defined⟩ := by
    have hdefined : (advance (assemble 4) file true none [⟨"=m", 0, 1, [rule]⟩]).outcome start =
        (.ok ([], none), defined) := by
      dsimp only [file, context, disk, rule, inside, start, defined]
      cbv
    have hmeaning : (meaning (assemble 4) file ⟨"b", 0, 5, [outside]⟩).outcome defined =
        (.ok (.item (.rule ⟨["b"], false⟩)), defined) := by
      dsimp only [file, context, disk, rule, inside, outside, start, defined]
      cbv
    exact htop.opened (.nested ⟨_, [], [], none, rfl, hdefined⟩ hmeaning (by simp))
  -- the mixin waits for what is nested in it
  have hname : outside.mixinName = "m" := by
    dsimp only [outside]
    cbv
  have hbody : r.Assembles ["m"] ⟨3, file.entering "m", false, [rule], defined⟩ := by
    have hfirst : Siblings.Reaches ⟨4, file, false, [outside], defined⟩ outside defined :=
      .first rfl
    have hget : defined.mixins.get? outside.mixinName = some [rule] := by
      rw [hname]
      dsimp only [defined, rule, inside]
      cbv
    have hopened := hnested.opened (.inclusion hfirst (by cbv) hget List.not_mem_nil rfl)
    rwa [hname] at hopened
  have hbeneath : r.Assembles ["m"] ⟨3, file.entering "m", false, rule.children, defined⟩ := by
    have hmeaning : (meaning (assemble 3) (file.entering "m") rule).outcome defined =
        (.ok (.item (.rule ⟨["a"], false⟩)), defined) := by
      dsimp only [file, context, disk, rule, inside, start, defined]
      cbv
    exact hbody.opened (.nested (.first rfl) hmeaning (by simp))
  have hreaches : Siblings.Reaches ⟨3, file.entering "m", false, rule.children, defined⟩ inside
      last := by
    have hadvance : (advance (assemble 3) (file.entering "m") false none
        [⟨"@import g", 2, 3, []⟩]).outcome defined =
        (.ok ([⟨.rule ⟨["c"], false⟩, some 1, some "./_g.sass", []⟩], none), last) := by
      dsimp only [file, context, disk, rule, inside, start, defined, last]
      cbv
    exact ⟨_, [], _, none, rfl, hadvance⟩
  have hname' : inside.mixinName = "m" := by
    dsimp only [inside]
    cbv
  have hentered : inside.mixinName ∈ ["m"] := by
    rw [hname']
    exact List.mem_singleton_self _
  have hrefused := assembleTemplate_of_recursion hrunning hbeneath hreaches (by cbv) hentered
  rwa [hname'] at hrefused

/-! ## Inclusions that are not refused -/

/-- The names of mixins that runs have entered which wait for this one do not count: a file that the
body of a mixin imports can include the mixin. Here it defines another mixin of that body anew
before, so that the second time the same body has an end. -/
theorem included_again_across_import :
    ¬ ∀ (options : Options) (disk : Disk) (template : String) (state : State) (limit : Nat)
        (frames : List Frame) (outer names : List String) (r : Run) (b : Siblings) (line : Line)
        (s : State),
      Run.Running ⟨limit, { options, disk }, template, state⟩ frames outer r →
      r.Assembles names b → b.Reaches line s → Shape.of line.text.toList = .mixinInclusion →
      line.mixinName ∈ names ++ outer →
      ∃ d after, assembleTemplate options disk template state limit = (.error (.refused d), after) ∧
        d.fault = .mixinRecursion line.mixinName := by
  intro hclaim
  let disk := Disk.ofKnown [("./_f.sass", .ok [61, 110, 10, 32, 98, 10, 43, 109])]
  let template := "=n\n @import f\n=m\n +n\n+m"
  let context : Context := { options := {}, disk }
  let file : Context := context.inFile "./_f.sass"
  let importing : Line := ⟨"@import f", 1, 2, []⟩
  let other : Line := ⟨"+n", 1, 4, []⟩
  let outside : Line := ⟨"+m", 0, 5, []⟩
  let inside : Line := ⟨"+m", 0, 3, []⟩
  let before : List Line := [⟨"=n", 0, 1, [importing]⟩, ⟨"=m", 0, 3, [other]⟩]
  let defined : State := { mixins := ⟨[("n", [importing]), ("m", [other])]⟩ }
  let start : State := defined.importing "f" "./_f.sass" none
  let redefined : State := { start with mixins := ⟨[("n", [⟨"b", 1, 2, []⟩]), ("m", [other])]⟩ }
  let first : Run := ⟨6, context, template, {}⟩
  let r : Run := ⟨3, file, "=n\n b\n+m", start⟩
  have hnames : other.mixinName = "n" ∧ outside.mixinName = "m" ∧ inside.mixinName = "m" := by
    dsimp only [other, outside, inside]
    cbv
  -- the template enters one mixin, this one the other, and this one waits for the file
  have htop : first.Assembles [] ⟨5, context, true, before ++ [outside], {}⟩ := by
    refine .top rfl ?_
    dsimp only [first, template, before, importing, other, outside]
    cbv
  have hbody : first.Assembles ["m"] ⟨4, context.entering "m", false, [other], defined⟩ := by
    have hbefore : (advance (assemble 5) context true none before).outcome {} =
        (.ok ([], none), defined) := by
      dsimp only [context, disk, before, defined, importing, other]
      cbv
    have hreaches : Siblings.Reaches ⟨5, context, true, before ++ [outside], {}⟩ outside defined :=
      ⟨before, [], [], none, rfl, hbefore⟩
    have hget : defined.mixins.get? outside.mixinName = some [other] := by
      rw [hnames.2.1]
      dsimp only [defined, importing, other]
      cbv
    have hopened := htop.opened (.inclusion hreaches (by cbv) hget List.not_mem_nil rfl)
    rwa [hnames.2.1] at hopened
  have hother : first.Assembles ["n", "m"]
      ⟨3, (context.entering "m").entering "n", false, [importing], defined⟩ := by
    have hreaches : Siblings.Reaches ⟨4, context.entering "m", false, [other], defined⟩ other
        defined := .first rfl
    have hget : defined.mixins.get? other.mixinName = some [importing] := by
      rw [hnames.1]
      dsimp only [defined, importing, other]
      cbv
    have hnew : other.mixinName ∉ (context.entering "m").including := by
      rw [hnames.1]
      simp [Context.entering, context]
    have hopened := hbody.opened (.inclusion hreaches (by cbv) hget hnew rfl)
    rwa [hnames.1] at hopened
  have himports : Siblings.Imports
      ⟨3, (context.entering "m").entering "n", false, [importing], defined⟩ importing r := by
    have htargets : Import.targets "f".toList = [] ++ "f".toList :: [] := by cbv
    exact .target (.first rfl) ⟨by cbv, "import".toList, by cbv, by cbv⟩ htargets rfl rfl (by cbv)
  have hrunning : first.Running [⟨none, some 2⟩] ["n", "m"] r := .imported .self hother himports
  -- in the file the mixin is included again
  have hfile : r.Assembles []
      ⟨2, file, true, [⟨"=n", 0, 1, [⟨"b", 1, 2, []⟩]⟩, inside], start⟩ := by
    refine .top rfl ?_
    dsimp only [r, inside]
    cbv
  have hreaches : Siblings.Reaches
      ⟨2, file, true, [⟨"=n", 0, 1, [⟨"b", 1, 2, []⟩]⟩, inside], start⟩ inside redefined := by
    have hadvance : (advance (assemble 2) file true none
        [⟨"=n", 0, 1, [⟨"b", 1, 2, []⟩]⟩]).outcome start = (.ok ([], none), redefined) := by
      dsimp only [file, context, disk, start, defined, redefined, importing, other]
      cbv
    exact ⟨_, [], [], none, rfl, hadvance⟩
  have hentered : inside.mixinName ∈ [] ++ ["n", "m"] := by simp [hnames.2.2]
  obtain ⟨d, after, hrefused, -⟩ := hclaim {} disk template {} 6 _ _ _ _ _ _ _ hrunning hfile
    hreaches (by cbv) hentered
  have hok : (assembleTemplate {} disk template {} 6).1.isOk = true := by
    dsimp only [disk, template]
    cbv
  rw [hrefused] at hok
  cases hok

end Stylesheet
