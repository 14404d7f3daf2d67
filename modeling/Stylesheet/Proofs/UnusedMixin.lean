import Mathlib
import Stylesheet.Proofs.Assembly.Lockstep

/-!
# Mixins that are included nowhere

Defining a mixin puts its lines away without looking at them. Only an inclusion reads them again, so
a definition of a mixin that nothing includes makes no difference, whatever stands beneath it. The
run with the definition and the run without it are in states that differ at most in the entry for
this mixin (`SameButMixin`), and go on like this to the end.

* `Table.without` : a table without one of its entries.
* `Pairing.unused` : states that differ in the entry for a mixin, and lines that do not include it.
* `unused_mixin` : the run with a definition and the run without it.
-/

namespace Stylesheet

open Assembly

/-! ## Tables without an entry -/

namespace Table

variable {α : Type}

/-- The other entries. -/
def without (t : Table α) (name : String) : Table α :=
  ⟨t.entries.filter (·.1 ≠ name)⟩

@[simp] theorem without_set_self (t : Table α) (name : String) (value : α) :
    (t.set name value).without name = t.without name := by
  obtain ⟨entries⟩ := t
  simp only [set, without, Table.mk.injEq]
  induction entries with
  | nil => simp [setEntries]
  | cons entry rest ih =>
      obtain ⟨n, v⟩ := entry
      by_cases hn : n = name
      · simp [setEntries, hn]
      · simpa [setEntries, hn] using ih

/-- Without a name, others are set as before. -/
theorem without_set_of_ne (t : Table α) {name other : String} (value : α) (h : other ≠ name) :
    (t.set other value).without name = (t.without name).set other value := by
  obtain ⟨entries⟩ := t
  simp only [set, without, Table.mk.injEq]
  induction entries with
  | nil => simp [setEntries, h]
  | cons entry rest ih =>
      obtain ⟨n, v⟩ := entry
      by_cases hother : n = other
      · simp [setEntries, hother, h]
      · by_cases hname : n = name
        · subst hname
          simpa [setEntries, hother] using ih
        · simpa [setEntries, hother, hname] using ih

theorem get?_without_of_ne (t : Table α) {name other : String} (h : other ≠ name) :
    (t.without name).get? other = t.get? other := by
  obtain ⟨entries⟩ := t
  simp only [without, get?]
  induction entries with
  | nil => rfl
  | cons entry rest ih =>
      obtain ⟨n, v⟩ := entry
      by_cases hother : n = other
      · simp [hother, h]
      · by_cases hname : n = name
        · subst hname
          simpa [hother] using ih
        · simpa [hother, hname] using ih

end Table

/-! ## Lines that do not include a mixin -/

def Line.Includes (line : Line) (name : String) : Prop :=
  Shape.of line.text.toList = .mixinInclusion ∧ line.mixinName = name
  deriving Decidable

/-- Lines of which none includes the mixin, however deep it stands. -/
def Spared (name : String) (lines : List Line) : Prop :=
  ∀ line : Line, line.Within lines → ¬ line.Includes name

/-- Nothing that a run over the lines can come to includes the mixin. -/
structure IncludedNowhere (name : String) (context : Context) (before : State) (lines : List Line) :
    Prop where
  lines : Spared name lines
  /-- The bodies of the other mixins do not include it. -/
  bodies : ∀ other body, other ≠ name → before.mixins.get? other = some body → Spared name body
  /-- The files that can be imported do not include it. -/
  files : ∀ target path text parsed,
    Import.resolve context.disk.isFile target context.options.loadPaths = .file path →
    context.disk.readText path = .ok text → parseLines text.toList = .ok parsed →
    Spared name parsed

/-- States that differ at most in what a mixin is defined as, if at all. -/
structure SameButMixin (name : String) (s s' : State) : Prop where
  constants : s.constants = s'.constants
  events : s.events = s'.events
  mixins : s.mixins.without name = s'.mixins.without name

theorem SameButMixin.get? {name other : String} {s s' : State} (h : SameButMixin name s s')
    (hother : other ≠ name) : s.mixins.get? other = s'.mixins.get? other := by
  rw [← s.mixins.get?_without_of_ne hother, h.mixins, s'.mixins.get?_without_of_ne hother]

/-- Runs over lines that do not include a mixin, one of which has defined it. -/
def Pairing.unused (name : String) : Pairing where
  states := fun s s' => SameButMixin name s s' ∧
    ∀ other body, other ≠ name → s.mixins.get? other = some body → Spared name body
  admits := fun line => ¬ line.Includes name
  excused := fun _ => False
  constants_eq := fun h => h.1.constants
  withConstants := fun h constants => ⟨⟨rfl, h.1.events, h.1.mixins⟩, h.2⟩
  withEvent := fun h event =>
    ⟨⟨h.1.constants, congrArg (event :: ·) h.1.events, h.1.mixins⟩, h.2⟩
  withMixin := by
    rintro s s' ⟨h, hbodies⟩ defined body hbody
    refine ⟨⟨h.constants, h.events, ?_⟩, ?_⟩
    · show (s.mixins.set defined body).without name = (s'.mixins.set defined body).without name
      by_cases hname : defined = name
      · rw [hname, Table.without_set_self, Table.without_set_self, h.mixins]
      · rw [Table.without_set_of_ne _ _ hname, Table.without_set_of_ne _ _ hname, h.mixins]
    · intro other found hother hfound
      by_cases hdefined : other = defined
      · rw [hdefined, Table.get?_set_self] at hfound
        obtain rfl := Option.some.inj hfound
        exact hbody
      · rw [Table.get?_set_of_ne _ _ hdefined] at hfound
        exact hbodies other found hother hfound
  included := by
    rintro s s' ⟨h, hbodies⟩ line hline hshape
    have hother : line.mixinName ≠ name := fun hname => hline ⟨hshape, hname⟩
    exact ⟨h.get? hother, fun body => hbodies _ body hother⟩
  restored := fun hs ht => ⟨⟨hs.1.constants, ht.1.events, hs.1.mixins⟩, hs.2⟩
  excused_through := fun _ _ h => h

theorem Pairing.Agree.sameButMixin {name : String} {α : Type}
    {result result' : Except Failure α × State} (h : (Pairing.unused name).Agree result result') :
    result.1 = result'.1 ∧ SameButMixin name result.2 result'.2 := by
  cases h with
  | same result hstates => exact ⟨rfl, hstates.1⟩
  | excused hexcused => exact hexcused.elim

variable {context : Context} {name : String} {before : State} {lines : List Line}

/-- Where a mixin is included nowhere, both runs have the same context. -/
theorem IncludedNowhere.contexts (h : IncludedNowhere name context before lines) :
    (Pairing.unused name).Contexts context context where
  disk := rfl
  loadPaths := rfl
  filename := rfl
  including := rfl
  attributes := fun _ => .inl Iff.rfl
  files := h.files

/-! ## The definition -/

/-- A definition keeps the lines beneath it as they are. -/
theorem outcome_build_definition {elsewhere : Elsewhere} {definition : Line}
    (hshape : Shape.of definition.text.toList = .mixinDefinition)
    (hname : definition.mixinName ≠ "") (s : State) :
    (build elsewhere context definition).outcome s =
      (.ok .mixin,
        { s with mixins := s.mixins.set definition.mixinName definition.children }) := by
  have hnonempty : (Text.trim (definition.text.toList.drop 1)).isEmpty = false := by
    cases htrim : Text.trim (definition.text.toList.drop 1) with
    | nil =>
        exfalso
        apply hname
        rw [Line.mixinName, htrim]
    | cons c cs => rfl
  obtain ⟨text, depth, index, children⟩ := definition
  dsimp only at hshape hnonempty
  rw [build_eq]
  simp only [meaning, hshape, defineMixin, hnonempty, Bool.false_eq_true, if_false, bind_assoc,
    pure_bind]
  cases children <;> rfl

/-- At the root a definition gives no nodes and leaves the lines after it to themselves. -/
theorem outcome_arrange_definition {elsewhere : Elsewhere} {definition : Line}
    (hshape : Shape.of definition.text.toList = .mixinDefinition)
    (hname : definition.mixinName ≠ "") (post : List Line) (s : State) :
    (arrange elsewhere context true none (definition :: post)).outcome s =
      (arrange elsewhere context true none post).outcome
        { s with mixins := s.mixins.set definition.mixinName definition.children } := by
  rw [arrange_cons, outcome_bind_of_ok (outcome_build_definition hshape hname s)]
  -- no selector list is open, so the definition only has to be allowed where it stands
  have hplaced : continueRule true definition.index none .mixin = pure ([], none) := rfl
  simp only [hplaced, pure_bind, List.nil_append, bind_pure]

/-- **A mixin that is included nowhere is not looked at.** Lines with a definition of it among
them, after which no selector list is open, come to what they come to without it: the same nodes or
the same failure, the same constants and the same mixins but for its own entry. Nothing is assumed
of the lines beneath the definition. -/
theorem unused_mixin {definition : Line} {pre post : List Line} (limit : Nat)
    (hshape : Shape.of definition.text.toList = .mixinDefinition)
    (hname : definition.mixinName ≠ "")
    (hclosed : ClosedAfter (assemble limit) context pre before)
    (hunused : IncludedNowhere definition.mixinName context before (pre ++ post)) :
    let defining := (arrange (assemble limit) context true none (pre ++ definition :: post)).outcome
      before
    let plain := (arrange (assemble limit) context true none (pre ++ post)).outcome before
    defining.1 = plain.1 ∧ SameButMixin definition.mixinName defining.2 plain.2 := by
  intro defining plain
  have hcontexts := hunused.contexts
  have hcarries : (Pairing.unused definition.mixinName).Carries (assemble limit) :=
    Pairing.assemble_carries limit
  obtain ⟨hlines, hbodies, -⟩ := hunused
  have hpre : Spared definition.mixinName pre := by
    intro line hline
    apply hlines
    exact hline.mono fun l hl => List.mem_append_left post hl
  have hpost : Spared definition.mixinName post := by
    intro line hline
    apply hlines
    exact hline.mono fun l hl => List.mem_append_right pre hl
  have hagree : (Pairing.unused definition.mixinName).Agree
      ((arrange (assemble limit) context true none (pre ++ definition :: post)).outcome before)
      ((arrange (assemble limit) context true none (pre ++ post)).outcome before) := by
    rw [arrange_append, arrange_append]
    -- what comes first is one run, compared with itself to know the bodies it leaves behind
    refine (Pairing.advance_follows hcarries hcontexts true hpre none before before
      ⟨⟨rfl, rfl, rfl⟩, hbodies⟩).bind ?_
    rintro ⟨nodes, left⟩ middle middle' hfirst ⟨hsame, hmiddle⟩
    obtain rfl := hclosed nodes left middle hfirst
    dsimp only
    rw [outcome_bind, outcome_arrange_definition hshape hname, ← outcome_bind]
    refine (Pairing.arrange_follows hcarries hcontexts true post none hpost).bind
      (fun more => .pure _) _ _ ⟨⟨hsame.constants, hsame.events, ?_⟩, ?_⟩
    · rw [Table.without_set_self, hsame.mixins]
    · intro other body hother hfound
      rw [Table.get?_set_of_ne _ _ hother] at hfound
      exact hmiddle other body hother hfound
  exact hagree.sameButMixin

/-- The mixin `m` includes itself and holds an expression that is none. Another one comes from a
file, and is included. -/
theorem unused_mixin_of_nonsense :
    let context : Context := {
      options := {}
      disk := Disk.ofKnown [("./_f.sass", .ok [61, 110, 10, 32, 58, 98, 32, 99])] }
    let pre : List Line := [⟨"a", 0, 1, []⟩]
    let definition : Line := ⟨"=m", 0, 2, [⟨"+m", 1, 3, []⟩, ⟨":x= 1 +", 1, 4, []⟩]⟩
    let post : List Line := [⟨"@import f", 0, 5, []⟩, ⟨"d", 0, 6, [⟨"+n", 1, 7, []⟩]⟩]
    let nodes : List Node :=
      [⟨.rule ⟨["a"], false⟩, some 1, none, []⟩,
        ⟨.rule ⟨["d"], false⟩, some 6, none, [⟨.attr "b" "c", some 2, none, []⟩]⟩]
    (Shape.of definition.text.toList = .mixinDefinition ∧ definition.mixinName ≠ "" ∧
      ClosedAfter (assemble 3) context pre {} ∧ IncludedNowhere "m" context {} (pre ++ post)) ∧
    ((arrange (assemble 3) context true none (pre ++ definition :: post)).outcome {}).1 =
      .ok nodes ∧
    SameButMixin "m"
      ((arrange (assemble 3) context true none (pre ++ definition :: post)).outcome {}).2
      ((arrange (assemble 3) context true none (pre ++ post)).outcome {}).2 := by
  intro context pre definition post nodes
  have hplain : ((arrange (assemble 3) context true none (pre ++ post)).outcome {}).1 =
      .ok nodes := by
    dsimp only [context, pre, post, nodes]
    cbv
  have hpre : ((arrange (assemble 3) context true none pre).outcome {}).1 =
      .ok (nodes.take 1) := by
    dsimp only [context, pre, nodes]
    cbv
  have hclosed : ClosedAfter (assemble 3) context pre {} :=
    closedAfter_of_arrange (Prod.ext hpre rfl)
  have hunused : IncludedNowhere "m" context {} (pre ++ post) := by
    refine ⟨?_, ?_, ?_⟩
    · intro line hline
      simp only [pre, post, List.cons_append, List.nil_append, Line.within_cons_iff,
        Line.within_nil, or_false, false_or] at hline
      obtain rfl | rfl | rfl | rfl := hline <;> decide
    · intro other body _ hbody
      cases hbody
    · intro target path text parsed hpath htext hparse
      -- there is only one file to import
      obtain ⟨bytes, hknown⟩ := Disk.exists_known (Import.isFile_of_resolve hpath)
      obtain ⟨rfl, -⟩ := Prod.mk.inj (List.mem_singleton.mp hknown)
      have hread : context.disk.readText "./_f.sass" = .ok "=n\n :b c" := by cbv
      obtain rfl := Except.ok.inj (hread.symm.trans htext)
      have hlines : parseLines "=n\n :b c".toList = .ok [⟨"=n", 0, 1, [⟨":b c", 1, 2, []⟩]⟩] := by
        cbv
      obtain rfl := Except.ok.inj (hlines.symm.trans hparse)
      intro line hline
      simp only [Line.within_cons_iff, Line.within_nil, or_false] at hline
      obtain rfl | rfl := hline <;> decide
  have hshape : Shape.of definition.text.toList = .mixinDefinition := by cbv
  have hm : definition.mixinName = "m" := by cbv
  have hname : definition.mixinName ≠ "" := by
    rw [hm]
    decide
  obtain ⟨hresult, hstate⟩ := unused_mixin 3 hshape hname hclosed (hm ▸ hunused)
  rw [hm] at hstate
  exact ⟨⟨hshape, hname, hclosed, hunused⟩, hresult.trans hplain, hstate⟩

end Stylesheet
