import Mathlib
import Stylesheet.Proofs.Assembly.Alteration
import Stylesheet.Proofs.Assembly.TwoRuns

/-!
# Lines beneath comments

What stands beneath a comment, silent or not, is never interpreted: it can define, include, import
and evaluate nothing, and it cannot be at fault. Forests of lines that differ only there, with
mixins that differ only there, are assembled to the same nodes, except that comments keep the lines
that stand beneath them, or they fail by the same fault at the same place.

Both runs are compared with a third one that takes the lines beneath comments away wherever it gets
lines to assemble, those of imported files included (`assembleUncovered`). As an alteration this
commutes with the assembly, and it takes away all that the two runs differ in.

* `alteredOutcome_assemble` : the third run comes to what any run comes to, without those lines.
* `assemble_sameButCovered` : forests that differ only beneath comments.
-/

namespace Stylesheet

open Line Assembly Alteration

/-! ## Differences beneath comments -/

/-- Forests of lines that are the same but for what stands beneath comments. -/
def Line.SameButCovered (lines lines' : List Line) : Prop :=
  alterAll uncovering lines = alterAll uncovering lines'

/-- Forests of nodes that are the same but for the lines that comments keep. -/
def Node.SameButCovered (nodes nodes' : List Node) : Prop :=
  Node.alterAll uncovering nodes = Node.alterAll uncovering nodes'

/-- Mixins of the same names in the same order whose bodies are the same but for what stands beneath
comments. -/
def Mixins.SameButCovered (mixins mixins' : Mixins) : Prop :=
  List.Forall₂ (fun entry entry' => entry.1 = entry'.1 ∧ Line.SameButCovered entry.2 entry'.2)
    mixins.entries mixins'.entries

/-- States with the same constants and with mixins that are the same but for what stands beneath
comments. The logs may differ. -/
structure State.SameButCovered (s s' : State) : Prop where
  constants : s.constants = s'.constants
  mixins : s.mixins.SameButCovered s'.mixins

/-- Tables are the same but for covered lines exactly when they are so entry by entry. -/
theorem Mixins.sameButCovered_iff {mixins mixins' : Mixins} :
    mixins.SameButCovered mixins' ↔
      mixins.entries.map (fun entry => (entry.1, alterAll uncovering entry.2)) =
        mixins'.entries.map fun entry => (entry.1, alterAll uncovering entry.2) := by
  rw [SameButCovered, ← List.forall₂_eq_eq_eq, List.forall₂_map_left_iff,
    List.forall₂_map_right_iff]
  simp only [Line.SameButCovered, Prod.mk.injEq]

theorem State.SameButCovered.of_alter {s s' : State}
    (h : s.alter uncovering = s'.alter uncovering) : s.SameButCovered s' where
  constants := by
    rw [← State.alter_constants s, h, State.alter_constants]
  mixins := by
    have hmixins : (s.alter uncovering).mixins = (s'.alter uncovering).mixins := by rw [h]
    exact Mixins.sameButCovered_iff.mpr (congrArg Table.entries hmixins)

/-! ## The log -/

/-- There is a comparison of runs in which nothing may differ but the logs. -/
theorem Likeness.exists_strict : ∃ r : Likeness, (∀ {n n'}, r.number n n' → n = n') ∧
    (∀ {f f'}, r.filename f f' → f = f') ∧ (∀ line, ¬ r.gone line) ∧
    ∀ failure, ¬ r.excused failure :=
  ⟨{ number := Eq
     filename := Eq
     gone := fun _ => False
     excused := fun _ => False
     number_refl := Eq.refl
     filename_refl := Eq.refl
     silent_of_gone := fun _ => False.elim
     excused_through := fun _ _ => False.elim
     strict := .inr ⟨fun _ => not_false, fun _ _ => id⟩ },
    id, id, fun _ => not_false, fun _ => not_false⟩

/-- The log decides nothing: from a state with the same tables an assembly comes to the same result
and leaves the same tables. -/
theorem exists_outcome_of_tables {limit : Nat} {context : Context} {root : Bool}
    {lines : List Line} {s s' t : State} {result : Except Failure (List Node)}
    (hconstants : s.constants = s'.constants) (hmixins : s.mixins = s'.mixins)
    (h : (assemble limit context root lines).outcome s = (result, t)) :
    ∃ t', (assemble limit context root lines).outcome s' = (result, t') ∧
      t.constants = t'.constants ∧ t.mixins = t'.mixins := by
  obtain ⟨r, hnumber, hfilename, hgone, hexcused⟩ := Likeness.exists_strict
  have hs : r.States s s' := by
    refine ⟨hconstants, ?_⟩
    rw [hmixins]
    exact Likeness.Mixins.refl _
  have helsewheres : r.Elsewheres (assemble limit) (assemble limit) :=
    Likeness.assemble_elsewheres (.inl rfl)
  have hruns := helsewheres (.refl context) root (.refl lines) s s' hs
  rw [h] at hruns
  generalize (assemble limit context root lines).outcome s' = result' at hruns ⊢
  cases hruns with
  | ok hn ht =>
      rw [hn.eq hnumber hgone hfilename]
      exact ⟨_, rfl, ht.constants, ht.mixins.eq hnumber hgone⟩
  | error hf ht =>
      rw [hf.eq hnumber]
      exact ⟨_, rfl, ht.constants, ht.mixins.eq hnumber hgone⟩
  | excused he => exact absurd he (hexcused _)

/-! ## Runs without the lines beneath comments -/

/-- The nodes of lines of which those beneath comments are taken away first, here and in all that is
included and imported. -/
def assembleUncovered : Nat → Elsewhere
  | 0 => fun _ _ _ => throw .nestingLimit
  | limit + 1 => fun context root lines =>
    arrange (assembleUncovered limit) context root none (alterAll uncovering lines)

/-- What is taken away anyway does not matter. -/
theorem assembleUncovered_congr (limit : Nat) (context : Context) (root : Bool)
    {lines lines' : List Line} (h : Line.SameButCovered lines lines') :
    assembleUncovered limit context root lines = assembleUncovered limit context root lines' := by
  unfold Line.SameButCovered at h
  cases limit with
  | zero => rfl
  | succ limit =>
      show arrange (assembleUncovered limit) context root none (alterAll uncovering lines) = _
      rw [h]
      rfl

/-- Taking covered lines out before or after assembling comes to the same. -/
theorem assemble_commutes_uncovering (limit : Nat) :
    (assemble limit).Commutes uncovering (assembleUncovered limit) := by
  have hfixes : FixesCounted uncovering.number := fun _ _ => rfl
  have haltered : ∀ context root lines,
      Commutes uncovering (Node.alterAll uncovering) (assemble limit context root lines)
        (assembleUncovered limit context root lines) := by
    induction limit with
    | zero => exact fun _ _ _ => Commutes.throw .nestingLimit
    | succ limit ih =>
        intro context root lines
        refine arrange_commutes hfixes ⟨fun context root lines => ?_, fun context _ _ _ => ?_⟩ root
          lines none
        · rw [assembleUncovered_congr limit context root (alterAll_uncovering lines)]
          exact ih context root lines
        · exact ih context true _
  refine ⟨fun context root lines => ?_, fun context _ _ _ => haltered context true _⟩
  rw [assembleUncovered_congr limit context root (alterAll_uncovering lines)]
  exact haltered context root lines

/-- The run without the lines beneath comments comes to what a run with them comes to, except for
these lines. -/
theorem alteredOutcome_assemble (limit : Nat) (context : Context) (root : Bool)
    (lines : List Line) (s : State) :
    alteredOutcome uncovering (Node.alterAll uncovering)
        ((assemble limit context root lines).outcome s) =
      (assembleUncovered limit context root lines).outcome (s.alter uncovering) := by
  have h := (assemble_commutes_uncovering limit).altered context root lines s
  rw [assembleUncovered_congr limit context root (alterAll_uncovering lines)] at h
  exact h.symm

theorem Failure.renumber_id (failure : Failure) : failure.renumber id = failure := by
  cases failure with
  | refused d => simp [Failure.renumber, Failure.map, Diagnostic.renumber]
  | _ => rfl

/-- Outcomes that are the same without the lines beneath comments. -/
theorem sameButCovered_of_alteredOutcome {result result' : Except Failure (List Node) × State}
    (h : alteredOutcome uncovering (Node.alterAll uncovering) result =
      alteredOutcome uncovering (Node.alterAll uncovering) result') :
    (∀ nodes after, result = (.ok nodes, after) → ∃ nodes' after', result' = (.ok nodes', after') ∧
        Node.SameButCovered nodes nodes' ∧ after.SameButCovered after') ∧
      (∀ failure after, result = (.error failure, after) →
        ∃ after', result' = (.error failure, after') ∧ after.SameButCovered after') := by
  have hid : ∀ failure : Failure, failure.renumber uncovering.number = failure :=
    Failure.renumber_id
  refine ⟨?_, ?_⟩
  · rintro nodes after rfl
    rcases result' with ⟨failure | nodes', after'⟩
    · cases congrArg Prod.fst h
    · obtain ⟨hnodes, hafter⟩ := Prod.mk.inj h
      exact ⟨nodes', after', rfl, Except.ok.inj hnodes, .of_alter hafter⟩
  · rintro failure after rfl
    rcases result' with ⟨failure' | nodes', after'⟩
    · obtain ⟨hfailure, hafter⟩ := Prod.mk.inj h
      have hsame := Except.error.inj hfailure
      rw [hid, hid] at hsame
      exact ⟨after', by rw [hsame], .of_alter hafter⟩
    · cases congrArg Prod.fst h

/-- **What stands beneath comments is never interpreted.** Sibling lines and mixins that differ only
beneath comments, silent or not and at any depth, come to the same nodes except for the lines that
comments keep, and leave the same constants and mixins that differ in the same way only; or they
fail by the same failure. What is included and imported may be nested up to any limit. -/
theorem assemble_sameButCovered {limit : Nat} {context : Context} {root : Bool}
    {lines lines' : List Line} {state state' : State} (hlines : Line.SameButCovered lines lines')
    (hstate : state.SameButCovered state') :
    (∀ nodes after, (assemble limit context root lines).outcome state = (.ok nodes, after) →
      ∃ nodes' after', (assemble limit context root lines').outcome state' = (.ok nodes', after') ∧
        Node.SameButCovered nodes nodes' ∧ after.SameButCovered after') ∧
    (∀ failure after, (assemble limit context root lines).outcome state = (.error failure, after) →
      ∃ after', (assemble limit context root lines').outcome state' = (.error failure, after') ∧
        after.SameButCovered after') := by
  -- the second run, from a state with the log of the first one
  let logged : State := { state' with events := state.events }
  have haltered : state.alter uncovering = logged.alter uncovering := by
    have hmixins := Mixins.sameButCovered_iff.mp hstate.mixins
    simp only [State.alter, logged, hstate.constants, hmixins]
  have hruns : alteredOutcome uncovering (Node.alterAll uncovering)
        ((assemble limit context root lines).outcome state) =
      alteredOutcome uncovering (Node.alterAll uncovering)
        ((assemble limit context root lines').outcome logged) := by
    rw [alteredOutcome_assemble, alteredOutcome_assemble, haltered,
      assembleUncovered_congr limit context root hlines]
  obtain ⟨hok, herror⟩ := sameButCovered_of_alteredOutcome hruns
  have hlogged : logged.constants = state'.constants ∧ logged.mixins = state'.mixins := ⟨rfl, rfl⟩
  refine ⟨fun nodes after h => ?_, fun failure after h => ?_⟩
  · obtain ⟨nodes', _, h', hnodes, hafter⟩ := hok nodes after h
    obtain ⟨after', h', hconstants, hmixins⟩ := exists_outcome_of_tables hlogged.1 hlogged.2 h'
    exact ⟨nodes', after', h', hnodes, hafter.constants.trans hconstants, hmixins ▸ hafter.mixins⟩
  · obtain ⟨_, h', hafter⟩ := herror failure after h
    obtain ⟨after', h', hconstants, hmixins⟩ := exists_outcome_of_tables hlogged.1 hlogged.2 h'
    exact ⟨after', h', hafter.constants.trans hconstants, hmixins ▸ hafter.mixins⟩

/-- A silent comment in a rule, a comment at the root and one in a mixin, and beneath each of them a
line that would be refused anywhere else. -/
theorem sameButCovered_of_three_comments :
    let context : Context := { options := {}, disk := Disk.ofKnown [] }
    let lines : List Line :=
      [⟨"a", 0, 1, [⟨"// x", 1, 2, [⟨"+none", 2, 3, []⟩]⟩, ⟨"+m", 1, 4, []⟩]⟩,
        ⟨"/* c", 0, 5, [⟨"!d = 1", 1, 6, []⟩]⟩]
    let lines' : List Line :=
      [⟨"a", 0, 1, [⟨"// x", 1, 2, []⟩, ⟨"+m", 1, 4, []⟩]⟩,
        ⟨"/* c", 0, 5, [⟨"@import nowhere", 1, 6, []⟩]⟩]
    let state : State := { mixins := ⟨[("m", [⟨"/* k", 1, 1, [⟨":e= !f", 2, 2, []⟩]⟩])]⟩ }
    let state' : State := { mixins := ⟨[("m", [⟨"/* k", 1, 1, []⟩])]⟩ }
    let nodes : List Node :=
      [⟨.rule ⟨["a"], false⟩, some 1, none,
          [⟨.comment "/* k" true [⟨":e= !f", 2, 2, []⟩], some 1, none, []⟩]⟩,
        ⟨.comment "/* c" true [⟨"!d = 1", 1, 6, []⟩], some 5, none, []⟩]
    Line.SameButCovered lines lines' ∧ state.SameButCovered state' ∧
      (assemble 2 context true lines).outcome state = (.ok nodes, state) ∧
      ∃ nodes' after', (assemble 2 context true lines').outcome state' = (.ok nodes', after') ∧
        Node.SameButCovered nodes nodes' ∧ state.SameButCovered after' := by
  intro context lines lines' state state' nodes
  have hlines : Line.SameButCovered lines lines' := by
    dsimp only [lines, lines']
    cbv
  have hstate : state.SameButCovered state' :=
    ⟨rfl, .cons ⟨rfl, by cbv⟩ .nil⟩
  have h : (assemble 2 context true lines).outcome state = (.ok nodes, state) := by
    dsimp only [context, lines, state, nodes]
    cbv
  exact ⟨hlines, hstate, h, (assemble_sameButCovered hlines hstate).1 nodes state h⟩

end Stylesheet
