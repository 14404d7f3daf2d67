import Mathlib
import Stylesheet.Proofs.Assembly.Running
import Stylesheet.Proofs.Expr.Range

/-!
# Failures that are no faults

A template that cannot be compiled is refused, with a diagnostic that says where and why. Two
failures have no diagnostic: an imported file that is no text, and an infinite number that has to be
written. They pass by every run that waits, as there is nothing in them that a frame could be added
to. Everything else that goes wrong is refused, if imports and inclusions have an end.

* `assembleTemplate_escapes_iff` : when a template fails without a diagnostic.
* `Siblings.Escapes.exists_outOfRange` : infinite numbers come from the texts of constants.
-/

namespace Stylesheet

open Assembly

variable {b : Siblings} {failure : Failure}

namespace Siblings.Escapes

theorem ne_refused (h : b.Escapes failure) (d : Diagnostic) : failure ≠ .refused d := by
  cases h <;> exact nofun

theorem ne_nestingLimit (h : b.Escapes failure) : failure ≠ .nestingLimit := by
  cases h <;> exact nofun

theorem fails (h : b.Escapes failure) : b.Fails failure := by
  cases h with
  | infinite hreaches hevaluates hcss =>
      refine hreaches.fails (build_fails_iff.mpr (.inl ?_))
      exact meaning_fails_of_evaluates hevaluates (evaluate_fails_iff.mpr ⟨_, hcss, rfl⟩)
  | undecodable hreaches himport htargets hearlier hpath htext =>
      refine hreaches.fails (build_fails_iff.mpr (.inl ?_))
      rw [meaning_fails_iff_of_import himport, importTargets_fails_iff]
      exact ⟨_, _, _, _, _, htargets, hearlier, importTarget_fails_of_encoding hpath htext⟩

/-- The number that has to be written is that of a constant, or is computed with one. -/
theorem exists_outOfRange (h : b.Escapes .infiniteNumber) :
    ∃ line s expression e name, b.Reaches line s ∧ line.Evaluates b.context expression ∧
      Expr.parse (String.ofList expression) = .ok e ∧ name ∈ e.names ∧
      s.constants.OutOfRange name := by
  cases h with
  | @infinite line s expression hreaches hevaluates hcss =>
      obtain ⟨e, hparse, name, hname, hout⟩ := Expr.exists_outOfRange hcss
      exact ⟨line, s, expression, e, name, hreaches, hevaluates, hparse, hname, hout⟩

end Siblings.Escapes

namespace Run

variable {r r' : Run} {frames : List Frame} {names outer : List String}

/-- A failure that has no diagnostic to add to passes unchanged from run to run. -/
theorem Running.fails_unchanged (hrunning : r.Running frames outer r')
    (hmap : ∀ f, failure.map f = failure) (hfails : r'.Fails failure) : r.Fails failure := by
  induction hrunning with
  | self => exact hfails
  | imported _ hassembles himports ih =>
      have hup := hassembles.fails_of_imports himports hfails
      rw [hmap] at hup
      exact ih hup

/-- What escapes from siblings escapes from every run that waits for them. -/
theorem Running.fails_of_escapes (hrunning : r.Running frames outer r')
    (hassembles : r'.Assembles names b) (hescapes : b.Escapes failure) : r.Fails failure := by
  have hfails := hassembles.fails hescapes.fails
  rw [hescapes.map_eq] at hfails
  exact hrunning.fails_unchanged hescapes.map_eq hfails

/-- Where a failure without a diagnostic comes from. The induction is on the limit, which is smaller
for a run that is started. -/
theorem exists_escaping (r : Run) {failure : Failure} (h : r.Fails failure)
    (hrefused : ∀ d, failure ≠ .refused d) (hlimit : failure ≠ .nestingLimit) :
    ∃ frames outer r' names b, r.Running frames outer r' ∧ r'.Assembles names b ∧
      b.Escapes failure := by
  rcases fails_inside h with ⟨d, -, rfl⟩ | rfl | ⟨names, b, hassembles, hescapes⟩ |
    ⟨names, b, line, r', inner, hassembles, himports, hfails, rfl⟩
  · exact absurd rfl (hrefused _)
  · exact absurd rfl hlimit
  · exact ⟨[], [], r, names, b, .self, hassembles, hescapes⟩
  · -- a run that is waited for fails, and passes its failure on as it is
    have hinner : inner.map (·.through r.context.filename line.index) = inner := by
      cases inner with
      | refused d => exact absurd rfl (hrefused _)
      | _ => rfl
    rw [hinner] at hrefused hlimit ⊢
    obtain ⟨frames, outer, r'', names', b', hrunning, hassembles', hescapes⟩ :=
      exists_escaping r' hfails hrefused hlimit
    exact ⟨_, _, r'', names', b', (Running.self.imported hassembles himports).trans hrunning,
      hassembles', hescapes⟩
termination_by r.limit
decreasing_by
  rw [limit_eq_of_imports himports]
  exact hassembles.limit_lt

end Run

/-! ## Templates -/

/-- A constant can hold a number that its use does not survive. -/
theorem fails_of_outOfRange {constants : Constants} (h : constants.OutOfRange "c") :
    Run.Fails ⟨2, { options := {}, disk := Disk.ofKnown [] }, "a\n  :b= !c", { constants }⟩
      .infiniteNumber := by
  let context : Context := { options := {}, disk := Disk.ofKnown [] }
  let line : Line := ⟨":b= !c", 1, 2, []⟩
  have htop : Run.Assembles ⟨2, context, "a\n  :b= !c", { constants }⟩ []
      ⟨1, context, true, [⟨"a", 0, 1, [line]⟩], { constants }⟩ := by
    refine .top rfl ?_
    dsimp only [line]
    cbv
  have hmeaning : (meaning (assemble 1) context ⟨"a", 0, 1, [line]⟩).outcome { constants } =
      (.ok (.item (.rule ⟨["a"], false⟩)), { constants }) := by
    dsimp only [line, context]
    cbv
  have hnested : Run.Assembles ⟨2, context, "a\n  :b= !c", { constants }⟩ []
      ⟨1, context, false, [line], { constants }⟩ :=
    htop.opened (.nested ⟨[], [], [], none, rfl, rfl⟩ hmeaning (by simp))
  have hevaluates : line.Evaluates context "!c".toList := by
    refine @Line.Evaluates.attr _ _ .normal ['b'] _ ?_ (fun hsyntax => ?_) ?_
    · dsimp only [line]
      cbv
    · cases hsyntax
    · dsimp only [line]
      cbv
  -- the expression is the constant alone, so no operator refuses its value
  have hparse : Expr.parse (String.ofList "!c".toList) = .ok (.constant "c") := by cbv
  have hcss := Expr.cssOf_of_outOfRange hparse h
  exact Run.Running.self.fails_of_escapes hnested
    (.infinite ⟨[], [], [], none, rfl, rfl⟩ hevaluates hcss)

/-- **What a template fails by.** If imports and inclusions have an end, a template fails without
being refused exactly if some run that is going on comes to an imported file that is no text, or to
an infinite number that has to be written. The latter takes a constant with a text that reads as a
number out of range; what is computed from other constants is refused as soon as it is infinite. -/
theorem assembleTemplate_escapes_iff {options : Options} {disk : Disk} {template : String}
    {state : State} {limit : Nat} {failure : Failure} :
    (((∃ after, assembleTemplate options disk template state limit = (.error failure, after)) ∧
        (∀ d, failure ≠ .refused d) ∧ failure ≠ .nestingLimit) ↔
      ∃ frames outer r names b,
        Run.Running ⟨limit, { options, disk }, template, state⟩ frames outer r ∧
        r.Assembles names b ∧ b.Escapes failure) ∧
    ∀ b : Siblings, b.Escapes .infiniteNumber →
      ∃ line s expression e name, b.Reaches line s ∧ line.Evaluates b.context expression ∧
        Expr.parse (String.ofList expression) = .ok e ∧ name ∈ e.names ∧
        s.constants.OutOfRange name := by
  refine ⟨⟨?_, ?_⟩, fun b hescapes => hescapes.exists_outOfRange⟩
  · rintro ⟨hfails, hrefused, hlimit⟩
    exact Run.exists_escaping ⟨limit, { options, disk }, template, state⟩ hfails hrefused hlimit
  · rintro ⟨frames, outer, r, names, b, hrunning, hassembles, hescapes⟩
    exact ⟨hrunning.fails_of_escapes hassembles hescapes, hescapes.ne_refused,
      hescapes.ne_nestingLimit⟩

/-- A file with a byte that no text has, and a constant with a number of 310 digits. -/
theorem undecodable_import_and_infinite_constant :
    let disk := Disk.ofKnown [("./_f.sass", .ok [255])]
    let digits := String.ofList ('1' :: List.replicate 309 '0')
    let constants : Constants := ⟨[("c", digits)]⟩
    (∃ after, assembleTemplate {} disk "@import f" {} 2 =
      (.error (.undecodable "./_f.sass" ⟨0, 1, 255, .start⟩), after)) ∧
    ∃ after, assembleTemplate {} (Disk.ofKnown []) "a\n  :b= !c" { constants } 2 =
      (.error .infiniteNumber, after) := by
  intro disk digits constants
  constructor
  · have hfailure : (assembleTemplate {} disk "@import f" {} 2).1 =
        .error (.undecodable "./_f.sass" ⟨0, 1, 255, .start⟩) := by
      dsimp only [disk]
      cbv
    exact ⟨_, Prod.ext hfailure rfl⟩
  · have hout : constants.OutOfRange "c" := ⟨digits, rfl, by decide +kernel⟩
    exact fails_of_outOfRange hout

end Stylesheet
