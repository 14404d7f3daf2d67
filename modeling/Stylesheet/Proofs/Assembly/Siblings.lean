import Stylesheet.Proofs.Assembly.Outcome

/-!
# Sibling lines in two parts

`arrange` goes through sibling lines and refuses at their end a selector list that is still open.
`advance` goes through them in the same way and gives that list back, so that siblings can be cut
anywhere: what comes before the cut is advanced through, and what comes after it is arranged from
where the first part stopped.

* `arrange_append` : siblings in two parts.
* `arrange_root_of_inner` : what may stand beneath another line may stand at the root.
* `arrange_eq_ok_iff` : siblings can be arranged exactly if advancing through them leaves no
  selector list open.
-/

namespace Stylesheet

open Assembly

variable {elsewhere : Elsewhere} {context : Context} {root : Bool}

/-! ## One line -/

/-- The nodes beneath a node of the given content; nothing beneath a comment is assembled. -/
def beneath (elsewhere : Elsewhere) (context : Context) (content : Content)
    (children : List Line) : Assembly (List Node) :=
  match content with
  | .comment _ _ _ => pure []
  | _ => arrange elsewhere context false none children

/-- One line: what it means, the refusal of nested lines, then what is beneath it. -/
theorem build_eq (text : String) (depth index : Int) (children : List Line) :
    build elsewhere context ⟨text, depth, index, children⟩ = (do
      let found ← meaning elsewhere context ⟨text, depth, index, children⟩
      refuseNested (children.head?.map (·.index)) found
      match found with
      | .item content => do
        let nodes ← beneath elsewhere context content children
        pure (.item ⟨content, index, context.filename, nodes⟩)
      | .constant => pure .constant
      | .mixin => pure .mixin
      | .silent => pure .silent
      | .nodes origin nodes => pure (.nodes origin nodes)) := by
  rw [build]
  refine bind_congr fun found => bind_congr fun _ => ?_
  cases found with
  | item content => cases content <;> rfl
  | _ => rfl

/-- A first line is built and joined, then the rest is arranged after it. -/
theorem arrange_cons (opened : Option OpenRule) (line : Line) (lines : List Line) :
    arrange elsewhere context root opened (line :: lines) = (do
      let found ← build elsewhere context line
      let (nodes, opened) ← continueRule root line.index opened found
      pure (nodes ++ (← arrange elsewhere context root opened lines))) := by
  rw [arrange]

/-- A rule that continues an open one is a rule with the selectors of both. -/
theorem OpenRule.join_content (opened : Option OpenRule) (selectors : SelectorList)
    (number : Option Int) (filename : Option String) (children : List Node) :
    (OpenRule.join opened selectors ⟨.rule selectors, number, filename, children⟩).2.content =
        .rule (OpenRule.join opened selectors ⟨.rule selectors, number, filename, children⟩).1 ∧
      (OpenRule.join opened selectors ⟨.rule selectors, number, filename, children⟩).1.continued =
        selectors.continued := by
  cases opened <;> exact ⟨rfl, rfl⟩

/-! ## Cutting siblings -/

/-- The nodes of sibling lines after a rule that may be open, and the rule that they leave open. -/
def advance (elsewhere : Elsewhere) (context : Context) (root : Bool) (opened : Option OpenRule) :
    List Line → Assembly (List Node × Option OpenRule)
  | [] => pure ([], opened)
  | line :: lines => do
    let found ← build elsewhere context line
    let (nodes, opened) ← continueRule root line.index opened found
    let (more, opened) ← advance elsewhere context root opened lines
    pure (nodes ++ more, opened)

/-- Siblings in two parts: the second part starts from what the first one left open. -/
theorem arrange_append (opened : Option OpenRule) (xs ys : List Line) :
    arrange elsewhere context root opened (xs ++ ys) = (do
      let (nodes, opened) ← advance elsewhere context root opened xs
      pure (nodes ++ (← arrange elsewhere context root opened ys))) := by
  induction xs generalizing opened with
  | nil => simp [advance]
  | cons line xs ih =>
      simp only [List.cons_append, arrange_cons, advance, ih, bind_assoc, pure_bind,
        List.append_assoc]

/-- Siblings can be arranged exactly if they leave no selector list open. -/
theorem arrange_eq_ok_iff {opened : Option OpenRule} {lines : List Line} {before after : State}
    {nodes : List Node} :
    (arrange elsewhere context root opened lines).outcome before = (.ok nodes, after) ↔
      (advance elsewhere context root opened lines).outcome before = (.ok (nodes, none), after) := by
  have h : arrange elsewhere context root opened (lines ++ []) = _ :=
    arrange_append opened lines []
  rw [List.append_nil] at h
  rw [h, outcome_bind_eq_ok_iff]
  constructor
  · rintro ⟨⟨found, left⟩, s, hadvance, hrest⟩
    cases left with
    | some first =>
        dsimp only at hrest
        rw [arrange, outcome_bind, outcome_refuse] at hrest
        cases hrest
    | none =>
        simp only [arrange, pure_bind, List.append_nil, outcome_pure, Prod.mk.injEq,
          Except.ok.injEq] at hrest
        obtain ⟨rfl, rfl⟩ := hrest
        exact hadvance
  · intro hadvance
    exact ⟨(nodes, none), after, hadvance, by simp [arrange]⟩

/-- Siblings in two parts: the second starts with what the first left open. -/
theorem arrange_append_eq_ok_iff {opened : Option OpenRule} {xs ys : List Line}
    {before after : State} {nodes : List Node} :
    (arrange elsewhere context root opened (xs ++ ys)).outcome before = (.ok nodes, after) ↔
      ∃ first left middle more,
        (advance elsewhere context root opened xs).outcome before = (.ok (first, left), middle) ∧
        (arrange elsewhere context root left ys).outcome middle = (.ok more, after) ∧
        nodes = first ++ more := by
  rw [arrange_append, outcome_bind_eq_ok_iff]
  constructor
  · rintro ⟨⟨first, left⟩, middle, hfirst, hrest⟩
    obtain ⟨more, s, hmore, hpure⟩ := outcome_bind_eq_ok_iff.mp hrest
    cases hpure
    exact ⟨first, left, middle, more, hfirst, hmore, rfl⟩
  · rintro ⟨first, left, middle, more, hfirst, hmore, rfl⟩
    exact ⟨(first, left), middle, hfirst, outcome_bind_eq_ok_iff.mpr ⟨more, after, hmore, rfl⟩⟩

/-- A first line, when all goes well, with every state in between named. -/
theorem arrange_cons_eq_ok_iff {opened : Option OpenRule} {line : Line} {lines : List Line}
    {before after : State} {nodes : List Node} :
    (arrange elsewhere context root opened (line :: lines)).outcome before = (.ok nodes, after) ↔
      ∃ found s first left t more,
        (build elsewhere context line).outcome before = (.ok found, s) ∧
        (continueRule root line.index opened found).outcome s = (.ok (first, left), t) ∧
        (arrange elsewhere context root left lines).outcome t = (.ok more, after) ∧
        nodes = first ++ more := by
  rw [arrange_cons, outcome_bind_eq_ok_iff]
  constructor
  · rintro ⟨found, s, hbuild, hrest⟩
    obtain ⟨⟨first, left⟩, t, hcontinue, hrest⟩ := outcome_bind_eq_ok_iff.mp hrest
    obtain ⟨more, u, hmore, hpure⟩ := outcome_bind_eq_ok_iff.mp hrest
    cases hpure
    exact ⟨found, s, first, left, t, more, hbuild, hcontinue, hmore, rfl⟩
  · rintro ⟨found, s, first, left, t, more, hbuild, hcontinue, hmore, rfl⟩
    refine ⟨found, s, hbuild, outcome_bind_eq_ok_iff.mpr ⟨(first, left), t, hcontinue, ?_⟩⟩
    exact outcome_bind_eq_ok_iff.mpr ⟨more, after, hmore, rfl⟩

theorem advance_cons_eq_ok_iff {opened last : Option OpenRule} {line : Line} {lines : List Line}
    {before after : State} {nodes : List Node} :
    (advance elsewhere context root opened (line :: lines)).outcome before =
        (.ok (nodes, last), after) ↔
      ∃ found s first left t more,
        (build elsewhere context line).outcome before = (.ok found, s) ∧
        (continueRule root line.index opened found).outcome s = (.ok (first, left), t) ∧
        (advance elsewhere context root left lines).outcome t = (.ok (more, last), after) ∧
        nodes = first ++ more := by
  rw [advance, outcome_bind_eq_ok_iff]
  constructor
  · rintro ⟨found, s, hbuild, hrest⟩
    obtain ⟨⟨first, left⟩, t, hcontinue, hrest⟩ := outcome_bind_eq_ok_iff.mp hrest
    obtain ⟨⟨more, last'⟩, u, hmore, hpure⟩ := outcome_bind_eq_ok_iff.mp hrest
    cases hpure
    exact ⟨found, s, first, left, t, more, hbuild, hcontinue, hmore, rfl⟩
  · rintro ⟨found, s, first, left, t, more, hbuild, hcontinue, hmore, rfl⟩
    refine ⟨found, s, hbuild, outcome_bind_eq_ok_iff.mpr ⟨(first, left), t, hcontinue, ?_⟩⟩
    exact outcome_bind_eq_ok_iff.mpr ⟨(more, last), after, hmore, rfl⟩

/-! ## The root and elsewhere -/

theorem place_root_of_inner {line : Int} {found : Meaning Node} {before after : State}
    {nodes : List Node} (h : (place false line found).outcome before = (.ok nodes, after)) :
    (place root line found).outcome before = (.ok nodes, after) := by
  cases root with
  | false => exact h
  | true =>
      cases found with
      | item node =>
          dsimp only [place] at h
          split at h
          · cases h
          · exact h
      | nodes origin inserted =>
          dsimp only [place] at h
          split at h
          · cases h
          · exact h
      | silent => exact h
      | constant => cases h
      | mixin => cases h

theorem continueRule_root_of_inner {line : Int} {opened : Option OpenRule} {found : Meaning Node}
    {before after : State} {result : List Node × Option OpenRule}
    (h : (continueRule false line opened found).outcome before = (.ok result, after)) :
    (continueRule root line opened found).outcome before = (.ok result, after) := by
  unfold continueRule at h ⊢
  split at h
  · exact h
  · cases opened with
    | some first => exact h
    | none =>
        obtain ⟨nodes, s, hplace, hpure⟩ := outcome_bind_eq_ok_iff.mp h
        exact outcome_bind_eq_ok_iff.mpr ⟨nodes, s, place_root_of_inner hplace, hpure⟩

/-- What may stand beneath another line may stand at the root. -/
theorem arrange_root_of_inner {lines : List Line} {opened : Option OpenRule}
    {before after : State} {nodes : List Node}
    (h : (arrange elsewhere context false opened lines).outcome before = (.ok nodes, after)) :
    (arrange elsewhere context root opened lines).outcome before = (.ok nodes, after) := by
  induction lines generalizing opened before nodes with
  | nil =>
      cases opened with
      | none => rwa [arrange] at h ⊢
      | some first => rwa [arrange] at h ⊢
  | cons line lines ih =>
      obtain ⟨found, s, first, left, t, more, hbuild, hcontinue, hmore, rfl⟩ :=
        arrange_cons_eq_ok_iff.mp h
      exact arrange_cons_eq_ok_iff.mpr
        ⟨found, s, first, left, t, more, hbuild, continueRule_root_of_inner hcontinue, ih hmore, rfl⟩

/-! ## Lines that insert nodes -/

/-- Nodes are inserted where no rule is open, and nothing else happens. -/
theorem continueRule_nodes_eq_ok {line : Int} {opened : Option OpenRule} {origin : Origin}
    {inserted nodes : List Node} {left : Option OpenRule} {before after : State}
    (h : (continueRule root line opened (.nodes origin inserted)).outcome before =
      (.ok (nodes, left), after)) :
    opened = none ∧ nodes = inserted ∧ left = none ∧ after = before := by
  cases opened with
  | some first => cases h
  | none =>
      obtain ⟨placed, s, hplace, hpure⟩ := outcome_bind_eq_ok_iff.mp h
      cases hpure
      dsimp only [place] at hplace
      split at hplace
      · cases hplace
      · cases hplace
        exact ⟨rfl, rfl, rfl, rfl⟩

/-- Nodes that are spliced in at the root are taken as they are. -/
theorem continueRule_nodes_root (line : Int) (origin : Origin) (inserted : List Node)
    (s : State) :
    (continueRule true line none (.nodes origin inserted)).outcome s = (.ok (inserted, none), s) :=
  rfl

end Stylesheet
