import Stylesheet.Proofs.Assembly.Likeness

/-!
# Runs over what is alike are alike

Every part of an assembly takes what is alike to what is alike; so does `arrange`, by induction on
the likeness of the lines, and then `assemble`, by induction on how deep inclusions and imports may
be nested. The functions that assemble lines elsewhere enter as a parameter of which only this is
known (`Elsewheres`).

* `arrange_matches` : sibling lines that are alike.
* `assemble_elsewheres` : whole assemblies, the second one perhaps with a higher limit.
* `document_matches` : templates whose lines are alike.
-/

namespace Stylesheet.Likeness

open Assembly

/-- Two ways of assembling lines elsewhere that take what is alike to what is alike. -/
def Elsewheres (r : Likeness) (elsewhere elsewhere' : Elsewhere) : Prop :=
  ∀ {context context' : Context}, r.Contexts context context' → ∀ (root : Bool)
    {lines lines' : List Line}, r.Lines lines lines' →
    r.Matches r.Nodes (elsewhere context root lines) (elsewhere' context' root lines')

variable {r : Likeness} {elsewhere elsewhere' : Elsewhere} {context context' : Context}

/-! ## Contexts -/

theorem Contexts.enterMixin (h : r.Contexts context context') (name : String) :
    r.Contexts { context with including := name :: context.including }
      { context' with including := name :: context'.including } where
  disk := h.disk
  loadPaths := h.loadPaths
  attributeSyntax := h.attributeSyntax
  filename := h.filename
  including := by
    rcases h.including with heq | ⟨hall, hsub⟩
    · exact .inl (congrArg (name :: ·) heq)
    · exact .inr ⟨hall, List.cons_subset_cons name hsub⟩

theorem Contexts.enterFile (h : r.Contexts context context') (path : String) :
    r.Contexts { context with options := context.options.withFilename path, including := [] }
      { context' with options := context'.options.withFilename path, including := [] } where
  disk := h.disk
  loadPaths := h.loadPaths
  attributeSyntax := h.attributeSyntax
  filename := r.filename_refl (some path)
  including := .inl rfl

/-! ## Expressions and definitions -/

theorem evaluate_matches (expression : List Char) {line line' : Int} (h : r.number line line') :
    r.Matches Eq (evaluate expression line) (evaluate expression line') := by
  refine Matches.get fun s s' hs => ?_
  rw [hs.constants]
  cases Expr.cssOf s'.constants (String.ofList expression) with
  | ok css => exact Matches.pure rfl
  | error refusal =>
      cases refusal with
      | fault f => exact Matches.refuse f (.some h)
      | infiniteNumber => exact Matches.throw .infiniteNumber

theorem attribute?_matches (h : r.Contexts context context') (way : AttributeSyntax)
    (text : List Char) {line line' : Int} (hl : r.number line line') :
    r.Matches Eq (attribute? context way text line) (attribute? context' way text line') := by
  unfold attribute?
  rw [h.attributeSyntax]
  split
  · exact Matches.refuse _ (.some hl)
  · split
    · exact Matches.refuse _ (.some hl)
    · refine Matches.bind (evaluate_matches _ hl) fun css _ heq => ?_
      rw [heq]
      exact Matches.pure rfl
    · exact Matches.pure rfl

theorem defineConstant_matches (text : List Char) {line line' : Int} (hl : r.number line line') :
    r.Matches (fun _ _ => True) (defineConstant text line) (defineConstant text line') := by
  unfold defineConstant
  split
  · exact Matches.refuse _ (.some hl)
  · refine Matches.bind (evaluate_matches _ hl) fun css _ heq => ?_
    rw [heq]
    refine Matches.modify fun s s' hs => ⟨?_, hs.mixins⟩
    rw [hs.constants]

/-- Definitions of one mixin match when their bodies are related. -/
theorem defineMixin_matches (text : List Char) {body body' : List Line}
    (hb : r.Lines body body') {line line' : Int} (hl : r.number line line') :
    r.Matches (fun _ _ => True) (defineMixin text body line) (defineMixin text body' line') := by
  dsimp only [defineMixin]
  split
  · exact Matches.refuse _ (.some hl)
  · exact Matches.modify fun s s' hs => ⟨hs.constants, hs.mixins.set _ hb⟩

/-! ## Inclusions and imports -/

/-- Inclusions of one mixin match, since related tables hold related bodies. -/
theorem includeMixin_matches (he : r.Elsewheres elsewhere elsewhere')
    (h : r.Contexts context context') (text : List Char) {line line' : Int}
    (hl : r.number line line') :
    r.Matches r.Nodes (includeMixin elsewhere context text line)
      (includeMixin elsewhere' context' text line') := by
  dsimp only [includeMixin]
  generalize String.ofList (Text.trim (text.drop 1)) = name
  refine Matches.get fun s s' hs => ?_
  have hget := hs.mixins.get? name
  generalize s.mixins.get? name = found at hget
  generalize s'.mixins.get? name = found' at hget
  cases hget with
  | none => exact Matches.refuse _ (.some hl)
  | @some body body' hb =>
      have hbody := he (h.enterMixin name) false hb
      dsimp only
      rcases h.including with heq | ⟨hall, hsub⟩
      · rw [heq] at hbody ⊢
        split
        · exact Matches.refuse _ (.some hl)
        · exact hbody
      · -- the second run may be in fewer mixins, but then the first one may fail as it likes
        split
        · exact Matches.excused (hall _)
        · next hnot =>
            rw [if_neg fun hin => hnot (by simpa using hsub (by simpa using hin))]
            exact hbody

/-- Documents match when their texts parse to related forests. -/
theorem document_matches (he : r.Elsewheres elsewhere elsewhere')
    (h : r.Contexts context context') {template template' : String}
    (hp : r.Parsed (parseLines template.toList) (parseLines template'.toList)) :
    r.Matches (fun tree tree' => r.Nodes [tree] [tree']) (document elsewhere context template)
      (document elsewhere' context' template') := by
  unfold document
  refine Matches.mapDiagnostic ?_ (fun d hex => ?_) fun d d' hd => ?_
  · generalize parseLines template.toList = result at hp
    generalize parseLines template'.toList = result' at hp
    cases hp with
    | ok hl =>
        refine Matches.bind (he h true hl) fun nodes nodes' hn => ?_
        exact Matches.pure (.cons (.same .root) .none h.filename hn .nil)
    | error hd => exact Matches.throw (.refused hd)
    | excused hex => exact Matches.excused hex
  · split
    · exact r.excused_through _ _ hex
    · exact hex
  · rw [← hd.isEmpty_eq]
    split
    · exact hd.through_of_filename h.filename .none
    · exact .inr hd

theorem importFile_matches (he : r.Elsewheres elsewhere elsewhere')
    (h : r.Contexts context context') {line line' : Int} (hl : r.number line line')
    (target path : String) :
    r.Matches r.Nodes (importFile elsewhere context line target path)
      (importFile elsewhere' context' line' target path) := by
  unfold importFile
  rw [h.disk]
  split
  · exact Matches.refuse _ (.some hl)
  · exact Matches.throw (.undecodable _ _)
  · refine Matches.bind (Matches.log _ _) fun _ _ _ => ?_
    refine Matches.bind (P := fun tree tree' => r.Nodes [tree] [tree']) ?_ ?_
    · refine Matches.mapDiagnostic (Matches.restoring ?_)
        (fun d hex => r.excused_through _ _ hex)
        (fun d d' hd => hd.through_of_filename h.filename (.some hl))
      have hinner := h.enterFile path
      rw [h.disk] at hinner
      exact document_matches he hinner (.refl _)
    · intro tree tree' htree
      cases htree with
      | cons _ _ _ hch _ => exact Matches.pure hch

theorem reference_alike (h : r.Contexts context context') {line line' : Int}
    (hl : r.number line line') (name : String) :
    r.Nodes [reference context line name] [reference context' line' name] :=
  .cons (.same _) (.some hl) h.filename .nil .nil

theorem importTarget_matches (he : r.Elsewheres elsewhere elsewhere')
    (h : r.Contexts context context') {line line' : Int} (hl : r.number line line')
    (target : List Char) :
    r.Matches r.Nodes (importTarget elsewhere context line target)
      (importTarget elsewhere' context' line' target) := by
  dsimp only [importTarget]
  rw [h.disk, h.loadPaths]
  split
  · exact Matches.bind (Matches.log _ _) fun _ _ _ => importFile_matches he h hl _ _
  · exact Matches.bind (Matches.log _ _) fun _ _ _ => Matches.pure (reference_alike h hl _)
  · exact Matches.pure (reference_alike h hl _)
  · exact Matches.refuse _ (.some hl)

/-- Imports of one list match, by induction on the list. -/
theorem importTargets_matches (he : r.Elsewheres elsewhere elsewhere')
    (h : r.Contexts context context') {line line' : Int} (hl : r.number line line')
    (targets : List (List Char)) :
    r.Matches r.Nodes (importTargets elsewhere context line targets)
      (importTargets elsewhere' context' line' targets) := by
  induction targets with
  | nil => exact Matches.pure .nil
  | cons target targets ih =>
      rw [importTargets, importTargets]
      refine Matches.bind (importTarget_matches he h hl target) fun nodes nodes' hn => ?_
      exact Matches.bind ih fun more more' hm => Matches.pure (hn.append hm)

/-! ## Lines -/

inductive Meanings (r : Likeness) {α β : Type} (items : α → β → Prop) :
    Meaning α → Meaning β → Prop
  | item {a : α} {b : β} : items a b → Meanings r items (.item a) (.item b)
  | constant : Meanings r items .constant .constant
  | mixin : Meanings r items .mixin .mixin
  | silent : Meanings r items .silent .silent
  | nodes (origin : Origin) {nodes nodes' : List Node} :
      r.Nodes nodes nodes' → Meanings r items (.nodes origin nodes) (.nodes origin nodes')

/-- Related lines have related meanings. -/
theorem meaning_matches (he : r.Elsewheres elsewhere elsewhere')
    (h : r.Contexts context context') (text : String) (depth : Int) {index index' : Int}
    (hi : r.number index index') {children children' : List Line}
    (hch : r.Lines children children') :
    r.Matches (r.Meanings r.Contents) (meaning elsewhere context ⟨text, depth, index, children⟩)
      (meaning elsewhere' context' ⟨text, depth, index', children'⟩) := by
  dsimp only [meaning]
  cases Shape.of text.toList with
  | attr way =>
      refine Matches.bind (attribute?_matches h way _ hi) fun content _ heq => ?_
      rw [heq]
      exact Matches.pure (.item (.same _))
  | constant =>
      exact Matches.bind (defineConstant_matches _ hi) fun _ _ _ => Matches.pure .constant
  | silentComment => exact Matches.pure .silent
  | comment => exact Matches.pure (.item (.comment hch))
  | directive =>
      dsimp only
      split
      · split
        · exact Matches.refuse _ (.some hi)
        · exact Matches.bind (importTargets_matches he h hi _) fun _ _ hn =>
            Matches.pure (.nodes .imports hn)
      · exact Matches.pure (.item (.same _))
  | escapedRule => exact Matches.pure (.item (.same _))
  | mixinDefinition =>
      exact Matches.bind (defineMixin_matches _ hch hi) fun _ _ _ => Matches.pure .mixin
  | mixinInclusion =>
      exact Matches.bind (includeMixin_matches he h _ hi) fun _ _ hn =>
        Matches.pure (.nodes .mixin hn)
  | rule => exact Matches.pure (.item (.same _))

/-- Where a line is gone all failures are excused. -/
theorem excused_of_gone {line : Line} (h : r.gone line) (failure : Failure) :
    r.excused failure := by
  rcases r.strict with hall | ⟨hnone, -⟩
  · exact hall failure
  · exact absurd h (hnone line)

/-- Nested lines are refused in both runs, unless they are gone from the second one. -/
theorem refuseNested_matches {children children' : List Line} (hch : r.Lines children children')
    {found found' : Meaning Content} (hf : r.Meanings r.Contents found found') :
    r.Matches (fun _ _ => True) (refuseNested (children.head?.map (·.index)) found)
      (refuseNested (children'.head?.map (·.index)) found') := by
  have hpure : ∀ {nested nested' : Option Int} {m m' : Meaning Content},
      refuseNested nested m = pure () → refuseNested nested' m' = pure () →
      r.Matches (fun _ _ => True) (refuseNested nested m) (refuseNested nested' m') := by
    intro nested nested' m m' hm hm'
    rw [hm, hm']
    exact Matches.pure trivial
  have hrefuse : ∀ fault, (∀ n, refuseNested (some n) found = Assembly.refuse fault (some n)) →
      (∀ n, refuseNested (some n) found' = Assembly.refuse fault (some n)) →
      r.Matches (fun _ _ => True) (refuseNested (children.head?.map (·.index)) found)
        (refuseNested (children'.head?.map (·.index)) found') := by
    intro fault hm hm'
    cases hch with
    | nil => exact hpure rfl rfl
    | cons hi _ _ =>
        show r.Matches _ (refuseNested (some _) found) (refuseNested (some _) found')
        rw [hm, hm']
        exact Matches.refuse fault (.some hi)
    | gone hgone _ =>
        rw [List.head?_cons, Option.map_some, hm]
        exact Matches.excused (excused_of_gone hgone _)
  cases hf with
  | item _ => exact hpure (by cases children <;> rfl) (by cases children' <;> rfl)
  | mixin => exact hpure (by cases children <;> rfl) (by cases children' <;> rfl)
  | silent => exact hpure (by cases children <;> rfl) (by cases children' <;> rfl)
  | constant => exact hrefuse .nestedBeneathConstant (fun _ => rfl) fun _ => rfl
  | nodes origin _ => exact hrefuse (.nestedBeneath origin) (fun _ => rfl) fun _ => rfl

/-! ## Siblings -/

def Items (r : Likeness) (node node' : Node) : Prop :=
  r.Nodes [node] [node']

structure Opened (r : Likeness) (first first' : OpenRule) : Prop where
  selectors : first.selectors = first'.selectors
  line : Option.Rel r.number first.line first'.line
  filename : r.filename first.filename first'.filename

theorem Opened.refl (opened : Option OpenRule) :
    Option.Rel r.Opened opened opened := by
  cases opened with
  | none => exact .none
  | some first =>
      refine .some ⟨rfl, ?_, r.filename_refl _⟩
      cases first.line with
      | none => exact .none
      | some n => exact .some (r.number_refl n)

theorem place_matches (root : Bool) {line line' : Int} (hl : r.number line line')
    {found found' : Meaning Node} (hf : r.Meanings r.Items found found') :
    r.Matches r.Nodes (place root line found) (place root line' found') := by
  cases hf with
  | item hn =>
      dsimp only [place]
      rw [Nodes.isDirective_eq hn]
      split
      · exact Matches.refuse _ (.some hl)
      · exact Matches.pure hn
  | nodes origin hn =>
      dsimp only [place]
      rw [hn.any_isDirective_eq]
      split
      · exact Matches.refuse _ (.some hl)
      · exact Matches.pure hn
  | silent => exact Matches.pure .nil
  | constant =>
      dsimp only [place]
      split
      · exact Matches.pure .nil
      · exact Matches.refuse _ (.some hl)
  | mixin =>
      dsimp only [place]
      split
      · exact Matches.pure .nil
      · exact Matches.refuse _ (.some hl)

/-- A rule after an open one takes the line and file of that one. -/
theorem continueRule_rule_matches (root : Bool) {line line' : Int}
    {opened opened' : Option OpenRule} (ho : Option.Rel r.Opened opened opened')
    (selectors : SelectorList) {number number' : Option Int}
    {filename filename' : Option String} {children children' : List Node}
    (hl : Option.Rel r.number number number') (hf : r.filename filename filename')
    (hch : r.Nodes children children') :
    r.Matches (fun result result' => r.Nodes result.1 result'.1 ∧
        Option.Rel r.Opened result.2 result'.2)
      (continueRule root line opened (.item ⟨.rule selectors, number, filename, children⟩))
      (continueRule root line' opened' (.item ⟨.rule selectors, number', filename', children'⟩)) := by
  cases ho with
  | none =>
      dsimp only [continueRule, OpenRule.join]
      rw [hch.isEmpty_eq]
      split
      · split
        · exact Matches.pure ⟨.nil, .some ⟨rfl, hl, hf⟩⟩
        · exact Matches.refuse _ hl
      · exact Matches.pure ⟨.cons (.same _) hl hf hch .nil, .none⟩
  | some hfirst =>
      dsimp only [continueRule, OpenRule.join]
      rw [hch.isEmpty_eq, hfirst.selectors]
      split
      · split
        · exact Matches.pure ⟨.nil, .some ⟨rfl, hfirst.line, hfirst.filename⟩⟩
        · exact Matches.refuse _ hl
      · exact Matches.pure ⟨.cons (.same _) hfirst.line hfirst.filename hch .nil, .none⟩

/-- What a line comes to that is no rule: a selector list that is open before it is refused. -/
def placeClosed (root : Bool) (line : Int) (opened : Option OpenRule) (found : Meaning Node) :
    Assembly (List Node × Option OpenRule) :=
  match opened with
  | some first => Assembly.refuse .openSelectorList first.line
  | none => do pure (← place root line found, none)

theorem continueRule_matches (root : Bool) {line line' : Int} (hl : r.number line line')
    {opened opened' : Option OpenRule} (ho : Option.Rel r.Opened opened opened')
    {found found' : Meaning Node} (hf : r.Meanings r.Items found found') :
    r.Matches (fun result result' => r.Nodes result.1 result'.1 ∧
        Option.Rel r.Opened result.2 result'.2)
      (continueRule root line opened found) (continueRule root line' opened' found') := by
  have hplace : r.Matches (fun result result' => r.Nodes result.1 result'.1 ∧
        Option.Rel r.Opened result.2 result'.2)
      (placeClosed root line opened found) (placeClosed root line' opened' found') := by
    cases ho with
    | none =>
        exact Matches.bind (place_matches root hl hf) fun nodes nodes' hn =>
          Matches.pure ⟨hn, .none⟩
    | some hfirst => exact Matches.refuse _ hfirst.line
  cases hf with
  | item hn =>
      cases hn with
      | @cons content _ _ _ _ _ _ _ _ _ hc hln hfn hch hrest =>
          cases hrest
          cases hc with
          | comment _ => exact hplace
          | same =>
              cases content with
              | rule selectors => exact continueRule_rule_matches root ho selectors hln hfn hch
              | _ => exact hplace
  | _ => exact hplace

theorem beneath_matches {content content' : Content} (hc : r.Contents content content')
    {children children' : List Line}
    (h : r.Matches r.Nodes (arrange elsewhere context false none children)
      (arrange elsewhere' context' false none children')) :
    r.Matches r.Nodes (beneath elsewhere context content children)
      (beneath elsewhere' context' content' children') := by
  cases hc with
  | comment _ => exact Matches.pure .nil
  | same content =>
      cases content with
      | comment _ _ _ => exact Matches.pure .nil
      | _ => exact h

/-- Related lines, with what is beneath them, are built alike. -/
theorem build_matches (he : r.Elsewheres elsewhere elsewhere')
    (h : r.Contexts context context') (text : String) (depth : Int) {index index' : Int}
    (hi : r.number index index') {children children' : List Line}
    (hch : r.Lines children children')
    (hbeneath : r.Matches r.Nodes (arrange elsewhere context false none children)
      (arrange elsewhere' context' false none children')) :
    r.Matches (r.Meanings r.Items) (build elsewhere context ⟨text, depth, index, children⟩)
      (build elsewhere' context' ⟨text, depth, index', children'⟩) := by
  rw [build_eq, build_eq]
  refine Matches.bind (meaning_matches he h text depth hi hch) fun found found' hf => ?_
  refine Matches.bind (refuseNested_matches hch hf) fun _ _ _ => ?_
  cases hf with
  | item hc =>
      refine Matches.bind (beneath_matches hc hbeneath) fun nodes nodes' hn => ?_
      exact Matches.pure (.item (.cons hc (.some hi) h.filename hn .nil))
  | constant => exact Matches.pure .constant
  | mixin => exact Matches.pure .mixin
  | silent => exact Matches.pure .silent
  | nodes origin hn => exact Matches.pure (.nodes origin hn)

/-- A silent comment puts nothing in its place, whatever is nested beneath it. -/
theorem build_silent {line : Line} (h : Shape.of line.text.toList = .silentComment) :
    build elsewhere context line = pure .silent := by
  obtain ⟨text, depth, index, children⟩ := line
  rw [build_eq]
  simp only [meaning, h, pure_bind]
  cases children <;> rfl

/-- Sibling lines that are alike, after rules that are alike or after none. The induction is on the
likeness of the lines: it gives the nested lines and the siblings that follow. -/
theorem arrange_matches (he : r.Elsewheres elsewhere elsewhere')
    (h : r.Contexts context context') {lines lines' : List Line} (hl : r.Lines lines lines') :
    ∀ (root : Bool) {opened opened' : Option OpenRule}, Option.Rel r.Opened opened opened' →
      r.Matches r.Nodes (arrange elsewhere context root opened lines)
        (arrange elsewhere' context' root opened' lines') := by
  induction hl with
  | nil =>
      intro root opened opened' ho
      cases ho with
      | none =>
          rw [arrange, arrange]
          exact Matches.pure .nil
      | some hfirst =>
          rw [arrange, arrange]
          exact Matches.refuse _ hfirst.line
  | @cons text depth index index' children children' rest rest' hi hch _ ihch ihrest =>
      intro root opened opened' ho
      rw [arrange_cons, arrange_cons]
      refine Matches.bind (build_matches he h text depth hi hch (ihch false .none)) ?_
      intro found found' hf
      refine Matches.bind (continueRule_matches root hi ho hf) ?_
      rintro ⟨nodes, left⟩ ⟨nodes', left'⟩ ⟨hn, hleft⟩
      exact Matches.bind (ihrest root hleft) fun more more' hm => Matches.pure (hn.append hm)
  | @gone line rest rest' hgone _ ihrest =>
      intro root opened opened' ho
      rw [arrange_cons, build_silent (r.silent_of_gone line hgone), pure_bind]
      cases ho with
      | none => simpa [continueRule, place] using ihrest root .none
      | some hfirst =>
          -- a rule is open before the line that is gone: the first run fails, the second may not
          exact Matches.excused (excused_of_gone hgone _)

/-! ## Whole assemblies -/

/-- Assembling matches itself under the same limit, or a deeper one if the limit's failure is
excused. -/
theorem assemble_elsewheres {limit limit' : Nat}
    (hle : limit = limit' ∨ r.excused .nestingLimit ∧ limit ≤ limit') :
    r.Elsewheres (assemble limit) (assemble limit') := by
  induction limit generalizing limit' with
  | zero =>
      intro context context' h root lines lines' hl
      rcases hle with rfl | ⟨hexcused, -⟩
      · exact Matches.throw .nestingLimit
      · exact Matches.excused hexcused
  | succ limit ih =>
      intro context context' h root lines lines' hl
      obtain ⟨limit', rfl⟩ : ∃ n, limit' = n + 1 := by
        rcases hle with rfl | ⟨-, hle⟩
        · exact ⟨limit, rfl⟩
        · exact ⟨limit' - 1, by omega⟩
      refine arrange_matches (ih ?_) h hl root .none
      rcases hle with heq | ⟨hexcused, hle⟩
      · exact .inl (by omega)
      · exact .inr ⟨hexcused, by omega⟩

end Stylesheet.Likeness
