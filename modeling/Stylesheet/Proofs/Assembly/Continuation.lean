import Mathlib.Data.List.Forall2
import Stylesheet.Css.Selector
import Stylesheet.Proofs.Assembly.Failing
import Stylesheet.Proofs.Assembly.Likeness

/-!
# Selector lists broken over lines

A selector list can be written in one line, or over several lines that end in a comma but for the last
one, beneath which then stands what stood beneath the one line. Two assemblies are run side by side, over
lines that differ in this only and from mixins that do. Neither line numbers nor places in messages are
compared, so that the second run fails where the first one does, by the same fault, and otherwise comes
to nodes of which the rules have the same selectors (`Node.WrittenAlike`).

A broken list is assembled by several steps and the list in one line by a single one. In between, the
rule that the second run holds open has the selectors of the rule that the first one holds open, and some
more (`exists_opened`).

* `Agrees.bind` : runs that agree step by step.
* `arrange_agrees` : sibling lines, by induction on the lines.
* `document_agrees` : templates whose lines are broken differently.
-/

namespace Stylesheet

open Line Assembly

/-! ## What may differ -/

/-- A selector list in one line, and the same list over several lines, all but the last of which leave
it open. -/
structure SameList (whole : String) (openings : List String) (last : String) : Prop where
  whole_rule : Shape.of whole.toList = .rule
  whole_closed : (SelectorList.ofText whole.toList).continued = false
  openings_rule : ∀ text ∈ openings, Shape.of text.toList = .rule
  openings_continued : ∀ text ∈ openings, (SelectorList.ofText text.toList).continued = true
  last_rule : Shape.of last.toList = .rule
  last_closed : (SelectorList.ofText last.toList).continued = false
  selectors : Selector.ofLines (SelectorList.ofText whole.toList).rules =
    Selector.ofLines ((openings ++ [last]).flatMap fun text => (SelectorList.ofText text.toList).rules)

/-- Forests of lines that are the same but for selector lists that the second one breaks over lines.
What a comment keeps may not be broken. -/
inductive Line.Broken : List Line → List Line → Prop
  | nil : Broken [] []
  | line {text : String} {depth depth' index index' : Int}
      {children children' rest rest' : List Line} :
      (Shape.of text.toList = .comment →
        (flattenAll children).map (·.text) = (flattenAll children').map (·.text)) →
      Broken children children' → Broken rest rest' →
      Broken (⟨text, depth, index, children⟩ :: rest) (⟨text, depth', index', children'⟩ :: rest')
  | list {whole last : String} {openings : List Line} {depth depth' index index' : Int}
      {children children' rest rest' : List Line} :
      SameList whole (openings.map (·.text)) last → (∀ line ∈ openings, line.children = []) →
      Broken children children' → Broken rest rest' →
      Broken (⟨whole, depth, index, children⟩ :: rest)
        (openings ++ ⟨last, depth', index', children'⟩ :: rest')

/-- Contents that are written in the same way. -/
inductive Content.WrittenAlike : Content → Content → Prop
  | same (content : Content) : WrittenAlike content content
  | rule {selectors selectors' : SelectorList} :
      Selector.ofLines selectors.rules = Selector.ofLines selectors'.rules →
      selectors.continued = selectors'.continued →
      WrittenAlike (.rule selectors) (.rule selectors')
  | comment {text : String} {visible : Bool} {lines lines' : List Line} :
      (flattenAll lines).map (·.text) = (flattenAll lines').map (·.text) →
      WrittenAlike (.comment text visible lines) (.comment text visible lines')

/-- Forests of nodes that are written in the same way, wherever they come from. -/
inductive Node.WrittenAlike : List Node → List Node → Prop
  | nil : WrittenAlike [] []
  | cons {content content' : Content} {line line' : Option Int} {filename filename' : Option String}
      {children children' rest rest' : List Node} :
      content.WrittenAlike content' → WrittenAlike children children' → WrittenAlike rest rest' →
      WrittenAlike (⟨content, line, filename, children⟩ :: rest)
        (⟨content', line', filename', children'⟩ :: rest')

/-- The mixins of two runs: the same names in the same order. -/
def Mixins.Broken (mixins mixins' : Mixins) : Prop :=
  List.Forall₂ (fun entry entry' => entry.1 = entry'.1 ∧ Line.Broken entry.2 entry'.2)
    mixins.entries mixins'.entries

structure State.Broken (s s' : State) : Prop where
  constants : s.constants = s'.constants
  mixins : s.mixins.Broken s'.mixins

def Failure.withoutPlace (failure : Failure) : Failure :=
  failure.map fun d => d.fault.at none

/-! ## Forests -/

theorem Line.Broken.refl : ∀ lines : List Line, Broken lines lines
  | [] => .nil
  | ⟨_, _, _, children⟩ :: rest => .line (fun _ => rfl) (refl children) (refl rest)

/-- Broken lines are none exactly where the lines that they come from are none. -/
theorem Line.Broken.head? {lines lines' : List Line} (h : Broken lines lines') :
    lines.head?.isSome = lines'.head?.isSome := by
  cases h with
  | nil => rfl
  | line => rfl
  | @list _ _ openings => cases openings <;> rfl

namespace Node.WrittenAlike

variable {xs xs' ys ys' : List Node}

theorem append (hx : WrittenAlike xs xs') (hy : WrittenAlike ys ys') :
    WrittenAlike (xs ++ ys) (xs' ++ ys') := by
  induction hx with
  | nil => exact hy
  | cons hc hch _ _ ih => exact .cons hc hch ih

theorem isEmpty_eq (h : WrittenAlike xs xs') : xs.isEmpty = xs'.isEmpty := by
  cases h <;> rfl

theorem any_isDirective_eq (h : WrittenAlike xs xs') :
    xs.any Node.isDirective = xs'.any Node.isDirective := by
  induction h with
  | nil => rfl
  | cons hc _ _ _ ih =>
      rw [List.any_cons, List.any_cons, ih]
      cases hc <;> rfl

end Node.WrittenAlike

namespace Mixins.Broken

variable {mixins mixins' : Mixins}

theorem refl (mixins : Mixins) : mixins.Broken mixins :=
  List.forall₂_same.mpr fun entry _ => ⟨rfl, .refl entry.2⟩

/-- A mixin is held by both tables or by neither, and its bodies differ by broken lists only. -/
theorem get? (h : mixins.Broken mixins') (name : String) :
    Option.Rel Line.Broken (mixins.get? name) (mixins'.get? name) :=
  Table.rel_get? h name

theorem set (h : mixins.Broken mixins') (name : String) {body body' : List Line}
    (hbody : Line.Broken body body') :
    Mixins.Broken (Table.set mixins name body) (Table.set mixins' name body') :=
  Table.rel_set h name hbody

end Mixins.Broken

/-! ## Runs in step -/

namespace Assembly

variable {α β γ δ : Type}

/-- Outcomes of two runs: results of which `related` says that they stand for one another, or failures
that differ in their places only. -/
inductive SameOutcome (related : α → β → Prop) :
    Except Failure α × State → Except Failure β × State → Prop
  | ok {a : α} {b : β} {t t' : State} :
      related a b → t.Broken t' → SameOutcome related (.ok a, t) (.ok b, t')
  | error {failure failure' : Failure} {t t' : State} :
      failure.withoutPlace = failure'.withoutPlace → t.Broken t' →
      SameOutcome related (.error failure, t) (.error failure', t')

/-- From states with the same constants, and with mixins in which lists are broken, two assemblies come
to the same outcome. -/
def Agrees (related : α → β → Prop) (x : Assembly α) (y : Assembly β) : Prop :=
  ∀ s s', s.Broken s' → SameOutcome related (x.outcome s) (y.outcome s')

namespace Agrees

variable {R : α → β → Prop} {x : Assembly α} {y : Assembly β}

theorem pure {a : α} {b : β} (h : R a b) : Agrees R (Pure.pure a) (Pure.pure b) :=
  fun _ _ hs => .ok h hs

theorem throw {failure failure' : Failure} (h : failure.withoutPlace = failure'.withoutPlace) :
    Agrees R (MonadExcept.throw failure) (MonadExcept.throw failure') :=
  fun _ _ hs => .error h hs

theorem refuse (fault : Fault) (line line' : Option Int) :
    Agrees R (Assembly.refuse fault line) (Assembly.refuse fault line') :=
  throw rfl

theorem bind {f : α → Assembly γ} {g : β → Assembly δ} {Q : γ → δ → Prop} (h : Agrees R x y)
    (hfg : ∀ a b, R a b → Agrees Q (f a) (g b)) : Agrees Q (x >>= f) (y >>= g) := by
  intro s s' hs
  have hxy := h s s' hs
  rw [outcome_bind, outcome_bind]
  generalize x.outcome s = result at hxy
  generalize y.outcome s' = result' at hxy
  cases hxy with
  | ok hab ht => exact hfg _ _ hab _ _ ht
  | error hf ht => exact .error hf ht

theorem get {f : State → Assembly α} {g : State → Assembly β}
    (h : ∀ s s', s.Broken s' → Agrees R (f s) (g s')) :
    Agrees R (MonadState.get >>= f) (MonadState.get >>= g) := by
  intro s s' hs
  rw [outcome_bind, outcome_bind]
  exact h s s' hs s s' hs

theorem modify {f g : State → State} (h : ∀ s s', s.Broken s' → (f s).Broken (g s')) :
    Agrees (fun _ _ => True) (modify f : Assembly Unit) (modify g : Assembly Unit) :=
  fun s s' hs => .ok trivial (h s s' hs)

theorem log (event : Event) :
    Agrees (fun _ _ => True) (Assembly.log event) (Assembly.log event) :=
  fun _ _ hs => .ok trivial ⟨hs.constants, hs.mixins⟩

theorem restoring (h : Agrees R x y) : Agrees R (Assembly.restoring x) (Assembly.restoring y) := by
  intro s s' hs
  have hxy := h s s' hs
  rw [outcome_restoring, outcome_restoring]
  generalize x.outcome s = result at hxy
  generalize y.outcome s' = result' at hxy
  cases hxy with
  | ok hab ht => exact .ok hab ht
  | error hf _ => exact .error hf ⟨hs.constants, hs.mixins⟩

/-- What is told of a fault besides the fault itself may be changed. -/
theorem mapDiagnostic {f g : Diagnostic → Diagnostic} (h : Agrees R x y)
    (hf : ∀ d, (f d).fault = d.fault) (hg : ∀ d, (g d).fault = d.fault) :
    Agrees R (Assembly.mapDiagnostic f x) (Assembly.mapDiagnostic g y) := by
  intro s s' hs
  have hxy := h s s' hs
  rw [outcome_mapDiagnostic, outcome_mapDiagnostic]
  generalize x.outcome s = result at hxy
  generalize y.outcome s' = result' at hxy
  cases hxy with
  | ok hab ht => exact .ok hab ht
  | @error failure failure' _ _ hsame ht =>
      cases failure with
      | refused d =>
          cases failure' with
          | refused d' =>
              have hfault : d.fault = d'.fault := by
                have hsame' := Diagnostic.mk.inj (Failure.refused.inj hsame)
                exact hsame'.1
              refine .error ?_ ht
              show Failure.refused ((f d).fault.at none) = .refused ((g d').fault.at none)
              rw [hf, hg, hfault]
          | _ => cases hsame
      | _ => cases failure' <;> first | exact .error hsame ht | cases hsame

end Agrees

end Assembly

/-! ## Expressions and definitions -/

/-- Two ways of assembling lines elsewhere that agree on lines in which lists are broken. -/
def Elsewhere.Agree (elsewhere elsewhere' : Elsewhere) : Prop :=
  ∀ (context : Context) (root : Bool) {lines lines' : List Line}, Broken lines lines' →
    Agrees Node.WrittenAlike (elsewhere context root lines) (elsewhere' context root lines')

variable {elsewhere elsewhere' : Elsewhere} {context : Context}

theorem evaluate_agrees (expression : List Char) (line line' : Int) :
    Agrees Eq (evaluate expression line) (evaluate expression line') := by
  refine Agrees.get fun s s' hs => ?_
  rw [hs.constants]
  cases Expr.cssOf s'.constants (String.ofList expression) with
  | ok css => exact Agrees.pure rfl
  | error refusal =>
      cases refusal with
      | fault fault => exact Agrees.refuse fault _ _
      | infiniteNumber => exact Agrees.throw rfl

theorem attribute?_agrees (context : Context) (way : AttributeSyntax) (text : List Char)
    (line line' : Int) :
    Agrees Eq (attribute? context way text line) (attribute? context way text line') := by
  unfold attribute?
  split
  · exact Agrees.refuse _ _ _
  · split
    · exact Agrees.refuse _ _ _
    · refine Agrees.bind (evaluate_agrees _ line line') fun css _ heq => ?_
      rw [heq]
      exact Agrees.pure rfl
    · exact Agrees.pure rfl

theorem defineConstant_agrees (text : List Char) (line line' : Int) :
    Agrees (fun _ _ => True) (defineConstant text line) (defineConstant text line') := by
  unfold defineConstant
  split
  · exact Agrees.refuse _ _ _
  · refine Agrees.bind (evaluate_agrees _ line line') fun css _ heq => ?_
    rw [heq]
    refine Agrees.modify fun s s' hs => ⟨?_, hs.mixins⟩
    rw [hs.constants]

theorem defineMixin_agrees (text : List Char) {body body' : List Line} (hbody : Broken body body')
    (line line' : Int) :
    Agrees (fun _ _ => True) (defineMixin text body line) (defineMixin text body' line') := by
  dsimp only [defineMixin]
  split
  · exact Agrees.refuse _ _ _
  · exact Agrees.modify fun s s' hs => ⟨hs.constants, hs.mixins.set _ hbody⟩

/-! ## Inclusions and imports -/

/-- Inclusions of one mixin agree, since its two bodies differ by broken lists only. -/
theorem includeMixin_agrees (he : elsewhere.Agree elsewhere') (text : List Char)
    (line line' : Int) :
    Agrees Node.WrittenAlike (includeMixin elsewhere context text line)
      (includeMixin elsewhere' context text line') := by
  dsimp only [includeMixin]
  refine Agrees.get fun s s' hs => ?_
  have hget := hs.mixins.get? (String.ofList (Text.trim (text.drop 1)))
  generalize s.mixins.get? (String.ofList (Text.trim (text.drop 1))) = found at hget
  generalize s'.mixins.get? (String.ofList (Text.trim (text.drop 1))) = found' at hget
  cases hget with
  | none => exact Agrees.refuse _ _ _
  | some hbody =>
      dsimp only
      split
      · exact Agrees.refuse _ _ _
      · exact he _ false hbody

/-- Parsed templates: the same lines but for lists that the second one breaks, or the same fault. -/
inductive BrokenParses :
    Except Diagnostic (List Line) → Except Diagnostic (List Line) → Prop
  | ok {lines lines' : List Line} : Broken lines lines' → BrokenParses (.ok lines) (.ok lines')
  | error {d d' : Diagnostic} : d.fault = d'.fault → BrokenParses (.error d) (.error d')

theorem BrokenParses.refl (parsed : Except Diagnostic (List Line)) : BrokenParses parsed parsed := by
  cases parsed with
  | ok lines => exact .ok (.refl lines)
  | error d => exact .error rfl

/-- Templates whose lines are broken differently come to trees that are written in the same way. -/
theorem document_agrees (he : elsewhere.Agree elsewhere') (context : Context)
    {template template' : String}
    (h : BrokenParses (parseLines template.toList) (parseLines template'.toList)) :
    Agrees (fun tree tree' => Node.WrittenAlike tree.children tree'.children)
      (document elsewhere context template) (document elsewhere' context template') := by
  have hfault : ∀ d : Diagnostic,
      (if d.backtrace.isEmpty then d.through context.filename none else d).fault = d.fault := by
    intro d
    split <;> rfl
  unfold document
  refine Agrees.mapDiagnostic ?_ hfault hfault
  generalize parseLines template.toList = parsed at h
  generalize parseLines template'.toList = parsed' at h
  cases h with
  | ok hlines => exact Agrees.bind (he context true hlines) fun _ _ hnodes => Agrees.pure hnodes
  | error hd =>
      refine Agrees.throw ?_
      simp only [Failure.withoutPlace, Failure.map, hd]

theorem importFile_agrees (he : elsewhere.Agree elsewhere') (line line' : Int)
    (target path : String) :
    Agrees Node.WrittenAlike (importFile elsewhere context line target path)
      (importFile elsewhere' context line' target path) := by
  unfold importFile
  split
  · exact Agrees.refuse _ _ _
  · exact Agrees.throw rfl
  · refine Agrees.bind (Agrees.log _) fun _ _ _ => ?_
    refine Agrees.bind ?_ fun _ _ hnodes => Agrees.pure hnodes
    exact Agrees.mapDiagnostic (Agrees.restoring (document_agrees he _ (.refl _))) (fun _ => rfl)
      fun _ => rfl

theorem importTarget_agrees (he : elsewhere.Agree elsewhere') (line line' : Int)
    (target : List Char) :
    Agrees Node.WrittenAlike (importTarget elsewhere context line target)
      (importTarget elsewhere' context line' target) := by
  have href : ∀ name,
      Node.WrittenAlike [reference context line name] [reference context line' name] :=
    fun name => .cons (.same _) .nil .nil
  dsimp only [importTarget]
  split
  · exact Agrees.bind (Agrees.log _) fun _ _ _ => importFile_agrees he line line' _ _
  · exact Agrees.bind (Agrees.log _) fun _ _ _ => Agrees.pure (href _)
  · exact Agrees.pure (href _)
  · exact Agrees.refuse _ _ _

theorem importTargets_agrees (he : elsewhere.Agree elsewhere') (line line' : Int)
    (targets : List (List Char)) :
    Agrees Node.WrittenAlike (importTargets elsewhere context line targets)
      (importTargets elsewhere' context line' targets) := by
  induction targets with
  | nil => exact Agrees.pure .nil
  | cons target targets ih =>
      rw [importTargets, importTargets]
      refine Agrees.bind (importTarget_agrees he line line' target) fun _ _ hnodes => ?_
      exact Agrees.bind ih fun _ _ hmore => Agrees.pure (hnodes.append hmore)

/-! ## Lines -/

inductive Meaning.Alike {α β : Type} (items : α → β → Prop) : Meaning α → Meaning β → Prop
  | item {a : α} {b : β} : items a b → Alike items (.item a) (.item b)
  | constant : Alike items .constant .constant
  | mixin : Alike items .mixin .mixin
  | silent : Alike items .silent .silent
  | nodes (origin : Origin) {nodes nodes' : List Node} :
      Node.WrittenAlike nodes nodes' → Alike items (.nodes origin nodes) (.nodes origin nodes')

/-- What a line means agrees, as long as a comment's covered lines say the same. -/
theorem meaning_agrees (he : elsewhere.Agree elsewhere') (text : String)
    (depth depth' index index' : Int) {children children' : List Line}
    (hcomment : Shape.of text.toList = .comment →
      (flattenAll children).map (·.text) = (flattenAll children').map (·.text))
    (hch : Broken children children') :
    Agrees (Meaning.Alike Content.WrittenAlike)
      (meaning elsewhere context ⟨text, depth, index, children⟩)
      (meaning elsewhere' context ⟨text, depth', index', children'⟩) := by
  dsimp only [meaning]
  cases hshape : Shape.of text.toList with
  | attr way =>
      refine Agrees.bind (attribute?_agrees context way _ index index') fun content _ heq => ?_
      rw [heq]
      exact Agrees.pure (.item (.same _))
  | constant =>
      exact Agrees.bind (defineConstant_agrees _ index index') fun _ _ _ => Agrees.pure .constant
  | silentComment => exact Agrees.pure .silent
  | comment => exact Agrees.pure (.item (.comment (hcomment hshape)))
  | directive =>
      dsimp only
      split
      · split
        · exact Agrees.refuse _ _ _
        · exact Agrees.bind (importTargets_agrees he index index' _) fun _ _ hnodes =>
            Agrees.pure (.nodes .imports hnodes)
      · exact Agrees.pure (.item (.same _))
  | escapedRule => exact Agrees.pure (.item (.same _))
  | mixinDefinition =>
      exact Agrees.bind (defineMixin_agrees _ hch index index') fun _ _ _ => Agrees.pure .mixin
  | mixinInclusion =>
      exact Agrees.bind (includeMixin_agrees he _ index index') fun _ _ hnodes =>
        Agrees.pure (.nodes .mixin hnodes)
  | rule => exact Agrees.pure (.item (.same _))

theorem refuseNested_agrees {children children' : List Line}
    (h : children.head?.isSome = children'.head?.isSome)
    {found found' : Meaning Content} (hf : Meaning.Alike Content.WrittenAlike found found') :
    Agrees (fun _ _ => True) (refuseNested (children.head?.map (·.index)) found)
      (refuseNested (children'.head?.map (·.index)) found') := by
  cases children with
  | nil =>
      cases children' with
      | nil => cases hf <;> exact Agrees.pure trivial
      | cons _ _ => cases h
  | cons line rest =>
      cases children' with
      | nil => cases h
      | cons line' rest' =>
          cases hf with
          | constant => exact Agrees.refuse _ _ _
          | nodes origin _ => exact Agrees.refuse _ _ _
          | _ => exact Agrees.pure trivial

/-! ## Siblings -/

def Node.SameWritten (node node' : Node) : Prop :=
  Node.WrittenAlike [node] [node']

/-- The lines of the selector list that is open, if one is. -/
def OpenRule.rules (opened : Option OpenRule) : List String :=
  (opened.map fun first => first.selectors.rules).getD []

/-- In both runs a rule with the same selectors is open, or none is. -/
structure OpenRule.Alike (opened opened' : Option OpenRule) : Prop where
  isSome : opened.isSome = opened'.isSome
  selectors : Selector.ofLines (rules opened) = Selector.ofLines (rules opened')

theorem OpenRule.Alike.none : Alike none none :=
  ⟨rfl, rfl⟩

/-- The selectors of a list's lines are read line by line. -/
theorem Selector.ofLines_append (rules rules' : List String) :
    ofLines (rules ++ rules') = ofLines rules ++ ofLines rules' :=
  List.flatMap_append

/-- A rule that is continued has the lines of both rules. -/
theorem OpenRule.join_eq (opened : Option OpenRule) (selectors : SelectorList)
    (number : Option Int) (filename : Option String) (children : List Node) :
    ∃ line file, OpenRule.join opened selectors ⟨.rule selectors, number, filename, children⟩ =
      (⟨rules opened ++ selectors.rules, selectors.continued⟩,
        ⟨.rule ⟨rules opened ++ selectors.rules, selectors.continued⟩, line, file, children⟩) := by
  cases opened with
  | none => exact ⟨number, filename, rfl⟩
  | some first => exact ⟨first.line, first.filename, rfl⟩

theorem place_agrees (root : Bool) (line line' : Int) {found found' : Meaning Node}
    (hf : Meaning.Alike Node.SameWritten found found') :
    Agrees Node.WrittenAlike (place root line found) (place root line' found') := by
  cases hf with
  | item hn =>
      have hdirective := hn.any_isDirective_eq
      simp only [List.any_cons, List.any_nil, Bool.or_false] at hdirective
      dsimp only [place]
      rw [hdirective]
      split
      · exact Agrees.refuse _ _ _
      · exact Agrees.pure hn
  | nodes origin hn =>
      dsimp only [place]
      rw [hn.any_isDirective_eq]
      split
      · exact Agrees.refuse _ _ _
      · exact Agrees.pure hn
  | silent => exact Agrees.pure .nil
  | constant =>
      cases root with
      | true => exact Agrees.pure .nil
      | false => exact Agrees.refuse _ _ _
  | mixin =>
      cases root with
      | true => exact Agrees.pure .nil
      | false => exact Agrees.refuse _ _ _

/-- What a line comes to after rules that are open in both runs. -/
def SameContinued (result result' : List Node × Option OpenRule) : Prop :=
  Node.WrittenAlike result.1 result'.1 ∧ OpenRule.Alike result.2 result'.2

/-- Rules that end in a comma or not after rules that are open, the selectors of which are the same
taken together. -/
theorem continueRule_rule_agrees (root : Bool) (line line' : Int)
    {opened opened' : Option OpenRule} {selectors selectors' : SelectorList}
    (hselectors : Selector.ofLines (OpenRule.rules opened ++ selectors.rules) =
      Selector.ofLines (OpenRule.rules opened' ++ selectors'.rules))
    (hcontinued : selectors.continued = selectors'.continued)
    (number number' : Option Int) (filename filename' : Option String)
    {children children' : List Node} (hch : Node.WrittenAlike children children') :
    Agrees SameContinued
      (continueRule root line opened (.item ⟨.rule selectors, number, filename, children⟩))
      (continueRule root line' opened' (.item ⟨.rule selectors', number', filename', children'⟩)) := by
  obtain ⟨place, file, hjoin⟩ := OpenRule.join_eq opened selectors number filename children
  obtain ⟨place', file', hjoin'⟩ := OpenRule.join_eq opened' selectors' number' filename' children'
  simp only [continueRule, hjoin, hjoin', ← hcontinued, hch.isEmpty_eq]
  split
  · split
    · exact Agrees.pure ⟨.nil, rfl, hselectors⟩
    · exact Agrees.refuse _ _ _
  · exact Agrees.pure ⟨.cons (.rule hselectors rfl) hch .nil, rfl, rfl⟩

/-- A rule joined to the selectors before it is written alike on both sides. -/
theorem continueRule_agrees (root : Bool) (line line' : Int) {opened opened' : Option OpenRule}
    (ho : OpenRule.Alike opened opened') {found found' : Meaning Node}
    (hf : Meaning.Alike Node.SameWritten found found') :
    Agrees SameContinued (continueRule root line opened found)
      (continueRule root line' opened' found') := by
  -- whatever is no rule is placed only if no list is open
  have hplace : Agrees SameContinued (Likeness.placeClosed root line opened found)
      (Likeness.placeClosed root line' opened' found') := by
    cases opened with
    | none =>
        cases opened' with
        | none =>
            exact Agrees.bind (place_agrees root line line' hf) fun _ _ hnodes =>
              Agrees.pure ⟨hnodes, rfl, rfl⟩
        | some first' => cases ho.isSome
    | some first =>
        cases opened' with
        | none => cases ho.isSome
        | some first' => exact Agrees.refuse _ _ _
  have hrule : ∀ {own own' : List String}, Selector.ofLines own = Selector.ofLines own' →
      Selector.ofLines (OpenRule.rules opened ++ own) =
        Selector.ofLines (OpenRule.rules opened' ++ own') := by
    intro own own' hown
    rw [Selector.ofLines_append, Selector.ofLines_append, ho.selectors, hown]
  cases hf with
  | item hn =>
      cases hn with
      | @cons content _ _ _ _ _ _ _ _ _ hc hch hrest =>
          cases hrest
          cases hc with
          | comment _ => exact hplace
          | rule hown hcontinued =>
              exact continueRule_rule_agrees root line line' (hrule hown) hcontinued _ _ _ _ hch
          | same =>
              cases content with
              | rule selectors =>
                  exact continueRule_rule_agrees root line line' (hrule rfl) rfl _ _ _ _ hch
              | _ => exact hplace
  | _ => exact hplace

theorem beneath_agrees {content content' : Content} (hc : content.WrittenAlike content')
    {children children' : List Line}
    (h : Agrees Node.WrittenAlike (arrange elsewhere context false none children)
      (arrange elsewhere' context false none children')) :
    Agrees Node.WrittenAlike (beneath elsewhere context content children)
      (beneath elsewhere' context content' children') := by
  cases hc with
  | comment _ => exact Agrees.pure .nil
  | rule _ _ => exact h
  | same content =>
      cases content with
      | comment _ _ _ => exact Agrees.pure .nil
      | _ => exact h

/-- One line, with what is beneath it, is built into nodes that are written alike. -/
theorem build_agrees (he : elsewhere.Agree elsewhere') (text : String)
    (depth depth' index index' : Int) {children children' : List Line}
    (hcomment : Shape.of text.toList = .comment →
      (flattenAll children).map (·.text) = (flattenAll children').map (·.text))
    (hch : Broken children children')
    (hbeneath : Agrees Node.WrittenAlike (arrange elsewhere context false none children)
      (arrange elsewhere' context false none children')) :
    Agrees (Meaning.Alike Node.SameWritten) (build elsewhere context ⟨text, depth, index, children⟩)
      (build elsewhere' context ⟨text, depth', index', children'⟩) := by
  rw [build_eq, build_eq]
  refine Agrees.bind (meaning_agrees he text depth depth' index index' hcomment hch)
    fun found found' hf => ?_
  refine Agrees.bind (refuseNested_agrees hch.head? hf) fun _ _ _ => ?_
  cases hf with
  | item hc =>
      refine Agrees.bind (beneath_agrees hc hbeneath) fun nodes nodes' hnodes => ?_
      exact Agrees.pure (.item (.cons hc hnodes .nil))
  | constant => exact Agrees.pure .constant
  | mixin => exact Agrees.pure .mixin
  | silent => exact Agrees.pure .silent
  | nodes origin hnodes => exact Agrees.pure (.nodes origin hnodes)

/-! ## Lists over several lines -/

/-- A line that is a selector list is built to a rule. -/
theorem build_rule {text : String} (h : Shape.of text.toList = .rule) (depth index : Int)
    (children : List Line) :
    build elsewhere context ⟨text, depth, index, children⟩ = (do
      let nodes ← arrange elsewhere context false none children
      pure (.item ⟨.rule (.ofText text.toList), index, context.filename, nodes⟩)) := by
  rw [build_eq]
  simp only [meaning, h, pure_bind, beneath]
  cases children <;> rfl

/-- Lines that leave their lists open, and beneath which nothing stands, only add to the rule that is
open after them. -/
theorem exists_opened (elsewhere : Elsewhere) (context : Context) {openings : List Line}
    (hchildless : ∀ line ∈ openings, line.children = [])
    (hrule : ∀ line ∈ openings, Shape.of line.text.toList = .rule)
    (hcontinued : ∀ line ∈ openings, (SelectorList.ofText line.text.toList).continued = true)
    (root : Bool) (opened : Option OpenRule) (lines : List Line) :
    ∃ opened', arrange elsewhere context root opened (openings ++ lines) =
        arrange elsewhere context root opened' lines ∧
      OpenRule.rules opened' = OpenRule.rules opened ++
        openings.flatMap fun line => (SelectorList.ofText line.text.toList).rules := by
  induction openings generalizing opened with
  | nil => exact ⟨opened, rfl, by simp⟩
  | cons line openings ih =>
      obtain ⟨hline, hchildless'⟩ := List.forall_mem_cons.mp hchildless
      obtain ⟨hown, hrule'⟩ := List.forall_mem_cons.mp hrule
      obtain ⟨hopen, hcontinued'⟩ := List.forall_mem_cons.mp hcontinued
      obtain ⟨text, depth, index, children⟩ := line
      dsimp only at hline hown hopen
      subst hline
      obtain ⟨place, file, hjoin⟩ := OpenRule.join_eq opened (.ofText text.toList) index
        context.filename []
      obtain ⟨opened', harrange, hrules⟩ := ih hchildless' hrule' hcontinued' (some
        ⟨⟨OpenRule.rules opened ++ (SelectorList.ofText text.toList).rules, true⟩, place, file⟩)
      refine ⟨opened', ?_, ?_⟩
      · rw [List.cons_append, arrange_cons, build_rule hown, arrange]
        simp only [pure_bind, continueRule, hjoin, hopen, if_true, List.isEmpty_nil, List.nil_append,
          bind_pure]
        exact harrange
      · rw [hrules, List.flatMap_cons, ← List.append_assoc]
        rfl

/-- Sibling lines in which lists are broken, after rules with the same selectors or after none. The
induction is on how the lines are broken: it gives the nested lines and the siblings that follow. -/
theorem arrange_agrees (he : elsewhere.Agree elsewhere') {lines lines' : List Line}
    (hlines : Broken lines lines') :
    ∀ (root : Bool) {opened opened' : Option OpenRule}, OpenRule.Alike opened opened' →
      Agrees Node.WrittenAlike (arrange elsewhere context root opened lines)
        (arrange elsewhere' context root opened' lines') := by
  induction hlines with
  | nil =>
      intro root opened opened' ho
      cases opened with
      | none =>
          cases opened' with
          | none =>
              rw [arrange, arrange]
              exact Agrees.pure .nil
          | some first' => cases ho.isSome
      | some first =>
          cases opened' with
          | none => cases ho.isSome
          | some first' =>
              rw [arrange, arrange]
              exact Agrees.refuse _ _ _
  | @line text depth depth' index index' children children' rest rest' hcomment hch _ ihch ihrest =>
      intro root opened opened' ho
      have hbeneath := ihch false .none
      rw [arrange_cons, arrange_cons]
      refine Agrees.bind (build_agrees he text depth depth' index index' hcomment hch hbeneath) ?_
      intro found found' hf
      refine Agrees.bind (continueRule_agrees root index index' ho hf) ?_
      rintro ⟨nodes, left⟩ ⟨nodes', left'⟩ ⟨hnodes, hleft⟩
      exact Agrees.bind (ihrest root hleft) fun _ _ hmore => Agrees.pure (hnodes.append hmore)
  | @list whole last openings depth depth' index index' children children' rest rest' hlist
      hchildless hch _ ihch ihrest =>
      intro root opened opened' ho
      -- the second run first opens its list; then both runs build a rule with the same nested lines
      obtain ⟨opened'', harrange, hrules⟩ := exists_opened elsewhere' context hchildless
        (fun line hline => hlist.openings_rule _ (List.mem_map_of_mem hline))
        (fun line hline => hlist.openings_continued _ (List.mem_map_of_mem hline))
        root opened' (⟨last, depth', index', children'⟩ :: rest')
      have hselectors : Selector.ofLines
            (OpenRule.rules opened ++ (SelectorList.ofText whole.toList).rules) =
          Selector.ofLines
            (OpenRule.rules opened'' ++ (SelectorList.ofText last.toList).rules) := by
        rw [hrules, List.append_assoc, Selector.ofLines_append, Selector.ofLines_append,
          ho.selectors, hlist.selectors, List.flatMap_append, List.flatMap_map]
        simp
      have hclosed : (SelectorList.ofText whole.toList).continued =
          (SelectorList.ofText last.toList).continued := by
        rw [hlist.whole_closed, hlist.last_closed]
      rw [harrange, arrange_cons, arrange_cons, build_rule hlist.whole_rule,
        build_rule hlist.last_rule, bind_assoc, bind_assoc]
      refine Agrees.bind (ihch false .none) fun nodes nodes' hnodes => ?_
      rw [pure_bind, pure_bind]
      refine Agrees.bind
        (continueRule_rule_agrees root index index' hselectors hclosed _ _ _ _ hnodes) ?_
      rintro ⟨nodes, left⟩ ⟨nodes', left'⟩ ⟨hnodes, hleft⟩
      exact Agrees.bind (ihrest root hleft) fun _ _ hmore => Agrees.pure (hnodes.append hmore)

/-- Whole assemblies, by induction on how deep inclusions and imports may be nested. -/
theorem assemble_agree (limit : Nat) : (assemble limit).Agree (assemble limit) := by
  induction limit with
  | zero => exact fun _ _ _ _ _ => Agrees.throw rfl
  | succ limit ih => exact fun _ root _ _ hlines => arrange_agrees ih hlines root .none

end Stylesheet
