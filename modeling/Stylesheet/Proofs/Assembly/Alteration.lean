import Stylesheet.Proofs.Assembly.Failing
import Stylesheet.Proofs.Line.Alteration

/-!
# Assembling altered lines

The numbers of lines and the lines beneath comments go into nodes, into the stored bodies of mixins
and into faults, and nothing is ever decided by them. So an assembly commutes with an alteration:
over altered lines and mixins it comes to the altered nodes or to the same failure under other
numbers, and it leaves the altered tables and the same log.

Imported files are not altered, only what they come to is. Of the ways to assemble what stands
elsewhere it is known that they agree on lines that are altered and on parsed files that are not
(`Elsewhere.Commutes`).

* `Assembly.Commutes.bind` : two steps that commute with an alteration.
* `arrange_commutes` : sibling lines, by induction on the lines.
-/

namespace Stylesheet

open Line Assembly

/-! ## Altered results -/

def Content.alter (a : Alteration) : Content → Content
  | .comment text visible lines => .comment text visible (a.covered lines)
  | content => content

namespace Node

mutual

def alter (a : Alteration) : Node → Node
  | ⟨content, line, filename, children⟩ =>
    ⟨content.alter a, line.map a.number, filename, alterAll a children⟩

def alterAll (a : Alteration) : List Node → List Node
  | [] => []
  | node :: nodes => node.alter a :: alterAll a nodes

end

end Node

def Meaning.alter {α β : Type} (a : Alteration) (g : α → β) : Meaning α → Meaning β
  | .item x => .item (g x)
  | .constant => .constant
  | .mixin => .mixin
  | .silent => .silent
  | .nodes origin inserted => .nodes origin (Node.alterAll a inserted)

def OpenRule.renumber (f : Int → Int) (first : OpenRule) : OpenRule :=
  { first with line := first.line.map f }

def Failure.renumber (f : Int → Int) (failure : Failure) : Failure :=
  failure.map (.renumber f)

def State.alter (a : Alteration) (s : State) : State :=
  { s with mixins := ⟨s.mixins.entries.map fun entry => (entry.1, alterAll a entry.2)⟩ }

/-- Numbers that are counted in a file stay as they are. -/
def FixesCounted (f : Int → Int) : Prop :=
  ∀ n, 0 < n → f n = n

variable {a : Alteration}

namespace Node

@[simp] theorem alterAll_nil : alterAll a [] = [] := by
  simp [alterAll]

@[simp] theorem alterAll_cons (node : Node) (nodes : List Node) :
    alterAll a (node :: nodes) = node.alter a :: alterAll a nodes := by
  simp [alterAll]

@[simp] theorem alterAll_append (xs ys : List Node) :
    alterAll a (xs ++ ys) = alterAll a xs ++ alterAll a ys := by
  induction xs with
  | nil => simp
  | cons node xs ih => simp [ih]

@[simp] theorem alter_mk (content : Content) (line : Option Int) (filename : Option String)
    (children : List Node) :
    alter a ⟨content, line, filename, children⟩ =
      ⟨content.alter a, line.map a.number, filename, alterAll a children⟩ := by
  simp [alter]

@[simp] theorem alter_children (node : Node) :
    (node.alter a).children = alterAll a node.children := by
  cases node
  simp

@[simp] theorem isEmpty_alterAll (nodes : List Node) :
    (alterAll a nodes).isEmpty = nodes.isEmpty := by
  cases nodes <;> simp

@[simp] theorem isDirective_alter (node : Node) :
    (node.alter a).isDirective = node.isDirective := by
  obtain ⟨content, line, filename, children⟩ := node
  cases content <;> simp [isDirective, Content.alter]

/-- An alteration makes no directive and takes none away. -/
@[simp] theorem any_isDirective_alterAll (nodes : List Node) :
    (alterAll a nodes).any isDirective = nodes.any isDirective := by
  induction nodes with
  | nil => simp
  | cons node nodes ih => simp [ih]

end Node

namespace State

@[simp] theorem alter_constants (s : State) : (s.alter a).constants = s.constants := rfl

/-- An altered state holds the altered bodies under the same names. -/
theorem get?_alter (s : State) (name : String) :
    (s.alter a).mixins.get? name = (s.mixins.get? name).map (alterAll a) := by
  obtain ⟨constants, ⟨entries⟩, events⟩ := s
  simp only [alter, Table.get?]
  induction entries with
  | nil => rfl
  | cons entry rest ih =>
      by_cases hname : entry.1 = name
      · simp [hname]
      · simpa [hname] using ih

theorem set_alter (s : State) (name : String) (body : List Line) :
    { s.alter a with mixins := (s.alter a).mixins.set name (alterAll a body) } =
      ({ s with mixins := s.mixins.set name body } : State).alter a := by
  obtain ⟨constants, ⟨entries⟩, events⟩ := s
  simp only [alter, Table.set, State.mk.injEq, Table.mk.injEq, true_and, and_true]
  induction entries with
  | nil => rfl
  | cons entry rest ih =>
      simp only [List.map_cons, Table.setEntries]
      split
      · rfl
      · rw [List.map_cons, ih]

end State

/-! ## Assemblies that commute with an alteration -/

/-- What an assembly comes to, altered; `h` alters a result. -/
def alteredOutcome {α β : Type} (a : Alteration) (h : α → β) :
    Except Failure α × State → Except Failure β × State
  | (.ok x, t) => (.ok (h x), t.alter a)
  | (.error failure, t) => (.error (failure.renumber a.number), t.alter a)

namespace Assembly

variable {α α' β β' : Type}

/-- From an altered state the second assembly comes to what the first one comes to, altered. -/
def Commutes (a : Alteration) (h : α → α') (x : Assembly α) (x' : Assembly α') : Prop :=
  ∀ s, x'.outcome (s.alter a) = alteredOutcome a h (x.outcome s)

namespace Commutes

variable {h : α → α'} {h' : β → β'} {x : Assembly α} {x' : Assembly α'}

theorem pure {r : α} {r' : α'} (hr : r' = h r) : Commutes a h (Pure.pure r) (Pure.pure r') := by
  intro s
  rw [hr]
  rfl

theorem throw (failure : Failure) :
    Commutes a h (MonadExcept.throw failure) (MonadExcept.throw (failure.renumber a.number)) :=
  fun _ => rfl

theorem refuse (fault : Fault) {line line' : Option Int} (hline : line' = line.map a.number) :
    Commutes a h (Assembly.refuse fault line) (Assembly.refuse fault line') := by
  rw [hline]
  exact throw _

/-- Two steps commute with an alteration if each of them does. -/
theorem bind {k : α → Assembly β} {k' : α' → Assembly β'} (hx : Commutes a h x x')
    (hk : ∀ r, Commutes a h' (k r) (k' (h r))) : Commutes a h' (x >>= k) (x' >>= k') := by
  intro s
  rw [outcome_bind, outcome_bind, hx s]
  rcases x.outcome s with ⟨failure | r, t⟩
  · rfl
  · exact hk r t

theorem get {k : State → Assembly α} {k' : State → Assembly α'}
    (hk : ∀ s, Commutes a h (k s) (k' (s.alter a))) :
    Commutes a h (MonadState.get >>= k) (MonadState.get >>= k') := by
  intro s
  rw [outcome_bind, outcome_bind]
  exact hk s s

theorem modify {u u' : State → State} (hu : ∀ s, u' (s.alter a) = (u s).alter a) :
    Commutes a id (modify u : Assembly Unit) (modify u' : Assembly Unit) := by
  intro s
  rw [outcome_modify, outcome_modify, hu]
  rfl

theorem log (event : Event) : Commutes a id (Assembly.log event) (Assembly.log event) :=
  fun _ => rfl

/-- Two computations that commute still do when both diagnostics are changed alike. -/
theorem mapDiagnostic {u u' : Diagnostic → Diagnostic} (hx : Commutes a h x x')
    (hu : ∀ d, u' (d.renumber a.number) = (u d).renumber a.number) :
    Commutes a h (Assembly.mapDiagnostic u x) (Assembly.mapDiagnostic u' x') := by
  intro s
  rw [outcome_mapDiagnostic, outcome_mapDiagnostic, hx s]
  rcases x.outcome s with ⟨failure | r, t⟩
  · cases failure with
    | refused d => simp [alteredOutcome, Failure.renumber, Failure.map, hu]
    | _ => rfl
  · rfl

theorem restoring (hx : Commutes a h x x') :
    Commutes a h (Assembly.restoring x) (Assembly.restoring x') := by
  intro s
  rw [outcome_restoring, outcome_restoring, hx s]
  rcases x.outcome s with ⟨failure | r, t⟩ <;> rfl

end Commutes

end Assembly

/-- The second way assembles altered lines, and the lines of a file as they are, to what the first
one comes to. -/
structure Elsewhere.Commutes (a : Alteration) (elsewhere elsewhere' : Elsewhere) : Prop where
  altered : ∀ context root lines, Assembly.Commutes a (Node.alterAll a)
    (elsewhere context root lines) (elsewhere' context root (alterAll a lines))
  parsed : ∀ context {template : List Char} {lines : List Line}, parseLines template = .ok lines →
    Assembly.Commutes a (Node.alterAll a) (elsewhere context true lines)
      (elsewhere' context true lines)

variable {elsewhere elsewhere' : Elsewhere} {context : Context}

/-! ## Expressions and definitions -/

theorem evaluate_commutes (expression : List Char) (line : Int) :
    Commutes a id (evaluate expression line) (evaluate expression (a.number line)) := by
  refine Commutes.get fun s => ?_
  rw [State.alter_constants]
  cases Expr.cssOf s.constants (String.ofList expression) with
  | ok css => exact Commutes.pure rfl
  | error refusal =>
      cases refusal with
      | fault fault => exact Commutes.refuse fault rfl
      | infiniteNumber => exact Commutes.throw .infiniteNumber

theorem attribute?_commutes (way : AttributeSyntax) (text : List Char) (line : Int) :
    Commutes a (Content.alter a) (attribute? context way text line)
      (attribute? context way text (a.number line)) := by
  unfold attribute?
  split
  · exact Commutes.refuse _ rfl
  · split
    · exact Commutes.refuse _ rfl
    · exact Commutes.bind (evaluate_commutes _ line) fun css => Commutes.pure rfl
    · exact Commutes.pure rfl

/-- A constant's definition reads no line but for the place of its failure. -/
theorem defineConstant_commutes (text : List Char) (line : Int) :
    Commutes a id (defineConstant text line) (defineConstant text (a.number line)) := by
  unfold defineConstant
  split
  · exact Commutes.refuse _ rfl
  · exact Commutes.bind (evaluate_commutes _ line) fun css => Commutes.modify fun s => rfl

/-- A mixin defined from altered lines holds the altered body. -/
theorem defineMixin_commutes (text : List Char) (body : List Line) (line : Int) :
    Commutes a id (defineMixin text body line)
      (defineMixin text (alterAll a body) (a.number line)) := by
  dsimp only [defineMixin]
  split
  · exact Commutes.refuse _ rfl
  · exact Commutes.modify fun s => s.set_alter _ body

/-! ## Inclusions and imports -/

/-- An inclusion commutes when the arranging of bodies does: a body is looked up altered. -/
theorem includeMixin_commutes (he : elsewhere.Commutes a elsewhere') (text : List Char)
    (line : Int) :
    Commutes a (Node.alterAll a) (includeMixin elsewhere context text line)
      (includeMixin elsewhere' context text (a.number line)) := by
  dsimp only [includeMixin]
  refine Commutes.get fun s => ?_
  rw [State.get?_alter]
  cases s.mixins.get? (String.ofList (Text.trim (text.drop 1))) with
  | none => exact Commutes.refuse _ rfl
  | some body =>
      dsimp only [Option.map_some]
      split
      · exact Commutes.refuse _ rfl
      · exact he.altered _ false body

/-- The tree of a parsed template; `document` is this after parsing. -/
def parsedDocument (elsewhere : Elsewhere) (context : Context)
    (parsed : Except Diagnostic (List Line)) : Assembly Node :=
  Assembly.mapDiagnostic
      (fun d => if d.backtrace.isEmpty then d.through context.filename none else d) do
    match parsed with
    | .error d => throw (.refused d)
    | .ok lines =>
      pure ⟨.root, none, context.filename, ← elsewhere context true lines⟩

theorem document_eq (template : String) :
    document elsewhere context template =
      parsedDocument elsewhere context (parseLines template.toList) := rfl

/-- Two parsed templates that have the same fault under other numbers, or lines that are assembled
alike. -/
theorem parsedDocument_commutes_of {parsed parsed' : Except Diagnostic (List Line)}
    (herror : ∀ d, parsed = .error d → parsed' = .error (d.renumber a.number))
    (hok : ∀ lines, parsed = .ok lines → ∃ lines', parsed' = .ok lines' ∧
      Commutes a (Node.alterAll a) (elsewhere context true lines)
        (elsewhere' context true lines')) :
    Commutes a (Node.alter a) (parsedDocument elsewhere context parsed)
      (parsedDocument elsewhere' context parsed') := by
  refine Commutes.mapDiagnostic ?_ fun d => ?_
  · cases parsed with
    | error d =>
        rw [herror d rfl]
        exact Commutes.throw (.refused d)
    | ok lines =>
        obtain ⟨lines', hlines', he⟩ := hok lines rfl
        rw [hlines']
        refine Commutes.bind he fun nodes => Commutes.pure ?_
        simp [Content.alter]
  · rw [Diagnostic.isEmpty_backtrace_renumber]
    split
    · exact (d.renumber_through context.filename none).symm
    · rfl

/-- A file is parsed under the numbers that are counted in it. -/
theorem parseLines_counted {f : Int → Int} (hf : FixesCounted f) (template : List Char) :
    parseLines template = renumbered f (renumberAll f) (parseLines template) := by
  refine parseLines_renumber (g := id) ?_ fun line hline => ?_
  · simp [renumberKept]
  · have hcounted := one_le_of_mem_keptLines hline
    exact (hf line.2 (by omega)).symm

/-- A file's lines are counted from one in both runs, so its text need not be altered. -/
theorem document_commutes (hf : FixesCounted a.number) (he : elsewhere.Commutes a elsewhere')
    (template : String) :
    Commutes a (Node.alter a) (document elsewhere context template)
      (document elsewhere' context template) := by
  rw [document_eq, document_eq]
  refine parsedDocument_commutes_of (fun d hd => ?_) fun lines hlines => ?_
  · have hcounted := parseLines_counted hf template.toList
    rwa [hd] at hcounted ⊢
  · exact ⟨lines, hlines, he.parsed context hlines⟩

theorem importFile_commutes (hf : FixesCounted a.number) (he : elsewhere.Commutes a elsewhere')
    (line : Int) (target path : String) :
    Commutes a (Node.alterAll a) (importFile elsewhere context line target path)
      (importFile elsewhere' context (a.number line) target path) := by
  unfold importFile
  split
  · exact Commutes.refuse _ rfl
  · exact Commutes.throw (.undecodable _ _)
  · refine Commutes.bind (Commutes.log _) fun _ => ?_
    refine Commutes.bind (h := Node.alter a) ?_ fun tree => Commutes.pure (by simp)
    refine Commutes.mapDiagnostic (Commutes.restoring (document_commutes hf he _)) fun d => ?_
    exact (d.renumber_through context.filename (some line)).symm

/-- The import of one target commutes, whether it is compiled or passed through. -/
theorem importTarget_commutes (hf : FixesCounted a.number) (he : elsewhere.Commutes a elsewhere')
    (line : Int) (target : List Char) :
    Commutes a (Node.alterAll a) (importTarget elsewhere context line target)
      (importTarget elsewhere' context (a.number line) target) := by
  have href : ∀ name, [reference context (a.number line) name] =
      Node.alterAll a [reference context line name] := by
    intro name
    simp [reference, Content.alter]
  dsimp only [importTarget]
  split
  · exact Commutes.bind (Commutes.log _) fun _ => importFile_commutes hf he line _ _
  · exact Commutes.bind (Commutes.log _) fun _ => Commutes.pure (href _)
  · exact Commutes.pure (href _)
  · exact Commutes.refuse _ rfl

/-- The import of a list of targets commutes, by induction on the list. -/
theorem importTargets_commutes (hf : FixesCounted a.number) (he : elsewhere.Commutes a elsewhere')
    (line : Int) (targets : List (List Char)) :
    Commutes a (Node.alterAll a) (importTargets elsewhere context line targets)
      (importTargets elsewhere' context (a.number line) targets) := by
  induction targets with
  | nil => exact Commutes.pure (by simp)
  | cons target targets ih =>
      rw [importTargets, importTargets]
      refine Commutes.bind (importTarget_commutes hf he line target) fun nodes => ?_
      exact Commutes.bind ih fun more => Commutes.pure (by simp)

/-! ## Lines -/

/-- What a line means is altered as the line is, shape by shape. -/
theorem meaning_commutes (context : Context) (hf : FixesCounted a.number)
    (he : elsewhere.Commutes a elsewhere') (line : Line) :
    Commutes a (Meaning.alter a (Content.alter a)) (meaning elsewhere context line)
      (meaning elsewhere' context (line.alter a)) := by
  simp only [meaning, Line.alter_text, alter_index]
  cases hshape : Shape.of line.text.toList with
  | attr way =>
      exact Commutes.bind (attribute?_commutes way _ _) fun content => Commutes.pure rfl
  | constant => exact Commutes.bind (defineConstant_commutes _ _) fun _ => Commutes.pure rfl
  | silentComment => exact Commutes.pure rfl
  | comment =>
      rw [Line.alter_children_of_covers (by rw [hshape]; rfl)]
      exact Commutes.pure rfl
  | directive =>
      dsimp only
      split
      · split
        · exact Commutes.refuse _ rfl
        · exact Commutes.bind (importTargets_commutes hf he _ _) fun nodes => Commutes.pure rfl
      · exact Commutes.pure rfl
  | escapedRule => exact Commutes.pure rfl
  | mixinDefinition =>
      rw [Line.alter_children (by rw [hshape]; rfl)]
      exact Commutes.bind (defineMixin_commutes _ _ _) fun _ => Commutes.pure rfl
  | mixinInclusion =>
      exact Commutes.bind (includeMixin_commutes he _ _) fun nodes => Commutes.pure rfl
  | rule => exact Commutes.pure rfl

theorem refuseNested_commutes (nested : Option Int) (found : Meaning Content) :
    Commutes a id (refuseNested nested found)
      (refuseNested (nested.map a.number) (found.alter a (Content.alter a))) := by
  cases nested with
  | none => cases found <;> exact Commutes.pure rfl
  | some line =>
      cases found with
      | constant => exact Commutes.refuse _ rfl
      | nodes origin nodes => exact Commutes.refuse _ rfl
      | item content => exact Commutes.pure rfl
      | mixin => exact Commutes.pure rfl
      | silent => exact Commutes.pure rfl

/-! ## Siblings -/

theorem place_commutes (root : Bool) (line : Int) (found : Meaning Node) :
    Commutes a (Node.alterAll a) (place root line found)
      (place root (a.number line) (found.alter a (Node.alter a))) := by
  cases found with
  | item node =>
      simp only [place, Meaning.alter, Node.isDirective_alter]
      split
      · exact Commutes.refuse _ rfl
      · exact Commutes.pure (by simp)
  | nodes origin nodes =>
      simp only [place, Meaning.alter, Node.any_isDirective_alterAll]
      split
      · exact Commutes.refuse _ rfl
      · exact Commutes.pure rfl
  | silent => exact Commutes.pure (by simp)
  | constant =>
      cases root with
      | true => exact Commutes.pure (by simp)
      | false => exact Commutes.refuse _ rfl
  | mixin =>
      cases root with
      | true => exact Commutes.pure (by simp)
      | false => exact Commutes.refuse _ rfl

/-- A rule after an open one takes the number of that one. -/
theorem continueRule_rule_commutes (root : Bool) (line : Int) (opened : Option OpenRule)
    (selectors : SelectorList) (number : Option Int) (filename : Option String)
    (children : List Node) :
    Commutes a (Prod.map (Node.alterAll a) (Option.map (OpenRule.renumber a.number)))
      (continueRule root line opened (.item ⟨.rule selectors, number, filename, children⟩))
      (continueRule root (a.number line) (opened.map (OpenRule.renumber a.number))
        (.item ⟨.rule selectors, number.map a.number, filename, Node.alterAll a children⟩)) := by
  have hjoin : OpenRule.join (opened.map (OpenRule.renumber a.number)) selectors
      ⟨.rule selectors, number.map a.number, filename, Node.alterAll a children⟩ =
      ((OpenRule.join opened selectors ⟨.rule selectors, number, filename, children⟩).1,
        (OpenRule.join opened selectors
          ⟨.rule selectors, number, filename, children⟩).2.alter a) := by
    cases opened <;> simp [OpenRule.join, OpenRule.renumber, Content.alter]
  simp only [continueRule, hjoin, Node.isEmpty_alterAll]
  rcases OpenRule.join opened selectors ⟨.rule selectors, number, filename, children⟩ with
    ⟨joined, ⟨content, line', filename', children'⟩⟩
  split
  · split
    · exact Commutes.pure (by simp [OpenRule.renumber])
    · exact Commutes.refuse _ rfl
  · exact Commutes.pure (by simp)

theorem continueRule_commutes (root : Bool) (line : Int) (opened : Option OpenRule)
    (found : Meaning Node) :
    Commutes a (Prod.map (Node.alterAll a) (Option.map (OpenRule.renumber a.number)))
      (continueRule root line opened found)
      (continueRule root (a.number line) (opened.map (OpenRule.renumber a.number))
        (found.alter a (Node.alter a))) := by
  have hplace : Commutes a (Prod.map (Node.alterAll a) (Option.map (OpenRule.renumber a.number)))
      (Likeness.placeClosed root line opened found)
      (Likeness.placeClosed root (a.number line) (opened.map (OpenRule.renumber a.number))
        (found.alter a (Node.alter a))) := by
    cases opened with
    | some first => exact Commutes.refuse _ rfl
    | none =>
        exact Commutes.bind (place_commutes root line found) fun nodes => Commutes.pure rfl
  cases found with
  | item node =>
      obtain ⟨content, number, filename, children⟩ := node
      simp only [Meaning.alter, Node.alter_mk] at hplace ⊢
      cases content with
      | rule selectors =>
          exact continueRule_rule_commutes root line opened selectors number filename children
      | _ => exact hplace
  | _ => exact hplace

theorem beneath_commutes (content : Content) {children : List Line}
    (h : Commutes a (Node.alterAll a) (arrange elsewhere context false none children)
      (arrange elsewhere' context false none (alterAll a children))) :
    Commutes a (Node.alterAll a) (beneath elsewhere context content children)
      (beneath elsewhere' context (content.alter a) (alterAll a children)) := by
  cases content with
  | comment text visible lines => exact Commutes.pure (by simp)
  | _ => exact h

/-- What stands beneath a comment does not matter to what is built. -/
theorem build_of_covers {text : String} (h : (Shape.of text.toList).covers = true)
    (depth index : Int) (children : List Line) :
    build elsewhere context ⟨text, depth, index, children⟩ =
      pure (match Shape.of text.toList with
        | .silentComment => .silent
        | _ => .item ⟨.comment text true children, index, context.filename, []⟩) := by
  rw [build_eq]
  cases hshape : Shape.of text.toList with
  | silentComment =>
      simp only [meaning, hshape, pure_bind]
      cases children <;> rfl
  | comment =>
      simp only [meaning, hshape, pure_bind]
      cases children <;> rfl
  | _ =>
      rw [hshape] at h
      cases h

mutual

/-- One line, with what is beneath it, commutes: what the line covers is altered as a whole. -/
theorem build_commutes (hf : FixesCounted a.number) (he : elsewhere.Commutes a elsewhere') :
    ∀ line : Line, Commutes a (Meaning.alter a (Node.alter a)) (build elsewhere context line)
      (build elsewhere' context (line.alter a))
  | ⟨text, depth, index, children⟩ => by
    cases hcovers : (Shape.of text.toList).covers with
    | true =>
        rw [Line.alter, build_of_covers hcovers, build_of_covers hcovers, if_pos hcovers]
        refine Commutes.pure ?_
        split <;> simp [Meaning.alter, Content.alter]
    | false =>
        have hmeaning := meaning_commutes context hf he ⟨text, depth, index, children⟩
        rw [Line.alter, hcovers, if_neg Bool.false_ne_true] at hmeaning ⊢
        rw [build_eq, build_eq]
        refine Commutes.bind hmeaning fun found => ?_
        have hhead : (alterAll a children).head?.map (·.index) =
            (children.head?.map (·.index)).map a.number := by
          cases children <;> simp
        rw [hhead]
        refine Commutes.bind (refuseNested_commutes _ found) fun _ => ?_
        cases found with
        | item content =>
            refine Commutes.bind
              (beneath_commutes content (arrange_commutes hf he false children none))
              fun nodes => Commutes.pure ?_
            simp [Meaning.alter]
        | constant => exact Commutes.pure rfl
        | mixin => exact Commutes.pure rfl
        | silent => exact Commutes.pure rfl
        | nodes origin nodes => exact Commutes.pure rfl

/-- Altered sibling lines come to the altered nodes. -/
theorem arrange_commutes (hf : FixesCounted a.number) (he : elsewhere.Commutes a elsewhere')
    (root : Bool) : ∀ (lines : List Line) (opened : Option OpenRule),
      Commutes a (Node.alterAll a) (arrange elsewhere context root opened lines)
        (arrange elsewhere' context root (opened.map (OpenRule.renumber a.number))
          (alterAll a lines))
  | [], none => by
    rw [alterAll_nil, Option.map_none, arrange, arrange]
    exact Commutes.pure (by simp)
  | [], some first => by
    rw [alterAll_nil, Option.map_some, arrange, arrange]
    exact Commutes.refuse _ rfl
  | line :: lines, opened => by
    rw [alterAll_cons, arrange_cons, arrange_cons, alter_index]
    refine Commutes.bind (build_commutes hf he line) fun found => ?_
    refine Commutes.bind (continueRule_commutes root line.index opened found) fun result => ?_
    obtain ⟨nodes, left⟩ := result
    exact Commutes.bind (arrange_commutes hf he root lines left) fun more =>
      Commutes.pure (by simp)

end

end Stylesheet
