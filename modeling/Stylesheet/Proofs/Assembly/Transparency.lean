import Mathlib
import Stylesheet.Proofs.Assembly.TwoRuns

/-!
# Inclusions and imports are transparent

A line that includes a mixin may be replaced by the body of the mixin, and a line that imports a
file by the lines of the file. What stands elsewhere is assembled one level deeper, in another
context, and its nodes are put in place as they are; the comparison with the plain siblings is a
run side by side (`arrange_matches`) between the two contexts, which differ in the mixins that are
being included or in the file.

A limit on nesting that is enough for the longer way is enough for plain siblings; only the way
back from the lines of a file to the import takes one level of nesting more.

* `inlined_mixin` : an inclusion gives what the body in its place gives.
* `inlined_import` : an import gives what the lines in its place give, up to the names of files,
  and the other way round where no selector list is open around it.
-/

namespace Stylesheet

open Assembly

/-- The constants and mixins in effect, without the log. -/
def State.tables (state : State) : Constants × Mixins :=
  (state.constants, state.mixins)

variable {context : Context} {root : Bool} {limit limit' : Nat}

/-! ## Runs that may only differ in the files of nodes -/

namespace Likeness

/-- Successful runs over the same lines, for the same files or perhaps for other ones. -/
abbrev sameLines (sameFiles : Prop) : Likeness :=
  successful True sameFiles fun _ => False

section

variable {sameFiles : Prop}

theorem sameLines_number_eq {n n' : Int} (h : (sameLines sameFiles).number n n') : n = n' :=
  h trivial

theorem sameLines_not_gone (line : Line) : ¬ (sameLines sameFiles).gone line :=
  fun h => h.2

/-- States are alike here exactly when their tables are the same. -/
theorem sameLines_states_iff {s s' : State} :
    (sameLines sameFiles).States s s' ↔ s'.tables = s.tables := by
  constructor
  · intro h
    exact Prod.ext h.constants.symm (h.mixins.eq sameLines_number_eq sameLines_not_gone).symm
  · intro h
    obtain ⟨hc, hm⟩ := Prod.mk.inj h
    refine ⟨hc.symm, ?_⟩
    rw [hm]
    exact Mixins.refl _

/-- Sibling lines that can be arranged can be arranged in a context that is alike, with more room
for nesting, and from any state with the same tables. -/
theorem arrange_sameLines {context' : Context}
    (hcontext : (sameLines sameFiles).Contexts context context')
    (hle : limit ≤ limit') {opened : Option OpenRule} {lines : List Line}
    {before before' after : State} {nodes : List Node} (hbefore : before'.tables = before.tables)
    (h : (arrange (assemble limit) context root opened lines).outcome before =
      (.ok nodes, after)) :
    ∃ nodes' after',
      (arrange (assemble limit') context' root opened lines).outcome before' =
        (.ok nodes', after') ∧
      (sameLines sameFiles).Nodes nodes nodes' ∧ after'.tables = after.tables := by
  have helsewheres : (sameLines sameFiles).Elsewheres (assemble limit)
      (assemble limit') :=
    assemble_elsewheres (.inr ⟨trivial, hle⟩)
  obtain ⟨nodes', after', hrun, hn, ht⟩ :=
    (arrange_matches helsewheres hcontext (.refl lines) root (Opened.refl opened)).ok_of_ok
      (sameLines_states_iff.mpr hbefore) h
  exact ⟨nodes', after', hrun, hn, sameLines_states_iff.mp ht⟩

end

/-- Where the files are the same, too, the nodes are equal. -/
theorem sameLines_nodes_eq {xs ys : List Node} (h : (sameLines True).Nodes xs ys) : xs = ys :=
  h.eq sameLines_number_eq sameLines_not_gone fun hf => hf trivial

end Likeness

open Likeness

/-- In the same file sibling lines come to the same nodes. -/
theorem arrange_of_le (hle : limit ≤ limit') {opened : Option OpenRule} {lines : List Line}
    {before before' after : State} {nodes : List Node} (hbefore : before'.tables = before.tables)
    (h : (arrange (assemble limit) context root opened lines).outcome before =
      (.ok nodes, after)) :
    ∃ after', (arrange (assemble limit') context root opened lines).outcome before' =
        (.ok nodes, after') ∧ after'.tables = after.tables := by
  have hcontext : (sameLines True).Contexts context context := .refl context
  obtain ⟨nodes', after', hrun, hn, hafter⟩ := arrange_sameLines hcontext hle hbefore h
  rw [← sameLines_nodes_eq hn] at hrun
  exact ⟨after', hrun, hafter⟩

/-! ## Inclusions -/

/-- The name of the mixin that a line includes or defines. -/
def Line.mixinName (line : Line) : String :=
  String.ofList (Text.trim (line.text.toList.drop 1))

/-- An inclusion that succeeds is its body, assembled one mixin deeper. -/
theorem includeMixin_eq_ok {elsewhere : Elsewhere} (line : Line) {before after : State}
    {nodes : List Node}
    (h : (includeMixin elsewhere context line.text.toList line.index).outcome before =
      (.ok nodes, after)) :
    ∃ body, before.mixins.get? line.mixinName = some body ∧
      (elsewhere { context with including := line.mixinName :: context.including } false
        body).outcome before = (.ok nodes, after) := by
  dsimp only [includeMixin] at h
  obtain ⟨state, s, hget, h⟩ := outcome_bind_eq_ok_iff.mp h
  cases hget
  split at h
  · cases h
  · next body hbody =>
      split at h
      · cases h
      · exact ⟨body, hbody, h⟩

/-- A line that includes comes to the nodes of the body that is defined. -/
theorem build_inclusion {elsewhere : Elsewhere} {line : Line}
    (hshape : Shape.of line.text.toList = .mixinInclusion) {before after : State}
    {found : Meaning Node}
    (h : (build elsewhere context line).outcome before = (.ok found, after)) :
    ∃ body nodes, found = .nodes .mixin nodes ∧
      before.mixins.get? line.mixinName = some body ∧
      (elsewhere { context with including := line.mixinName :: context.including } false
        body).outcome before = (.ok nodes, after) := by
  obtain ⟨text, depth, index, children⟩ := line
  rw [build_eq] at h
  simp only [meaning, hshape, bind_assoc, pure_bind] at h
  obtain ⟨nodes, s, hinclude, h⟩ := outcome_bind_eq_ok_iff.mp h
  obtain ⟨_, t, hnested, h⟩ := outcome_bind_eq_ok_iff.mp h
  obtain ⟨body, hbody, hrun⟩ :=
    includeMixin_eq_ok ⟨text, depth, index, children⟩ hinclude
  cases h
  cases children with
  | nil =>
      cases hnested
      exact ⟨body, nodes, rfl, hbody, hrun⟩
  | cons child rest => cases hnested

/-- The body of a mixin comes to the same nodes in the place of a line that includes it. -/
theorem arrange_body (root : Bool) {name : String} {body : List Line} {before after : State}
    {nodes : List Node}
    (h : (assemble limit { context with including := name :: context.including } false
      body).outcome before = (.ok nodes, after)) :
    ∃ after', (arrange (assemble limit) context root none body).outcome before =
        (.ok nodes, after') ∧ after'.tables = after.tables := by
  cases limit with
  | zero => cases h
  | succ limit =>
      have hcontext : (sameLines True).Contexts
          { context with including := name :: context.including } context :=
        ⟨rfl, rfl, rfl, fun _ => rfl, .inr ⟨fun _ => trivial, List.subset_cons_self _ _⟩⟩
      obtain ⟨nodes', after', hrun, hn, hafter⟩ :=
        arrange_sameLines hcontext (Nat.le_succ limit) rfl h
      rw [← sameLines_nodes_eq hn] at hrun
      exact ⟨after', arrange_root_of_inner hrun, hafter⟩

/-- **An inclusion is transparent.** If sibling lines with an inclusion among them come to nodes,
at the root or not, then a body is defined where the inclusion stands, and the siblings with this
body in its place come to the same nodes and leave the same constants and mixins. -/
theorem inlined_mixin {pre post : List Line} {inclusion : Line} {before after : State}
    {nodes : List Node} (hshape : Shape.of inclusion.text.toList = .mixinInclusion)
    (h : (arrange (assemble limit) context root none (pre ++ inclusion :: post)).outcome before =
      (.ok nodes, after)) :
    ∃ first middle body after',
      (arrange (assemble limit) context root none pre).outcome before = (.ok first, middle) ∧
      middle.mixins.get? inclusion.mixinName = some body ∧
      (arrange (assemble limit) context root none (pre ++ body ++ post)).outcome before =
        (.ok nodes, after') ∧
      after'.tables = after.tables := by
  obtain ⟨first, left, middle, more, hpre, hrest, rfl⟩ := arrange_append_eq_ok_iff.mp h
  obtain ⟨found, s, placed, left', t, last, hbuild, hcontinue, hpost, rfl⟩ :=
    arrange_cons_eq_ok_iff.mp hrest
  obtain ⟨body, inserted, rfl, hbody, hinner⟩ := build_inclusion hshape hbuild
  -- the nodes of the body are put in place as they are, and no rule is open before or after them
  obtain ⟨rfl, rfl, rfl, rfl⟩ := continueRule_nodes_eq_ok hcontinue
  obtain ⟨s', hplain, htables⟩ := arrange_body root hinner
  obtain ⟨after', hpost', hafter⟩ := arrange_of_le (Nat.le_refl limit) htables hpost
  refine ⟨first, middle, body, after', arrange_eq_ok_iff.mpr hpre, hbody, ?_, hafter⟩
  rw [List.append_assoc]
  refine arrange_append_eq_ok_iff.mpr ⟨first, none, middle, placed ++ last, hpre, ?_, rfl⟩
  exact arrange_append_eq_ok_iff.mpr
    ⟨placed, none, s', last, arrange_eq_ok_iff.mp hplain, hpost', rfl⟩

/-- The body leaves a selector list open for a while and includes another mixin. -/
theorem inlined_mixin_of_selector_list :
    let context : Context := { options := {}, disk := Disk.ofKnown [] }
    let body : List Line := [⟨"a,", 1, 4, []⟩, ⟨"b", 1, 5, [⟨"+n", 2, 6, []⟩]⟩]
    let pre : List Line := [⟨"=n", 0, 1, [⟨":p q", 1, 2, []⟩]⟩, ⟨"=m", 0, 3, body⟩]
    let inclusion : Line := ⟨"+m", 0, 7, []⟩
    let post : List Line := [⟨"c", 0, 8, []⟩]
    let nodes : List Node :=
      [⟨.rule ⟨["a", "b"], false⟩, some 4, none, [⟨.attr "p" "q", some 2, none, []⟩]⟩,
        ⟨.rule ⟨["c"], false⟩, some 8, none, []⟩]
    let after : State := { mixins := ⟨[("n", [⟨":p q", 1, 2, []⟩]), ("m", body)]⟩ }
    Shape.of inclusion.text.toList = .mixinInclusion ∧
    (arrange (assemble 3) context true none (pre ++ inclusion :: post)).outcome {} =
      (.ok nodes, after) ∧
    ∃ first middle body after',
      (arrange (assemble 3) context true none pre).outcome {} = (.ok first, middle) ∧
      middle.mixins.get? inclusion.mixinName = some body ∧
      (arrange (assemble 3) context true none (pre ++ body ++ post)).outcome {} =
        (.ok nodes, after') ∧
      after'.tables = after.tables := by
  intro context body pre inclusion post nodes after
  have hshape : Shape.of inclusion.text.toList = .mixinInclusion := by cbv
  have h : (arrange (assemble 3) context true none (pre ++ inclusion :: post)).outcome {} =
      (.ok nodes, after) := by
    dsimp only [context, body, pre, inclusion, post, nodes, after]
    cbv
  exact ⟨hshape, h, inlined_mixin hshape h⟩

/-! ## Imports -/

namespace Node

mutual

/-- A node without the names of the files that it and what is beneath it come from. -/
def unattributed : Node → Node
  | ⟨content, line, _, children⟩ => ⟨content, line, none, unattributedAll children⟩

def unattributedAll : List Node → List Node
  | [] => []
  | node :: nodes => node.unattributed :: unattributedAll nodes

end

theorem unattributedAll_append (xs ys : List Node) :
    unattributedAll (xs ++ ys) = unattributedAll xs ++ unattributedAll ys := by
  induction xs with
  | nil => simp [unattributedAll]
  | cons node xs ih => simp [unattributedAll, ih]

end Node

/-- Forests that are alike but for the files are the same without them. -/
theorem Likeness.sameLines_unattributed {xs ys : List Node} (h : (sameLines False).Nodes xs ys) :
    Node.unattributedAll xs = Node.unattributedAll ys := by
  induction h with
  | nil => rfl
  | cons hc hl _ _ _ ihch ihrest =>
      simp only [Node.unattributedAll, Node.unattributed]
      rw [hc.eq sameLines_number_eq sameLines_not_gone, line_eq sameLines_number_eq hl, ihch, ihrest]

/-- The context in which a file is assembled that is imported. -/
def Context.inFile (context : Context) (path : String) : Context :=
  { context with options := context.options.withFilename path, including := [] }

/-- A line beneath which nothing is nested and which imports one file, the one at the path, whose
lines are given. -/
structure Line.ImportsFile (line : Line) (context : Context) (path : String)
    (lines : List Line) : Prop where
  shape : Shape.of line.text.toList = .directive
  childless : line.children = []
  found : ∃ value target,
    directiveParts line.text.toList = ("import".toList, some value) ∧
    isReference value = false ∧ Import.targets value = [target] ∧
    Import.resolve context.disk.isFile target context.options.loadPaths = .file path
  parsed : ∃ template, context.disk.readText path = .ok template ∧
    parseLines template.toList = .ok lines

/-- A document that succeeds is a root over its arranged lines. -/
theorem document_eq_ok_iff {elsewhere : Elsewhere} {template : String} {lines : List Line}
    (hparse : parseLines template.toList = .ok lines) {before after : State} {tree : Node} :
    (document elsewhere context template).outcome before = (.ok tree, after) ↔
      ∃ nodes, tree = ⟨.root, none, context.filename, nodes⟩ ∧
        (elsewhere context true lines).outcome before = (.ok nodes, after) := by
  unfold document
  rw [outcome_mapDiagnostic_eq_ok_iff, hparse]
  dsimp only
  rw [outcome_bind_eq_ok_iff]
  constructor
  · rintro ⟨nodes, s, hrun, hpure⟩
    cases hpure
    exact ⟨nodes, rfl, hrun⟩
  · rintro ⟨nodes, rfl, hrun⟩
    exact ⟨nodes, after, hrun, rfl⟩

/-- A file that can be read comes to the nodes of its lines, in a context of its own. -/
theorem importFile_eq_ok_iff {elsewhere : Elsewhere} {path template : String}
    {lines : List Line} (htext : context.disk.readText path = .ok template)
    (hparse : parseLines template.toList = .ok lines) (number : Int) (target : String)
    {before after : State} {nodes : List Node} :
    (importFile elsewhere context number target path).outcome before = (.ok nodes, after) ↔
      (elsewhere (context.inFile path) true lines).outcome
        { before with events := .importing path context.filename :: before.events } =
        (.ok nodes, after) := by
  unfold importFile
  rw [htext]
  dsimp only
  rw [outcome_bind, outcome_log]
  dsimp only
  rw [outcome_bind_eq_ok_iff]
  simp only [outcome_mapDiagnostic_eq_ok_iff, outcome_restoring_eq_ok_iff,
    document_eq_ok_iff hparse]
  constructor
  · rintro ⟨_, s, ⟨nodes, rfl, hrun⟩, hpure⟩
    cases hpure
    exact hrun
  · intro hrun
    exact ⟨_, after, ⟨nodes, rfl, hrun⟩, rfl⟩

/-- A target that is found comes to the nodes of the lines of its file, in a context of its own. -/
theorem importTarget_eq_ok_iff {elsewhere : Elsewhere} {target : List Char} {path template : String}
    {lines : List Line}
    (hpath : Import.resolve context.disk.isFile target context.options.loadPaths = .file path)
    (htext : context.disk.readText path = .ok template)
    (hparse : parseLines template.toList = .ok lines) (number : Int) {before after : State}
    {nodes : List Node} :
    (importTarget elsewhere context number target).outcome before = (.ok nodes, after) ↔
      (elsewhere (context.inFile path) true lines).outcome
        { before with events := (.importing path context.filename ::
            (.resolved (String.ofList target) path :: before.events)) } = (.ok nodes, after) := by
  unfold importTarget
  rw [hpath]
  dsimp only
  rw [outcome_bind, outcome_log]
  exact importFile_eq_ok_iff htext hparse number _

/-- A line that imports one file comes to the nodes of the lines of that file. -/
theorem build_import (elsewhere : Elsewhere) {line : Line} {path : String} {lines : List Line}
    (h : line.ImportsFile context path lines) (before : State) :
    ∃ events, ∀ {found : Meaning Node} {after : State},
      (build elsewhere context line).outcome before = (.ok found, after) ↔
        ∃ nodes, found = .nodes .imports nodes ∧
          (elsewhere (context.inFile path) true lines).outcome
            { before with events := events } = (.ok nodes, after) := by
  obtain ⟨text, depth, number, children⟩ := line
  obtain ⟨hshape, hchildless, ⟨value, target, hparts, href, htargets, hresolve⟩, template, htext,
    hparse⟩ := h
  dsimp only at hshape hchildless hparts
  refine ⟨.importing path context.filename :: .resolved (String.ofList target) path ::
    before.events, fun {found after} => ?_⟩
  rw [build_eq]
  simp only [meaning, hshape, hparts, isImport, href, Option.any_some, Bool.not_false,
    beq_self_eq_true, Bool.and_self, if_true, htargets, importTargets, hchildless, bind_assoc,
    pure_bind, List.append_nil]
  rw [outcome_bind_eq_ok_iff]
  simp only [importTarget_eq_ok_iff hresolve htext hparse]
  constructor
  · rintro ⟨nodes, s, hrun, hpure⟩
    cases hpure
    exact ⟨nodes, rfl, hrun⟩
  · rintro ⟨nodes, rfl, hrun⟩
    exact ⟨nodes, after, hrun, rfl⟩

/-- Two forests that are the same up to the files that their nodes come from. -/
def Node.SameButFiles (xs ys : List Node) : Prop :=
  unattributedAll xs = unattributedAll ys

/-- The lines of a file come to the same nodes where they stand in the place of the import. -/
theorem arrange_file {path : String} {lines : List Line} (hincluding : context.including = [])
    {before before' after : State} {nodes : List Node} (hbefore : before'.tables = before.tables)
    (h : (assemble limit (context.inFile path) true lines).outcome before = (.ok nodes, after)) :
    ∃ nodes' after', (arrange (assemble limit) context true none lines).outcome before' =
        (.ok nodes', after') ∧
      Node.SameButFiles nodes nodes' ∧ after'.tables = after.tables := by
  cases limit with
  | zero => cases h
  | succ limit =>
      have hcontext : (sameLines False).Contexts (context.inFile path) context :=
        ⟨rfl, rfl, rfl, False.elim, .inl hincluding.symm⟩
      obtain ⟨nodes', after', hrun, hn, hafter⟩ :=
        arrange_sameLines hcontext (Nat.le_succ limit) hbefore h
      exact ⟨nodes', after', hrun, sameLines_unattributed hn, hafter⟩

/-- The lines in the place of an import come to the same nodes where they are a file. -/
theorem assemble_inFile {path : String} {lines : List Line} (hincluding : context.including = [])
    {before before' after : State} {nodes : List Node} (hbefore : before'.tables = before.tables)
    (h : (arrange (assemble limit) context true none lines).outcome before = (.ok nodes, after)) :
    ∃ nodes' after', (assemble (limit + 1) (context.inFile path) true lines).outcome before' =
        (.ok nodes', after') ∧
      Node.SameButFiles nodes nodes' ∧ after'.tables = after.tables := by
  have hcontext : (sameLines False).Contexts context (context.inFile path) :=
    ⟨rfl, rfl, rfl, False.elim, .inl hincluding⟩
  obtain ⟨nodes', after', hrun, hn, hafter⟩ :=
    arrange_sameLines hcontext (Nat.le_refl limit) hbefore h
  exact ⟨nodes', after', hrun, sameLines_unattributed hn, hafter⟩

theorem Node.SameButFiles.around {xs xs' : List Node} (h : SameButFiles xs xs')
    (before after : List Node) :
    SameButFiles (before ++ (xs ++ after)) (before ++ (xs' ++ after)) := by
  unfold SameButFiles at *
  simp only [unattributedAll_append, h]

/-- Lines after which no selector list is open, if the end of them is reached at all. -/
def ClosedAfter (elsewhere : Elsewhere) (context : Context) (lines : List Line) (before : State) :
    Prop :=
  ∀ nodes left after,
    (advance elsewhere context true none lines).outcome before = (.ok (nodes, left), after) →
      left = none

/-- Siblings that are arranged leave no list of selectors open. -/
theorem closedAfter_of_arrange {elsewhere : Elsewhere} {lines : List Line}
    {before after : State} {nodes : List Node}
    (h : (arrange elsewhere context true none lines).outcome before = (.ok nodes, after)) :
    ClosedAfter elsewhere context lines before := by
  intro found left state hfound
  rw [arrange_eq_ok_iff.mp h] at hfound
  cases hfound
  rfl

/-- **An import is transparent.** If lines with an import of one file among them come to nodes at
the root, then the same lines with those of the file in the place of the import do, and constants
and mixins are the same afterwards. The converse holds where no selector list is open before the
lines of the file or after them; the import then takes one more level of nesting. -/
theorem inlined_import {line : Line} {path : String} {lines : List Line}
    (himport : line.ImportsFile context path lines) (hincluding : context.including = [])
    (limit : Nat) (pre post : List Line) (before : State) :
    (∀ nodes after,
      (arrange (assemble limit) context true none (pre ++ line :: post)).outcome before =
        (.ok nodes, after) →
      ∃ nodes' after',
        (arrange (assemble limit) context true none (pre ++ lines ++ post)).outcome before =
          (.ok nodes', after') ∧
        Node.SameButFiles nodes nodes' ∧ after'.tables = after.tables) ∧
    (ClosedAfter (assemble limit) context pre before →
      ClosedAfter (assemble limit) context (pre ++ lines) before →
      ∀ nodes after,
        (arrange (assemble limit) context true none (pre ++ lines ++ post)).outcome before =
          (.ok nodes, after) →
        ∃ nodes' after',
          (arrange (assemble (limit + 1)) context true none (pre ++ line :: post)).outcome before =
            (.ok nodes', after') ∧
          Node.SameButFiles nodes nodes' ∧ after'.tables = after.tables) := by
  constructor
  · intro nodes after h
    obtain ⟨first, left, middle, rest, hpre, hrest, rfl⟩ := arrange_append_eq_ok_iff.mp h
    obtain ⟨found, s, placed, left', t, last, hbuild, hcontinue, hpost, rfl⟩ :=
      arrange_cons_eq_ok_iff.mp hrest
    obtain ⟨events, hiff⟩ := build_import (assemble limit) himport middle
    obtain ⟨inserted, rfl, hinner⟩ := hiff.mp hbuild
    obtain ⟨rfl, rfl, rfl, rfl⟩ := continueRule_nodes_eq_ok hcontinue
    -- the log tells of the import, the tables are still the same
    have hmiddle : middle.tables = { middle with events := events : State }.tables := rfl
    obtain ⟨inserted, s', hplain, hsame, htables⟩ := arrange_file hincluding hmiddle hinner
    obtain ⟨after', hpost', hafter⟩ := arrange_of_le (Nat.le_refl limit) htables hpost
    refine ⟨first ++ (inserted ++ last), after', ?_, hsame.around first last, hafter⟩
    rw [List.append_assoc]
    refine arrange_append_eq_ok_iff.mpr ⟨first, none, middle, _, hpre, ?_, rfl⟩
    exact arrange_append_eq_ok_iff.mpr
      ⟨inserted, none, s', last, arrange_eq_ok_iff.mp hplain, hpost', rfl⟩
  · intro hpreClosed hclosed nodes after h
    -- the siblings are cut after the lines of the file, and what comes first is cut before them
    obtain ⟨opening, left', s, last, hlines, hpost, rfl⟩ := arrange_append_eq_ok_iff.mp h
    have hleft' : left' = none := hclosed _ _ _ hlines
    subst hleft'
    obtain ⟨first, left, middle, inserted, hpre, hinserted, rfl⟩ :=
      arrange_append_eq_ok_iff.mp (arrange_eq_ok_iff.mpr hlines)
    have hleft : left = none := hpreClosed _ _ _ hpre
    subst hleft
    obtain ⟨middle', hpre', hmiddle⟩ :=
      arrange_of_le (Nat.le_succ limit) rfl (arrange_eq_ok_iff.mpr hpre)
    obtain ⟨events, hiff⟩ := build_import (assemble (limit + 1)) himport middle'
    have hlogged : { middle' with events := events : State }.tables = middle.tables := hmiddle
    obtain ⟨placed, s', hinner, hsame, htables⟩ := assemble_inFile hincluding hlogged hinserted
    obtain ⟨after', hpost', hafter⟩ := arrange_of_le (Nat.le_succ limit) htables hpost
    have hbuild := hiff.mpr ⟨placed, rfl, hinner⟩
    refine ⟨first ++ (placed ++ last), after', ?_, ?_, hafter⟩
    · refine arrange_append_eq_ok_iff.mpr
        ⟨first, none, middle', _, arrange_eq_ok_iff.mp hpre', ?_, rfl⟩
      exact arrange_cons_eq_ok_iff.mpr
        ⟨_, s', placed, none, s', last, hbuild, continueRule_nodes_root _ _ _ _, hpost', rfl⟩
    · rw [List.append_assoc]
      exact hsame.around first last

/-- The file defines a mixin and includes it, and so does what follows the import. -/
theorem inlined_import_of_mixin :
    let context : Context := {
      options := {}
      disk := Disk.ofKnown [("./_f.sass", .ok [61, 109, 10, 32, 98, 10, 43, 109])] }
    let line : Line := ⟨"@import f", 0, 2, []⟩
    let lines : List Line := [⟨"=m", 0, 1, [⟨"b", 1, 2, []⟩]⟩, ⟨"+m", 0, 3, []⟩]
    let pre : List Line := [⟨"a", 0, 1, []⟩]
    let post : List Line := [⟨"c", 0, 3, [⟨"+m", 1, 4, []⟩]⟩]
    let nodes : List Node :=
      [⟨.rule ⟨["a"], false⟩, some 1, none, []⟩, ⟨.rule ⟨["b"], false⟩, some 2, none, []⟩,
        ⟨.rule ⟨["c"], false⟩, some 3, none, [⟨.rule ⟨["b"], false⟩, some 2, none, []⟩]⟩]
    let after : State := { mixins := ⟨[("m", [⟨"b", 1, 2, []⟩])]⟩ }
    line.ImportsFile context "./_f.sass" lines ∧
    ClosedAfter (assemble 3) context pre {} ∧ ClosedAfter (assemble 3) context (pre ++ lines) {} ∧
    (arrange (assemble 3) context true none (pre ++ lines ++ post)).outcome {} =
      (.ok nodes, after) ∧
    ∃ imported after',
      (arrange (assemble 4) context true none (pre ++ line :: post)).outcome {} =
        (.ok imported, after') ∧
      Node.SameButFiles nodes imported ∧ after'.tables = after.tables ∧
    ∃ inlined after'',
      (arrange (assemble 4) context true none (pre ++ lines ++ post)).outcome {} =
        (.ok inlined, after'') ∧
      Node.SameButFiles imported inlined ∧ after''.tables = after'.tables := by
  intro context line lines pre post nodes after
  have himport : line.ImportsFile context "./_f.sass" lines :=
    ⟨by cbv, rfl, ⟨"f".toList, "f".toList, by cbv, by cbv, by cbv, rfl⟩,
      "=m\n b\n+m", by cbv, by cbv⟩
  have hplain : (arrange (assemble 3) context true none (pre ++ lines ++ post)).outcome {} =
      (.ok nodes, after) := by
    dsimp only [context, lines, pre, post, nodes, after]
    cbv
  have hpre : (arrange (assemble 3) context true none pre).outcome {} =
      (.ok (nodes.take 1), {}) := by
    dsimp only [context, pre, nodes]
    cbv
  have hlines : (arrange (assemble 3) context true none (pre ++ lines)).outcome {} =
      (.ok (nodes.take 2), after) := by
    dsimp only [context, lines, pre, nodes, after]
    cbv
  obtain ⟨imported, after', himported, hsame, htables⟩ :=
    (inlined_import himport rfl 3 pre post {}).2 (closedAfter_of_arrange hpre)
      (closedAfter_of_arrange hlines) _ _ hplain
  exact ⟨himport, closedAfter_of_arrange hpre, closedAfter_of_arrange hlines, hplain, imported,
    after', himported, hsame, htables, (inlined_import himport rfl 4 pre post {}).1 _ _ himported⟩

end Stylesheet
