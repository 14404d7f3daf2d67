import Mathlib
import Stylesheet.Proofs.Assembly.Sources

/-!
# What nodes have from their lines

Nodes come from lines, wherever the lines stand: in the template, in an imported file or in the body
of a mixin. A trait that every line gives to the node it tells of, and that an open rule keeps when
it is continued, is one of all nodes of an assembled tree. This is shown here once for all traits;
what is particular to one of them are the fields of `Sources.GivesOver`, or the two of
`Sources.Gives` if the trait does not depend on the values of constants.

The state of the assembly matters as far as it holds the bodies of mixins and the values of
constants. That the bodies are lines of the compilation and that the values are as said is the
invariant `Sources.KnowsOver`.

* `meaning_tells` : what a line means by itself.
* `arrange_keepsTrait` : sibling lines, by induction on the lines.
* `Trait.on_of_assembleTemplate_over`, `Trait.on_of_assembleTemplate` : whole trees.
-/

namespace Stylesheet

open Assembly

variable {src : Sources} {K : String → Prop}

/-! ## Traits -/

/-- What a line tells of a node; the selectors of a rule are those of this line alone. -/
inductive Line.Tells (src : Sources) (line : Line) : Content → Prop
  | rule : Shape.of line.text.toList = .rule → Tells src line (.rule (.ofText line.text.toList))
  | escapedRule : Shape.of line.text.toList = .escapedRule →
      Tells src line (.rule (.ofText (line.text.toList.drop 1)))
  | other {content : Content} : line.Writes src content → (∀ selectors, content ≠ .rule selectors) →
      Tells src line content

/-- What a line tells of a node where all constants have values as said. -/
structure Line.TellsOver (src : Sources) (K : String → Prop) (line : Line) (content : Content) :
    Prop where
  tells : line.Tells src content
  computed : ∀ {way : AttributeSyntax} {name value : List Char},
    Shape.of line.text.toList = .attr way →
    attributeParts? way line.text.toList = some ⟨name, true, value⟩ →
    ∃ (constants : Constants) (css : String), constants.All K ∧
      Expr.cssOf constants (String.ofList value) = .ok css ∧
      content = .attr (String.ofList name) css

/-- Only attributes are computed. -/
theorem Line.Tells.over {line : Line} {content : Content} (h : line.Tells src content)
    (hshape : ∀ way, Shape.of line.text.toList ≠ .attr way) : line.TellsOver src K content :=
  ⟨h, fun hattr _ => absurd hattr (hshape _)⟩

/-- A property of what a node is, together with the file and the line that it names. -/
abbrev Trait := Option String → Option Int → Content → Prop

/-- Every line gives the trait to what it tells of, and an open rule keeps it when it is continued.
-/
structure Sources.Gives (src : Sources) (P : Trait) : Prop where
  told : ∀ {filename : Option String} {line : Line} {content : Content},
    src.Allows filename line → line.Tells src content → P filename (some line.index) content
  joined : ∀ {filename filename' : Option String} {number number' : Option Int}
    {selectors more : SelectorList}, P filename number (.rule selectors) →
    selectors.continued = true → P filename' number' (.rule more) →
    P filename number (.rule (selectors.append more))

/-- Every line gives the trait to what it tells of as long as all constants have values as said, no
line defines a constant with another value, and an open rule keeps the trait when it is continued.
-/
structure Sources.GivesOver (src : Sources) (K : String → Prop) (P : Trait) : Prop where
  told : ∀ {filename : Option String} {line : Line} {content : Content},
    src.Allows filename line → line.TellsOver src K content → P filename (some line.index) content
  joined : ∀ {filename filename' : Option String} {number number' : Option Int}
    {selectors more : SelectorList}, P filename number (.rule selectors) →
    selectors.continued = true → P filename' number' (.rule more) →
    P filename number (.rule (selectors.append more))
  kept : ∀ {filename : Option String} {line : Line} {parts : ConstantParts}
    {constants : Constants} {css : String}, src.Allows filename line →
    constantParts? line.text.toList = some parts → constants.All K →
    Expr.cssOf constants (String.ofList parts.value) = .ok css → K css

/-- A trait that all lines give does not depend on the values of constants. -/
theorem Sources.Gives.over {P : Trait} (hP : src.Gives P) : src.GivesOver (fun _ => True) P where
  told hallows htells := hP.told hallows htells.tells
  joined := hP.joined
  kept _ _ _ _ := trivial

namespace Trait

variable {P : Trait}

def On (P : Trait) (nodes : List Node) : Prop :=
  ∀ node ∈ Node.walkAll nodes, P node.filename node.line node.content

theorem on_nil : P.On [] := by
  simp [On, Node.walkAll]

theorem On.append {xs ys : List Node} (hx : P.On xs) (hy : P.On ys) : P.On (xs ++ ys) := by
  intro node hnode
  obtain ⟨top, htop, hnode⟩ := Node.mem_walkAll_iff.mp hnode
  rcases List.mem_append.mp htop with htop | htop
  · exact hx node (Node.mem_walkAll_iff.mpr ⟨top, htop, hnode⟩)
  · exact hy node (Node.mem_walkAll_iff.mpr ⟨top, htop, hnode⟩)

/-- A node with the trait over nodes that have it. -/
theorem on_singleton {node : Node} (h : P node.filename node.line node.content)
    (hchildren : P.On node.children) : P.On [node] := by
  intro inner hinner
  obtain ⟨top, htop, hinner⟩ := Node.mem_walkAll_iff.mp hinner
  rw [List.mem_singleton.mp htop, Node.walk_eq] at hinner
  rcases List.mem_cons.mp hinner with rfl | hinner
  · exact h
  · exact hchildren inner hinner

end Trait

/-- What stands elsewhere comes to nodes with the trait, for all lines that may be assembled. -/
def Elsewhere.KeepsTrait (src : Sources) (K : String → Prop) (P : Trait)
    (elsewhere : Elsewhere) : Prop :=
  ∀ context root lines, src.Fits context →
    (∀ line : Line, line.Within lines → src.Allows context.filename line) →
    Ensures (src.KnowsOver K) (elsewhere context root lines) P.On

variable {elsewhere : Elsewhere} {context : Context} {line : Line} {P : Trait}

/-! ## Lines by themselves -/

theorem log_ensures (event : Event) :
    Ensures (src.KnowsOver K) (Assembly.log event) fun _ => True :=
  .modify fun _ h => ⟨h.mixins, h.constants⟩

/-- An expression's text is computed from constants that the run knows. -/
theorem evaluate_ensures (expression : List Char) (number : Int) :
    Ensures (src.KnowsOver K) (Assembly.evaluate expression number) fun css =>
      ∃ constants : Constants, constants.All K ∧
        Expr.cssOf constants (String.ofList expression) = .ok css := by
  intro s css t hs h
  rw [outcome_evaluate] at h
  cases hcss : Expr.cssOf s.constants (String.ofList expression) with
  | error refusal =>
      rw [hcss] at h
      cases h
  | ok found =>
      rw [hcss] at h
      cases h
      exact ⟨hs, s.constants, hs.constants, hcss⟩

/-- An attribute line tells its name and a value computed from known constants. -/
theorem attribute?_ensures {way : AttributeSyntax}
    (hshape : Shape.of line.text.toList = .attr way) :
    Ensures (src.KnowsOver K) (attribute? context way line.text.toList line.index)
      (line.TellsOver src K) := by
  unfold attribute?
  split
  · exact .refuse _ _
  · split
    · exact .refuse _ _
    · next name value hparts =>
        refine .bind (evaluate_ensures _ _) fun css ⟨constants, hconstants, hcss⟩ => .pure ?_
        refine ⟨.other (.computed hshape hparts hcss) nofun, fun hshape' hparts' => ?_⟩
        cases hshape.symm.trans hshape'
        cases hparts.symm.trans hparts'
        exact ⟨constants, css, hconstants, hcss, rfl⟩
    · next name value hparts =>
        refine .pure ⟨.other (.attr hshape hparts) nofun, fun hshape' hparts' => ?_⟩
        cases hshape.symm.trans hshape'
        cases hparts.symm.trans hparts'

/-- No line gives a constant a value that is not as said. -/
theorem defineConstant_ensures (hP : src.GivesOver K P)
    (hallows : src.Allows context.filename line) :
    Ensures (src.KnowsOver K) (defineConstant line.text.toList line.index) fun _ => True := by
  unfold defineConstant
  split
  · exact .refuse _ _
  · next name conditional value hparts =>
      refine .bind (evaluate_ensures _ _) fun css ⟨constants, hconstants, hcss⟩ => ?_
      have hkept : K css := hP.kept hallows hparts hconstants hcss
      refine .modify fun s hs => ⟨hs.mixins, ?_⟩
      dsimp only
      split
      · exact hs.constants.setIfAbsent _ hkept
      · exact hs.constants.set _ hkept

/-- The body of a mixin that is defined is known from then on. -/
theorem defineMixin_ensures (hallows : src.Allows context.filename line)
    (hshape : Shape.of line.text.toList = .mixinDefinition) :
    Ensures (src.KnowsOver K) (defineMixin line.text.toList line.children line.index)
      fun _ => True := by
  unfold defineMixin
  dsimp only
  split
  · exact .refuse _ _
  · refine .modify fun s hs => ⟨fun name body hbody inner hinner => ?_, hs.constants⟩
    -- the mixin is the one that is defined here, or it was known before
    by_cases hname : name = String.ofList (Text.trim (line.text.toList.drop 1))
    · rw [hname, Table.get?_set_self] at hbody
      cases hbody
      exact hallows.stores hshape hinner
    · rw [Table.get?_set_of_ne _ _ hname] at hbody
      exact hs.mixins name body hbody inner hinner

/-! ## Inclusions and imports -/

/-- The nodes of an inclusion have the trait, since its body is a line the run stores. -/
theorem includeMixin_ensures (h : elsewhere.KeepsTrait src K P) (hfits : src.Fits context)
    (hallows : src.Allows context.filename line)
    (hshape : Shape.of line.text.toList = .mixinInclusion) :
    Ensures (src.KnowsOver K) (includeMixin elsewhere context line.text.toList line.index)
      P.On := by
  unfold includeMixin
  refine .bind .get fun s hs => ?_
  split
  · exact .refuse _ _
  · next body hbody =>
      split
      · exact .refuse _ _
      · exact h _ _ _ ⟨hfits.disk, hfits.loadPaths⟩
          -- the filename stays that of the file which includes
          fun inner hinner => hallows.included hshape (hs.mixins _ body hbody inner hinner)

/-- The nodes of a document have the trait when its text is one the run reads. -/
theorem document_ensures (h : elsewhere.KeepsTrait src K P) (hfits : src.Fits context)
    {template : String} (hreads : src.Reads context.filename template) :
    Ensures (src.KnowsOver K) (document elsewhere context template) fun tree =>
      P.On tree.children := by
  refine .mapDiagnostic ?_
  cases hparse : parseLines template.toList with
  | error d => exact .throw _
  | ok lines =>
      have hlines : ∀ line : Line, line.Within lines → src.Allows context.filename line :=
        fun line hline => .inl ⟨template, hreads, hline.standsIn hparse⟩
      exact .bind (h context true lines hfits hlines) fun nodes hnodes => .pure hnodes

theorem importFile_ensures (h : elsewhere.KeepsTrait src K P) (hfits : src.Fits context)
    {target : List Char} {path : String}
    (hpath : Import.resolve src.disk.isFile target src.options.loadPaths = .file path)
    (number : Int) (shown : String) :
    Ensures (src.KnowsOver K) (importFile elsewhere context number shown path) P.On := by
  unfold importFile
  split
  · exact .refuse _ _
  · exact .throw _
  · next template htext =>
      have hreads : src.Reads (some path) template := by
        rw [hfits.disk] at htext
        exact .file hpath htext
      refine .bind (log_ensures _) fun _ _ => ?_
      refine .bind (.mapDiagnostic (.restoring (document_ensures h ?_ hreads))) ?_
      · exact ⟨hfits.disk, hfits.loadPaths⟩
      · exact fun tree htree => .pure htree

/-- The reference to a style sheet is told of by the line that imports it. -/
theorem reference_on (hP : src.GivesOver K P) (hallows : src.Allows context.filename line)
    (hshape : Shape.of line.text.toList = .directive) {name : String}
    (hwrites : line.Writes src (.directive ("@import url(" ++ name ++ ")"))) :
    P.On [reference context line.index name] := by
  have htells : line.Tells src (.directive ("@import url(" ++ name ++ ")")) := .other hwrites nofun
  exact Trait.on_singleton (hP.told hallows (htells.over (by simp [hshape]))) Trait.on_nil

/-- The nodes of one target have the trait: its file is read, or the reference told by its line. -/
theorem importTarget_ensures (hP : src.GivesOver K P) (h : elsewhere.KeepsTrait src K P)
    (hfits : src.Fits context) (hallows : src.Allows context.filename line)
    {value target : List Char} (himport : line.ImportsTargets value)
    (htarget : target ∈ Import.targets value) :
    Ensures (src.KnowsOver K) (importTarget elsewhere context line.index target) P.On := by
  unfold importTarget
  dsimp only
  split
  · next path hresolve =>
      rw [hfits.disk, hfits.loadPaths] at hresolve
      exact .bind (log_ensures _) fun _ _ => importFile_ensures h hfits hresolve _ _
  · next name hresolve =>
      rw [hfits.disk, hfits.loadPaths] at hresolve
      refine .bind (log_ensures _) fun _ _ => .pure ?_
      exact reference_on hP hallows himport.1 (.reference himport htarget (.inl hresolve))
  · next name hresolve =>
      rw [hfits.disk, hfits.loadPaths] at hresolve
      exact .pure (reference_on hP hallows himport.1 (.reference himport htarget (.inr hresolve)))
  · exact .refuse _ _

/-- The nodes of a list of targets have the trait, by induction on the list. -/
theorem importTargets_ensures (hP : src.GivesOver K P) (h : elsewhere.KeepsTrait src K P)
    (hfits : src.Fits context) (hallows : src.Allows context.filename line) {value : List Char}
    (himport : line.ImportsTargets value) {targets : List (List Char)}
    (htargets : ∀ target ∈ targets, target ∈ Import.targets value) :
    Ensures (src.KnowsOver K) (importTargets elsewhere context line.index targets) P.On := by
  induction targets with
  | nil => exact .pure Trait.on_nil
  | cons target targets ih =>
      rw [importTargets]
      have hfirst := htargets target List.mem_cons_self
      have hrest := ih fun t ht => htargets t (List.mem_cons_of_mem _ ht)
      refine .bind (importTarget_ensures hP h hfits hallows himport hfirst) fun nodes hnodes => ?_
      exact .bind hrest fun more hmore => .pure (hnodes.append hmore)

/-! ## What lines mean -/

/-- A line means what it tells of, or nodes with the trait. -/
def Meaning.ToldBy (src : Sources) (K : String → Prop) (P : Trait) (line : Line) :
    Meaning Content → Prop
  | .item content => line.TellsOver src K content
  | .nodes _ inserted => P.On inserted
  | _ => True

/-- What a line means is told by the line: its content, or nodes that have the trait already. -/
theorem meaning_tells (hP : src.GivesOver K P) (h : elsewhere.KeepsTrait src K P)
    (hfits : src.Fits context) (hallows : src.Allows context.filename line) :
    Ensures (src.KnowsOver K) (meaning elsewhere context line) (Meaning.ToldBy src K P line) := by
  unfold meaning
  dsimp only
  cases hshape : Shape.of line.text.toList with
  | attr way =>
      exact .bind (attribute?_ensures hshape) fun content hcontent => .pure hcontent
  | constant => exact .bind (defineConstant_ensures hP hallows) fun _ _ => .pure trivial
  | silentComment => exact .pure trivial
  | comment =>
      have htells : line.Tells src (.comment line.text true line.children) :=
        .other (.comment hshape) nofun
      exact .pure (htells.over (by simp [hshape]))
  | directive =>
      dsimp only
      obtain ⟨name, value, hparts⟩ :
          ∃ name value, directiveParts line.text.toList = (name, value) := ⟨_, _, rfl⟩
      rw [hparts]
      dsimp only
      split
      · next himport =>
          cases value with
          | none => exact .refuse _ _
          | some value =>
              have himports : line.ImportsTargets value := ⟨hshape, name, hparts, himport⟩
              exact .bind (importTargets_ensures hP h hfits hallows himports fun _ ht => ht)
                fun nodes hnodes => .pure hnodes
      · next himport =>
          have htells : line.Tells src (.directive line.text) :=
            .other (.directive hshape hparts (by simpa using himport)) nofun
          exact .pure (htells.over (by simp [hshape]))
  | escapedRule => exact .pure ((Line.Tells.escapedRule hshape).over (by simp [hshape]))
  | mixinDefinition =>
      exact .bind (defineMixin_ensures hallows hshape) fun _ _ => .pure trivial
  | mixinInclusion =>
      exact .bind (includeMixin_ensures h hfits hallows hshape) fun nodes hnodes => .pure hnodes
  | rule => exact .pure ((Line.Tells.rule hshape).over (by simp [hshape]))

/-! ## Siblings -/

def Node.HasTrait (P : Trait) (node : Node) : Prop :=
  P node.filename node.line node.content ∧ P.On node.children

def OpenRule.HasTrait (P : Trait) (opened : Option OpenRule) : Prop :=
  ∀ first ∈ opened, P first.filename first.line (.rule first.selectors) ∧
    first.selectors.continued = true

theorem OpenRule.hasTrait_none : OpenRule.HasTrait P none := by
  simp [OpenRule.HasTrait]

/-- What a built line means: a node with the trait, or several ones. -/
def Meaning.HasTrait (P : Trait) : Meaning Node → Prop
  | .item node => node.HasTrait P
  | .nodes _ inserted => P.On inserted
  | _ => True

/-- The rule that continues an open one keeps the trait of the open one. -/
theorem OpenRule.join_hasTrait (hP : src.GivesOver K P) {opened : Option OpenRule}
    (ho : OpenRule.HasTrait P opened) {selectors : SelectorList} {number : Option Int}
    {filename : Option String} {children : List Node}
    (h : Node.HasTrait P ⟨.rule selectors, number, filename, children⟩) :
    (OpenRule.join opened selectors
      ⟨.rule selectors, number, filename, children⟩).2.HasTrait P := by
  cases opened with
  | none => exact h
  | some first =>
      obtain ⟨hfirst, hopen⟩ := ho first rfl
      exact ⟨hP.joined hfirst hopen h.1, h.2⟩

theorem place_ensures (root : Bool) (number : Int) {found : Meaning Node}
    (h : found.HasTrait P) : Ensures (src.KnowsOver K) (place root number found) P.On := by
  cases found with
  | item node =>
      dsimp only [place]
      split
      · exact .refuse _ _
      · exact .pure (Trait.on_singleton h.1 h.2)
  | nodes origin nodes =>
      dsimp only [place]
      split
      · exact .refuse _ _
      · exact .pure h
  | silent => exact .pure Trait.on_nil
  | constant =>
      dsimp only [place]
      split
      · exact .pure Trait.on_nil
      · exact .refuse _ _
  | mixin =>
      dsimp only [place]
      split
      · exact .pure Trait.on_nil
      · exact .refuse _ _

theorem continueRule_ensures (hP : src.GivesOver K P) (root : Bool) (number : Int)
    {opened : Option OpenRule} (ho : OpenRule.HasTrait P opened) {found : Meaning Node}
    (h : found.HasTrait P) :
    Ensures (src.KnowsOver K) (continueRule root number opened found) fun result =>
      P.On result.1 ∧ OpenRule.HasTrait P result.2 := by
  unfold continueRule
  split
  · next selectors line filename children =>
      have hjoined := OpenRule.join_hasTrait hP ho h
      obtain ⟨hcontent, hcontinued⟩ := OpenRule.join_content opened selectors line filename children
      dsimp only
      split
      · next hopen =>
          split
          · -- the rule stays open, with all the selectors so far
            refine .pure ⟨Trait.on_nil, ?_⟩
            rintro first hfirst
            cases hfirst
            have htrait := hjoined.1
            rw [hcontent] at htrait
            exact ⟨htrait, hcontinued.trans hopen⟩
          · exact .refuse _ _
      · exact .pure ⟨Trait.on_singleton hjoined.1 hjoined.2, OpenRule.hasTrait_none⟩
  · split
    · exact .refuse _ _
    · refine .bind (place_ensures root number h) fun nodes hnodes => ?_
      exact .pure ⟨hnodes, OpenRule.hasTrait_none⟩

theorem refuseNested_ensures (nested : Option Int) (found : Meaning Content) :
    Ensures (src.KnowsOver K) (refuseNested nested found) fun _ => True := by
  unfold refuseNested
  split
  · exact .refuse _ _
  · exact .refuse _ _
  · exact .pure trivial

mutual

/-- A line comes to a node with the trait, or to several ones. -/
theorem build_keepsTrait (hP : src.GivesOver K P) (h : elsewhere.KeepsTrait src K P)
    (hfits : src.Fits context) : ∀ line, src.Allows context.filename line →
      Ensures (src.KnowsOver K) (build elsewhere context line) (Meaning.HasTrait P)
  | ⟨text, depth, index, children⟩ => by
    intro hallows
    rw [build_eq]
    refine .bind (meaning_tells hP h hfits hallows) fun found hfound => ?_
    refine .bind (refuseNested_ensures _ _) fun _ _ => ?_
    cases found with
    | item content =>
        have hchildren : ∀ line : Line, line.Within children → src.Allows context.filename line :=
          fun line hline => hallows.beneath hline
        -- nothing beneath a comment becomes a node
        have hbeneath :
            Ensures (src.KnowsOver K) (beneath elsewhere context content children) P.On := by
          unfold beneath
          split
          · exact .pure Trait.on_nil
          · exact arrange_keepsTrait hP h hfits false children none hchildren OpenRule.hasTrait_none
        refine .bind hbeneath fun nodes hnodes => .pure ?_
        exact ⟨hP.told hallows hfound, hnodes⟩
    | nodes origin nodes => exact .pure hfound
    | constant => exact .pure trivial
    | mixin => exact .pure trivial
    | silent => exact .pure trivial

/-- Siblings come to nodes with the trait, if they and all lines beneath them may be assembled for
their file. -/
theorem arrange_keepsTrait (hP : src.GivesOver K P) (h : elsewhere.KeepsTrait src K P)
    (hfits : src.Fits context) (root : Bool) :
    ∀ lines opened, (∀ line : Line, line.Within lines → src.Allows context.filename line) →
      OpenRule.HasTrait P opened →
      Ensures (src.KnowsOver K) (arrange elsewhere context root opened lines) P.On
  | [], none => by
    intro _ _
    rw [arrange]
    exact .pure Trait.on_nil
  | [], some first => by
    intro _ _
    rw [arrange]
    exact .refuse _ _
  | line :: lines, opened => by
    intro hlines ho
    rw [arrange_cons]
    have hline : src.Allows context.filename line := hlines line (.here List.mem_cons_self)
    have hrest : ∀ line : Line, line.Within lines → src.Allows context.filename line :=
      fun later hlater => hlines later (hlater.mono fun _ => List.mem_cons_of_mem _)
    refine .bind (build_keepsTrait hP h hfits line hline) fun found hfound => ?_
    refine .bind (continueRule_ensures hP root line.index ho hfound) fun (nodes, left) hnodes => ?_
    refine .bind (arrange_keepsTrait hP h hfits root lines left hrest hnodes.2) fun more hmore => ?_
    exact .pure (hnodes.1.append hmore)

end

/-- Assembling keeps the trait, however deep inclusions and imports may be nested. -/
theorem assemble_keepsTrait (hP : src.GivesOver K P) (limit : Nat) :
    (assemble limit).KeepsTrait src K P := by
  induction limit with
  | zero => exact fun _ _ _ _ _ => .throw _
  | succ limit ih =>
      exact fun context root lines hfits hlines =>
        arrange_keepsTrait hP ih hfits root lines none hlines OpenRule.hasTrait_none

/-! ## Trees -/

/-- **What nodes have from their lines.** A trait that all lines of a compilation give, as long as
the constants have values as said, is one of all nodes of the tree if the compilation starts with
such constants. -/
theorem Trait.on_of_assembleTemplate_over {options : Options} {disk : Disk} {template : String}
    {start after : State} {limit : Nat} {tree : Node}
    (hP : Sources.GivesOver ⟨options, disk, template, start.mixins⟩ K P)
    (hconstants : start.constants.All K)
    (h : assembleTemplate options disk template start limit = (.ok tree, after)) :
    P.On tree.children := by
  have hfits : Sources.Fits ⟨options, disk, template, start.mixins⟩ { options, disk } :=
    ⟨rfl, rfl⟩
  have hdocument := document_ensures (assemble_keepsTrait hP limit) hfits .template
  exact (hdocument _ _ _ ⟨Sources.knows_start options disk template start, hconstants⟩ h).2

/-- A trait that all lines of a compilation give is one of all nodes of the tree. -/
theorem Trait.on_of_assembleTemplate {options : Options} {disk : Disk} {template : String}
    {start after : State} {limit : Nat} {tree : Node}
    (hP : Sources.Gives ⟨options, disk, template, start.mixins⟩ P)
    (h : assembleTemplate options disk template start limit = (.ok tree, after)) :
    P.On tree.children :=
  on_of_assembleTemplate_over hP.over (fun _ _ _ => trivial) h

end Stylesheet
