import Stylesheet.Assembly
import Stylesheet.Import
import Stylesheet.Line.Regrouping

/-!
# From lines to a tree

`build` finds what a line means and assembles what is nested beneath it; `arrange` puts what
sibling lines mean in order, joins the selector lists that commas leave open, and refuses what may
only stand at the root. The bodies of mixins and imported files are assembled by the function
`elsewhere`; `assemble` closes this loop with a bound on how deep inclusions and imports are
nested, and `document` assembles a whole template.
-/

namespace Stylesheet

/-- Assembles lines that stand elsewhere than where they are put, at the root or not. -/
abbrev Elsewhere := Context → Bool → List Line → Assembly (List Node)

/-- The tree of a template. A fault that arises in the template itself is traced to the file. -/
def document (elsewhere : Elsewhere) (context : Context) (template : String) : Assembly Node :=
  Assembly.mapDiagnostic
      (fun d => if d.backtrace.isEmpty then d.through context.filename none else d) do
    match parseLines template.toList with
    | .error d => throw (.refused d)
    | .ok lines =>
      pure ⟨.root, none, context.filename, ← elsewhere context true lines⟩

/-! ## Imports -/

/-- The nodes of the file at a path, which a line imports. The file starts from the constants and
mixins in effect, and what it defines stays in effect if it can be assembled. -/
def importFile (elsewhere : Elsewhere) (context : Context) (line : Int) (target path : String) :
    Assembly (List Node) := do
  match context.disk.readText path with
  | .error (.access _) => Assembly.refuse (.fileNotFound target) line
  | .error (.encoding fault) => throw (.undecodable path fault)
  | .ok template =>
    Assembly.log (.importing path context.filename)
    let inner : Context := { context with
      options := context.options.withFilename path
      including := [] }
    let root ← Assembly.mapDiagnostic (·.through context.filename line)
      (Assembly.restoring (document elsewhere inner template))
    pure root.children

/-- The node of a style sheet that is referred to. -/
def reference (context : Context) (line : Int) (name : String) : Node :=
  ⟨.directive ("@import url(" ++ name ++ ")"), line, context.filename, []⟩

def importTarget (elsewhere : Elsewhere) (context : Context) (line : Int) (target : List Char) :
    Assembly (List Node) := do
  let shown := String.ofList target
  match Import.resolve context.disk.isFile target context.options.loadPaths with
  | .file path =>
    Assembly.log (.resolved shown path)
    importFile elsewhere context line shown path
  | .fallback name =>
    Assembly.log (.passedThrough shown)
    pure [reference context line name]
  | .reference name => pure [reference context line name]
  | .missing => Assembly.refuse (.fileNotFound shown) line

def importTargets (elsewhere : Elsewhere) (context : Context) (line : Int) :
    List (List Char) → Assembly (List Node)
  | [] => pure []
  | target :: targets => do
    let nodes ← importTarget elsewhere context line target
    pure (nodes ++ (← importTargets elsewhere context line targets))

/-! ## Lines -/

def attribute? (context : Context) (way : AttributeSyntax) (text : List Char) (line : Int) :
    Assembly Content :=
  if context.options.attributeSyntax = some way.other then
    Assembly.refuse (.refusedAttributeSyntax way) line
  else match attributeParts? way text with
    | none => Assembly.refuse (.invalidAttribute (String.ofList text)) line
    | some ⟨name, true, value⟩ => do
      pure (.attr (String.ofList name) (← Assembly.evaluate value line))
    | some ⟨name, false, value⟩ => pure (.attr (String.ofList name) (String.ofList value))

def defineConstant (text : List Char) (line : Int) : Assembly Unit :=
  match constantParts? text with
  | none => Assembly.refuse (.invalidConstant (String.ofList text)) line
  | some ⟨name, conditional, value⟩ => do
    let css ← Assembly.evaluate value line
    let name := String.ofList name
    modify fun state => { state with
      constants :=
        if conditional then state.constants.setIfAbsent name css
        else state.constants.set name css }

def defineMixin (text : List Char) (body : List Line) (line : Int) : Assembly Unit :=
  let name := Text.trim (text.drop 1)
  if name.isEmpty then Assembly.refuse (.invalidMixin (String.ofList text)) line
  else modify fun state => { state with mixins := state.mixins.set (String.ofList name) body }

/-- The nodes of the mixin that a line includes. A mixin may not include itself, directly or through
other mixins of the file. -/
def includeMixin (elsewhere : Elsewhere) (context : Context) (text : List Char) (line : Int) :
    Assembly (List Node) := do
  let name := String.ofList (Text.trim (text.drop 1))
  match (← get).mixins.get? name with
  | none => Assembly.refuse (.undefinedMixin name) line
  | some body =>
    if context.including.contains name then Assembly.refuse (.mixinRecursion name) line
    else elsewhere { context with including := name :: context.including } false body

/-- What a line means, its nested lines apart as far as they become nodes. -/
def meaning (elsewhere : Elsewhere) (context : Context) (line : Line) :
    Assembly (Meaning Content) :=
  let text := line.text.toList
  match Shape.of text with
  | .attr way => do pure (.item (← attribute? context way text line.index))
  | .constant => do
    defineConstant text line.index
    pure .constant
  | .silentComment => pure .silent
  | .comment => pure (.item (.comment line.text true line.children))
  | .directive =>
    match directiveParts text with
    | (name, value) =>
      if isImport name value then
        match value with
        | none => Assembly.refuse .importWithoutName line.index
        | some value => do
          pure (.nodes .imports
            (← importTargets elsewhere context line.index (Import.targets value)))
      else pure (.item (.directive line.text))
  | .escapedRule => pure (.item (.rule (.ofText (text.drop 1))))
  | .mixinDefinition => do
    defineMixin text line.children line.index
    pure .mixin
  | .mixinInclusion => do
    pure (.nodes .mixin (← includeMixin elsewhere context text line.index))
  | .rule => pure (.item (.rule (.ofText text)))

/-- Refuses lines beneath a line that cannot have any; `line` is the number of the first of
them. -/
def refuseNested (nested : Option Int) (meaning : Meaning Content) : Assembly Unit :=
  match nested, meaning with
  | some line, .constant => Assembly.refuse .nestedBeneathConstant line
  | some line, .nodes origin _ => Assembly.refuse (.nestedBeneath origin) line
  | _, _ => pure ()

/-- The nodes that a line puts beneath the node above it, which is the root or not. -/
def place (root : Bool) (line : Int) (meaning : Meaning Node) : Assembly (List Node) :=
  match meaning with
  | .item node =>
    if !root && node.isDirective then Assembly.refuse .innerDirective line else pure [node]
  | .nodes _ nodes =>
    if !root && nodes.any Node.isDirective then Assembly.refuse .innerDirective line else pure nodes
  | .constant => if root then pure [] else Assembly.refuse .innerConstant line
  | .mixin => if root then pure [] else Assembly.refuse .innerMixin line
  | .silent => pure []

/-! ## Siblings -/

/-- A rule whose selectors end in a comma, waiting for the rule that continues them. -/
structure OpenRule where
  selectors : SelectorList
  line : Option Int
  filename : Option String

/-- The rule that a rule becomes as the continuation of an open one. -/
def OpenRule.join (opened : Option OpenRule) (selectors : SelectorList) (node : Node) :
    SelectorList × Node :=
  match opened with
  | none => (selectors, node)
  | some first =>
    let selectors := first.selectors.append selectors
    (selectors, ⟨.rule selectors, first.line, first.filename, node.children⟩)

/-- What a line comes to after an open rule: nodes to put in its place, or a rule that is open in
turn. -/
def continueRule (root : Bool) (line : Int) (opened : Option OpenRule) (meaning : Meaning Node) :
    Assembly (List Node × Option OpenRule) :=
  match meaning with
  | .item ⟨.rule selectors, number, filename, children⟩ =>
    let (joined, node) := OpenRule.join opened selectors ⟨.rule selectors, number, filename, children⟩
    if selectors.continued then
      if children.isEmpty then pure ([], some ⟨joined, node.line, node.filename⟩)
      else Assembly.refuse .openSelectorList number
    else pure ([node], none)
  | meaning =>
    match opened with
    | some first => Assembly.refuse .openSelectorList first.line
    | none => do pure (← place root line meaning, none)

mutual

def build (elsewhere : Elsewhere) (context : Context) : Line → Assembly (Meaning Node)
  | ⟨text, depth, index, children⟩ => do
    let found ← meaning elsewhere context ⟨text, depth, index, children⟩
    refuseNested (children.head?.map (·.index)) found
    match found with
    | .item content =>
      let nodes ← match content with
        | .comment _ _ _ => pure []
        | _ => arrange elsewhere context false none children
      pure (.item ⟨content, index, context.filename, nodes⟩)
    | .constant => pure .constant
    | .mixin => pure .mixin
    | .silent => pure .silent
    | .nodes origin nodes => pure (.nodes origin nodes)

/-- The nodes of sibling lines, at the root or not, after a rule that may be open. -/
def arrange (elsewhere : Elsewhere) (context : Context) (root : Bool) (opened : Option OpenRule) :
    List Line → Assembly (List Node)
  | [] =>
    match opened with
    | some first => Assembly.refuse .openSelectorList first.line
    | none => pure []
  | line :: lines => do
    let found ← build elsewhere context line
    let (nodes, opened) ← continueRule root line.index opened found
    pure (nodes ++ (← arrange elsewhere context root opened lines))

end

/-! ## Documents -/

/-- The nodes of lines, while inclusions and imports are nested at most `limit` deep. -/
def assemble : Nat → Elsewhere
  | 0 => fun _ _ _ => throw .nestingLimit
  | limit + 1 => fun context root lines => arrange (assemble limit) context root none lines

def nestingLimit : Nat := 10000

/-- The result of assembling a template and the state afterwards. -/
def assembleTemplate (options : Options) (disk : Disk) (template : String) (state : State := {})
    (limit : Nat := nestingLimit) : Except Failure Node × State :=
  (document (assemble limit) { options, disk } template).outcome state

end Stylesheet
