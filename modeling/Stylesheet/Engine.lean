import Stylesheet.Assembly.Document

/-!
# Engines

An engine is an object that compiles one template, as often as it is called. Its constants and
mixins stay in effect from one call to the next. During a call it also keeps two notes: the line
that it is at, and the mixins whose bodies it is assembling. Its methods read the notes where
`Assembly.Document` is told them, and when a call fails the engine is left in the midst of it.

* `Engine.build`, `Engine.appendChildren` : what lines come to.
* `Engine.toTree` : the tree of the template.
* `Engine.call`, `Engine.after` : one call of an engine, and the engine after several.
-/

namespace Stylesheet

/-- An object that compiles a template. -/
structure Engine where
  template : String
  options : Options
  /-- The constants, the mixins and the log, with which every call goes on. -/
  state : State := {}
  /-- The line that is being built, or was the last to be. -/
  line : Option Int := none
  /-- The mixins whose bodies are being assembled, the outermost first. -/
  including : List String := []

/-- A method of an engine. It may fail, and what it has changed stays changed even then. -/
abbrev Method := ExceptT Failure (StateM Engine)

/-- How an engine assembles lines, at the root or not, that are not nested where it is. -/
abbrev Append := Bool → List Line → Method (List Node)

namespace Method

variable {α : Type}

/-- What a method comes to for an engine, and the engine afterwards. -/
def outcome (method : Method α) (engine : Engine) : Except Failure α × Engine :=
  method.run.run engine

/-- An assembly from the tables of the engine. -/
def ofAssembly (assembly : Assembly α) : Method α :=
  ExceptT.mk fun engine =>
    let (result, state) := assembly.outcome engine.state
    (result, { engine with state })

/-- A method after which something is done to the engine, also if it fails. -/
def ensuring (method : Method α) (last : Engine → Engine) : Method α :=
  ExceptT.mk fun engine =>
    let (result, engine) := method.outcome engine
    (result, last engine)

def refuse (fault : Fault) : Method α := do
  throw (.refused (fault.at (← get).line))

end Method

namespace Engine

open Method

def filename (engine : Engine) : Option String :=
  engine.options.filename

/-- The tree of the template. A fault gets an entry for this engine: where it was found, or, if it
comes from another engine, the line that this one is at. -/
def toTree (append : Append) : Method Node :=
  tryCatch
    (do
      let engine ← get
      match parseLines engine.template.toList with
      | .error d => throw (.refused d)
      | .ok lines => pure ⟨.root, none, engine.filename, ← append true lines⟩)
    fun
    | .refused d => do
      let engine ← get
      throw (.refused
        (d.through engine.filename (if d.backtrace.isEmpty then none else engine.line)))
    | failure => throw failure

/-! ## Lines -/

def evaluate (expression : List Char) : Method String := do
  let engine ← get
  match Expr.cssOf engine.state.constants (String.ofList expression) with
  | .ok css => pure css
  | .error refusal => throw (refusal.at engine.line)

def parseAttribute (way : AttributeSyntax) (text : List Char) : Method Content := do
  if (← get).options.attributeSyntax = some way.other then refuse (.refusedAttributeSyntax way)
  else match attributeParts? way text with
    | none => refuse (.invalidAttribute (String.ofList text))
    | some ⟨name, true, value⟩ => pure (.attr (String.ofList name) (← evaluate value))
    | some ⟨name, false, value⟩ => pure (.attr (String.ofList name) (String.ofList value))

def parseConstant (text : List Char) : Method Unit :=
  match constantParts? text with
  | none => refuse (.invalidConstant (String.ofList text))
  | some ⟨name, conditional, value⟩ => do
    let css ← evaluate value
    let name := String.ofList name
    modify fun engine => { engine with state := { engine.state with
      constants :=
        if conditional then engine.state.constants.setIfAbsent name css
        else engine.state.constants.set name css } }

def parseMixinDefinition (text : List Char) (body : List Line) : Method Unit :=
  let name := Text.trim (text.drop 1)
  if name.isEmpty then refuse (.invalidMixin (String.ofList text))
  else modify fun engine => { engine with state := { engine.state with
    mixins := engine.state.mixins.set (String.ofList name) body } }

/-- The nodes of a mixin. While its body is assembled, its name is noted, and afterwards the line
is again the one that includes it. -/
def parseMixinInclude (append : Append) (text : List Char) : Method (List Node) := do
  let engine ← get
  let name := String.ofList (Text.trim (text.drop 1))
  match engine.state.mixins.get? name with
  | none => refuse (.undefinedMixin name)
  | some body =>
    if engine.including.contains name then refuse (.mixinRecursion name)
    else do
      modify fun engine => { engine with including := engine.including ++ [name] }
      let nodes ← ensuring (append false body) fun engine =>
        { engine with including := engine.including.dropLast }
      modify fun inside => { inside with line := engine.line }
      pure nodes

/-- What becomes of the outcome of another engine, which has compiled an imported file from copies of
the tables: they are taken over, or given up if it has failed. -/
def takeOver : Except Failure Node × Engine → Method (List Node)
  | (.ok root, other) => do
    modify fun engine => { engine with state := other.state }
    pure root.children
  | (.error failure, other) => do
    modify fun engine => { engine with
      state := { engine.state with events := other.state.events } }
    throw failure

/-- The nodes of the file at a path, which another engine compiles. -/
def importFile (append : Append) (disk : Disk) (target path : String) : Method (List Node) := do
  match disk.readText path with
  | .error (.access _) => refuse (.fileNotFound target)
  | .error (.encoding fault) => throw (.undecodable path fault)
  | .ok template =>
    ofAssembly (Assembly.log (.importing path (← get).filename))
    let engine ← get
    let other : Engine :=
      { template, options := engine.options.withFilename path, state := engine.state }
    takeOver ((toTree append).outcome other)

def importTarget (append : Append) (disk : Disk) (target : List Char) : Method (List Node) := do
  let engine ← get
  let shown := String.ofList target
  let reference (name : String) : Node :=
    ⟨.directive ("@import url(" ++ name ++ ")"), engine.line, engine.filename, []⟩
  match Import.resolve disk.isFile target engine.options.loadPaths with
  | .file path =>
    ofAssembly (Assembly.log (.resolved shown path))
    importFile append disk shown path
  | .fallback name =>
    ofAssembly (Assembly.log (.passedThrough shown))
    pure [reference name]
  | .reference name => pure [reference name]
  | .missing => refuse (.fileNotFound shown)

def importTargets (append : Append) (disk : Disk) : List (List Char) → Method (List Node)
  | [] => pure []
  | target :: targets => do
    let nodes ← importTarget append disk target
    pure (nodes ++ (← importTargets append disk targets))

def parseLine (append : Append) (disk : Disk) (line : Line) : Method (Meaning Content) :=
  let text := line.text.toList
  match Shape.of text with
  | .attr way => do pure (.item (← parseAttribute way text))
  | .constant => do
    parseConstant text
    pure .constant
  | .silentComment => pure .silent
  | .comment => pure (.item (.comment line.text true line.children))
  | .directive =>
    match directiveParts text with
    | (name, value) =>
      if isImport name value then
        match value with
        | none => refuse .importWithoutName
        | some value => do
          pure (.nodes .imports (← importTargets append disk (Import.targets value)))
      else pure (.item (.directive line.text))
  | .escapedRule => pure (.item (.rule (.ofText (text.drop 1))))
  | .mixinDefinition => do
    parseMixinDefinition text line.children
    pure .mixin
  | .mixinInclusion => do pure (.nodes .mixin (← parseMixinInclude append text))
  | .rule => pure (.item (.rule (.ofText text)))

mutual

def build (append : Append) (disk : Disk) : Line → Method (Meaning Node)
  | ⟨text, depth, index, children⟩ => do
    modify fun engine => { engine with line := some index }
    let found ← parseLine append disk ⟨text, depth, index, children⟩
    ofAssembly (refuseNested (children.head?.map (·.index)) found)
    match found with
    | .item content =>
      let nodes ← match content with
        | .comment _ _ _ => pure []
        | _ => appendChildren append disk false none children
      pure (.item ⟨content, index, (← get).filename, nodes⟩)
    | .constant => pure .constant
    | .mixin => pure .mixin
    | .silent => pure .silent
    | .nodes origin nodes => pure (.nodes origin nodes)

def appendChildren (append : Append) (disk : Disk) (root : Bool) (opened : Option OpenRule) :
    List Line → Method (List Node)
  | [] =>
    match opened with
    | some first => throw (.refused (Fault.openSelectorList.at first.line))
    | none => pure []
  | line :: lines => do
    let found ← build append disk line
    let (nodes, opened) ← ofAssembly (continueRule root line.index opened found)
    pure (nodes ++ (← appendChildren append disk root opened lines))

end

/-! ## Calls -/

def appending (disk : Disk) : Nat → Append
  | 0 => fun _ _ => throw .nestingLimit
  | limit + 1 => fun root lines => appendChildren (appending disk limit) disk root none lines

/-- A call of an engine, and the engine afterwards. -/
def call (engine : Engine) (disk : Disk) (limit : Nat := nestingLimit) :
    Except Failure Node × Engine :=
  (toTree (appending disk limit)).outcome engine

/-- The engine after calls one after the other, whatever each of them comes to; what can be read
from the disk may be different for each. -/
def after (engine : Engine) (disks : List Disk) (limit : Nat := nestingLimit) : Engine :=
  disks.foldl (fun engine disk => (engine.call disk limit).2) engine

/-- A new engine for the same template with the same options, which starts from the tables. -/
def renewed (engine : Engine) : Engine where
  template := engine.template
  options := engine.options
  state := engine.state

end Engine

end Stylesheet
