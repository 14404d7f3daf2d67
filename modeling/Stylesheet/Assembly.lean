import Stylesheet.Disk
import Stylesheet.Expr.Evaluation
import Stylesheet.Node
import Stylesheet.Table

/-!
# Assembling a tree: state and results

Lines are assembled into nodes from top to bottom. On the way constants and mixins are defined,
which stay defined when the assembly fails later on, and a log is kept.

* `Meaning` : what a line puts in its place.
* `State`, `Context`, `Assembly` : what an assembly changes and what it depends on.
-/

namespace Stylesheet

/-- What a line puts in its place. -/
inductive Meaning (α : Type) where
  /-- One item. -/
  | item (item : α)
  /-- Nothing, but a constant is defined. -/
  | constant
  /-- Nothing, but a mixin is defined. -/
  | mixin
  /-- Nothing at all. -/
  | silent
  /-- Nodes that come from elsewhere. -/
  | nodes (origin : Origin) (nodes : List Node)

/-- A step of an assembly that the log tells of. -/
inductive Event where
  /-- The target of an import was found. -/
  | resolved (target path : String)
  /-- The target of an import was not found and is referred to. -/
  | passedThrough (target : String)
  /-- A file is compiled into a file. -/
  | importing (path : String) (filename : Option String)
  deriving DecidableEq, Repr

/-- What an assembly changes. -/
structure State where
  constants : Constants := .standard
  mixins : Mixins := {}
  /-- The log, the newest event first. -/
  events : List Event := []

/-- What an assembly depends on. -/
structure Context where
  options : Options
  disk : Disk
  /-- The mixins of the file whose bodies are being assembled, the innermost first. -/
  including : List String := []

def Context.filename (context : Context) : Option String :=
  context.options.filename

/-- A computation that may fail and keeps what it has changed even then. -/
abbrev Assembly := ExceptT Failure (StateM State)

namespace Assembly

/-- What an assembly comes to from a state on, and the state afterwards. -/
def outcome {α : Type} (assembly : Assembly α) (state : State) : Except Failure α × State :=
  assembly.run.run state

def refuse {α : Type} (fault : Fault) (line : Option Int) : Assembly α :=
  throw (.refused (fault.at line))

def log (event : Event) : Assembly Unit :=
  modify fun state => { state with events := event :: state.events }

def evaluate (expression : List Char) (line : Int) : Assembly String := do
  match Expr.cssOf (← get).constants (String.ofList expression) with
  | .ok css => pure css
  | .error refusal => throw (refusal.at (some line))

/-- The diagnostic of a failure changed, if the failure has one. -/
def mapDiagnostic {α : Type} (f : Diagnostic → Diagnostic) (assembly : Assembly α) : Assembly α :=
  tryCatch assembly fun
    | .refused d => throw (.refused (f d))
    | failure => throw failure

/-- The assembly with the constants and mixins that it started from if it fails. -/
def restoring {α : Type} (assembly : Assembly α) : Assembly α := do
  let before ← get
  tryCatch assembly fun failure => do
    modify fun state => { before with events := state.events }
    throw failure

end Assembly

end Stylesheet
