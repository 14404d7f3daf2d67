import Stylesheet.CommandLine.Arguments
import Stylesheet.Compilation
import Stylesheet.Node.Json
import Stylesheet.Options.File

/-!
# The command line

A run compiles one file and writes its stylesheet, or its tree, to the standard output or to a file.
What is wrong with the file or with the options is told on the standard error. The run itself only
says what to write; `Outcome` holds all of it.

* `CommandLine.run` : the outcome of a run.
* `CommandLine.asked` : the paths that a run may ask for.
-/

namespace Stylesheet

/-- A fault that a run does not tell of but ends with. -/
inductive RunFault where
  /-- The compilation failed, and not for what the stylesheet says. -/
  | failure (failure : Failure)
  /-- The options cannot be understood, and no message says why. -/
  | options (fault : OptionsFileFault)
  /-- An import was looked for on a load path that was taken back. -/
  | noLoadPath
  /-- The result cannot be written. -/
  | output (fault : AccessFault)

inductive Ending where
  /-- It is over, with a code that is zero if all went well. -/
  | done (code : Nat)
  /-- The arguments ask for no compilation. -/
  | rejected (rejection : Rejection)
  /-- It breaks off. -/
  | broken (fault : RunFault)

/-- All that a run does. -/
structure Outcome where
  ending : Ending
  /-- What goes to the standard output. -/
  output : String := ""
  /-- What goes to the standard error. -/
  errors : String := ""
  /-- The path and the text of the file that is written. -/
  written : Option (String × String) := none

def Ending.code : Ending → Nat
  | done code => code
  | rejected .help => 0
  | rejected .invalid => 2
  | broken _ => 1

/-! ## Messages -/

def Event.text : Event → String
  | resolved target path =>
    "DEBUG sassy.importer: Resolved import " ++ target ++ " to " ++ path ++ "\n"
  | passedThrough target =>
    "DEBUG sassy.importer: No .sass file for import " ++ target ++ "; passing through as CSS\n"
  | importing path filename =>
    "DEBUG sassy.engine: Importing " ++ path ++ " into " ++ shownFilename filename ++ "\n"

/-- What is told of a refused stylesheet: the fault, and a line for every file around the one that
it is in. -/
def Diagnostic.report (d : Diagnostic) : String :=
  "Syntax error on line " ++ shownLine d.line ++ " of " ++ shownFilename d.filename ++ ": " ++
    d.message ++ "\n" ++
    String.join ((d.backtrace.drop 1).map fun frame => "  imported from " ++ frame.text ++ "\n")

def reportOf (message : String) : String :=
  "Error: " ++ message ++ "\n"

namespace CommandLine

/-- The options of a run: those of the file that the arguments name, with those of the arguments in
their place. -/
def optionsOf (disk : Disk) (arguments : Arguments) : Except OptionsFileFault Options := do
  let options ← match arguments.config with
    | some path => if path.isEmpty then pure {} else Options.load disk path
    | none => pure {}
  pure {
    style := arguments.style.getD options.style
    loadPaths := if arguments.loadPaths.isEmpty then options.loadPaths
      else arguments.searched
    filename := some arguments.input
    attributeSyntax := arguments.attributeSyntax <|> options.attributeSyntax }

/-- The text that a run makes of a template, and the state after it. -/
def result (options : Options) (disk : Disk) (tree : Option TreeFormat) (template : String) :
    Except Failure String × State :=
  match tree with
  | none => compileTemplate options disk template
  | some format =>
    let (assembled, state) := assembleTemplate options disk template
    (assembled.map fun tree => match format with
      | .json => tree.toJson ++ "\n"
      | .yaml => Data.Yaml.render tree.toData, state)

/-- The outcome of a run that has a text to write, after what it has told so far. -/
def deliver (disk : Disk) (arguments : Arguments) (told text : String) : Outcome :=
  let path := arguments.output.getD ""
  if path.isEmpty then { ending := .done 0, output := text, errors := told }
  else match disk.create path with
    | .error fault => { ending := .broken (.output fault), errors := told }
    | .ok _ =>
      { ending := .done 0
        errors := told ++
          if arguments.verbose then "INFO sassy.cli: Wrote " ++ path ++ "\n" else ""
        written := some (path, text) }

/-- Whether an event tells that a target was on none of the load paths. -/
def isPassedThrough : Event → Bool
  | .passedThrough _ => true
  | _ => false

/-- Whether a refused import was on none of the load paths; the last event of a file that cannot be
read is that it was found. -/
def isMissing (events : List Event) (d : Diagnostic) : Bool :=
  match d.fault, events.getLast? with
  | .fileNotFound _, some (.resolved _ _) => false
  | .fileNotFound _, _ => true
  | _, _ => false

/-- The events up to the first search that passes all load paths, if there is one. -/
def passing? (made : Except Failure String) (events : List Event) : Option (List Event) :=
  if events.any isPassedThrough then some (events.takeWhile fun event => !isPassedThrough event)
  else match made with
    | .error (.refused d) => if isMissing events d then some events else none
    | _ => none

/-- The outcome of a run with the options and the template that it has read. -/
def compile (disk : Disk) (arguments : Arguments) (options : Options) (template : String) :
    Outcome :=
  let (made, state) := result options disk arguments.tree template
  let events := state.events.reverse
  let told (events : List Event) :=
    if arguments.verbose then String.join (events.map Event.text) else ""
  match (if arguments.loadPaths.contains none then passing? made events else none), made with
  | some events, _ => { ending := .broken .noLoadPath, errors := told events }
  | none, .ok text => deliver disk arguments (told events) text
  | none, .error (.refused d) => { ending := .done 1, errors := told events ++ d.report }
  | none, .error failure => { ending := .broken (.failure failure), errors := told events }

/-- The outcome of a run with the given arguments. -/
def run (disk : Disk) (texts : List String) : Outcome :=
  match Arguments.parse texts with
  | .error .help => { ending := .rejected .help, output := Arguments.usage }
  | .error .invalid => { ending := .rejected .invalid, errors := Arguments.usage }
  | .ok arguments =>
    match optionsOf disk arguments with
    | .error fault =>
      match fault.message? (arguments.config.getD "") with
      | some message => { ending := .done 1, errors := reportOf message }
      | none => { ending := .broken (.options fault) }
    | .ok options =>
      match disk.readText arguments.input with
      | .error fault => { ending := .done 1, errors := reportOf (fault.message arguments.input) }
      | .ok template => compile disk arguments options template

/-! ## The files of a run -/

/-- The paths at which the files may be that the lines of a template import. -/
def mentioned (loadPaths : List String) (template : String) : List String :=
  (physicalLines template.toList).flatMap fun raw =>
    match directiveParts (Text.trim raw) with
    | (name, some value) =>
      if isImport name (some value) then
        (Import.targets value).flatMap fun target =>
          let stem := (Import.withoutEnding? ".sass" target).getD target
          Import.candidates (stem ++ ".sass".toList) loadPaths
      else []
    | (_, none) => []

/-- The paths that a run with the given arguments may ask for, as far as the files at the known paths
tell: those that the arguments name, and those that a known file imports. -/
def asked (disk : Disk) (known : List String) (texts : List String) : List String :=
  match Arguments.parse texts with
  | .error _ => []
  | .ok arguments =>
    let named := arguments.config.toList.filter (fun path => !path.isEmpty) ++ [arguments.input]
    match optionsOf disk arguments with
    | .error _ => named
    | .ok options =>
      named ++ known.flatMap fun path => match disk.readText path with
        | .ok text => mentioned options.loadPaths text
        | .error _ => []

end CommandLine

end Stylesheet
