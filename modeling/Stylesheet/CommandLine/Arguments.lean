import Stylesheet.Options
import Stylesheet.Text.Digit

/-!
# Arguments of the command line

An argument is a flag, the value of the flag before it, or the path of the input. A long flag may be
cut short where that leaves only one; its value follows it or stands after an equals sign. A short
flag may have its value, or further short flags if it takes none, directly behind it or after an
equals sign. After two hyphens nothing is a flag; as a value, two hyphens take back what was given.

* `Arguments.parse` : what the arguments ask for.
-/

namespace Stylesheet

inductive TreeFormat where
  | json
  | yaml
  deriving DecidableEq, Repr

def TreeFormat.ofName? : String → Option TreeFormat
  | "json" => some json
  | "yaml" => some yaml
  | _ => none

/-- What the arguments ask for. -/
structure Arguments where
  input : String
  output : Option String := none
  style : Option Style := none
  /-- The load paths; one that was taken back keeps its place and names nothing. -/
  loadPaths : List (Option String) := []
  attributeSyntax : Option AttributeSyntax := none
  config : Option String := none
  tree : Option TreeFormat := none
  verbose : Bool := false

/-- The load paths on which a search gets to look: those before the first that was taken back. -/
def Arguments.searched (arguments : Arguments) : List String :=
  (arguments.loadPaths.takeWhile Option.isSome).filterMap id

/-- Why the arguments ask for no compilation. -/
inductive Rejection where
  /-- They ask for help. -/
  | help
  /-- They make no sense. -/
  | invalid
  deriving DecidableEq, Repr

inductive Flag where
  | help
  | output
  | style
  | loadPath
  | attributeSyntax
  | config
  | tree
  | verbose
  deriving DecidableEq, Repr

namespace Flag

def longNames : List (String × Flag) :=
  [("--help", help), ("--output", output), ("--style", style), ("--load-path", loadPath),
    ("--attribute-syntax", attributeSyntax), ("--config", config), ("--tree", tree),
    ("--verbose", verbose)]

def letters : List (Char × Flag) :=
  [('h', help), ('o', output), ('t', style), ('I', loadPath), ('v', verbose)]

def takesValue : Flag → Bool
  | help => false
  | verbose => false
  | _ => true

end Flag

inductive Argument where
  /-- The two hyphens after which nothing is a flag. -/
  | separator
  /-- An argument that is no flag. -/
  | word (text : String)
  /-- A flag with a long name, and the text after the equals sign. -/
  | long (flag : Flag) (value : Option String)
  /-- A flag with a short name, and the text behind it, if there is any or an equals sign. -/
  | short (flag : Flag) (behind : Option (List Char))
  /-- A flag that does not exist. -/
  | unknown
  deriving DecidableEq, Repr

namespace Argument

/-- Whether a text is a row of digits, with or without a point, of which the last place holds one. -/
def isNumeral (cs : List Char) : Bool :=
  (!cs.isEmpty && cs.all Text.isDigit) ||
    (match cs.dropWhile Text.isDigit with
      | '.' :: places => !places.isEmpty && places.all Text.isDigit
      | _ => false)

/-- Whether a text is a negative number, which is no flag. A line may end behind it. -/
def isNegativeNumber : List Char → Bool
  | '-' :: cs => isNumeral (if cs.getLast? = some '\n' then cs.dropLast else cs)
  | _ => false

def cutAtEquals (cs : List Char) : List Char × Option (List Char) :=
  let name := cs.takeWhile (· != '=')
  match cs.drop name.length with
  | [] => (name, none)
  | _ :: value => (name, some value)

/-- An argument that starts with a hyphen and is no flag. -/
def other (cs : List Char) : Argument :=
  if isNegativeNumber cs || cs.contains ' ' then word (String.ofList cs) else unknown

/-- An argument by its form, if it has one: the start of several long names has none. -/
def ofText? (text : String) : Option Argument :=
  match text.toList with
  | ['-', '-'] => some separator
  | '-' :: '-' :: cs =>
    let (name, value) := cutAtEquals ('-' :: '-' :: cs)
    let value := value.map String.ofList
    match Flag.longNames.lookup (String.ofList name) with
    | some flag => some (long flag value)
    | none =>
      match Flag.longNames.filter fun entry => name.isPrefixOf entry.1.toList with
      | [] => some (other ('-' :: '-' :: cs))
      | [entry] => some (long entry.2 value)
      | _ => none
  | '-' :: letter :: cs =>
    match Flag.letters.lookup letter with
    | some flag => some (short flag (match cs with
      | [] => none
      | '=' :: value => some value
      | cs => some cs))
    | none => some (other ('-' :: letter :: cs))
  | _ => some (word text)

def ofTexts? : List String → Option (List Argument)
  | [] => some []
  | text :: texts => do
    let first ← ofText? text
    if first = separator then pure (separator :: texts.map word)
    else pure (first :: (← ofTexts? texts))

end Argument

namespace Arguments

structure Draft where
  input : Option String := none
  /-- Whether an argument has no use. -/
  surplus : Bool := false
  rest : Arguments := { input := "" }

def Draft.flag (draft : Draft) (flag : Flag) : Except Rejection Draft :=
  match flag with
  | .verbose => .ok { draft with rest := { draft.rest with verbose := true } }
  | _ => .error .help

/-- A name that has to stand for something. -/
def choice {α : Type} (found : Option α) : Except Rejection (Option α) :=
  match found with
  | some a => .ok (some a)
  | none => .error .invalid

def given? (text : String) : Option String :=
  if text = "--" then none else some text

def Draft.value (draft : Draft) (flag : Flag) (text : String) : Except Rejection Draft := do
  let rest := draft.rest
  let value := given? text
  let chosen {α : Type} (ofName? : String → Option α) : Except Rejection (Option α) :=
    match value with
    | some name => choice (ofName? name)
    | none => .ok none
  let rest ← match flag with
    | .output => pure { rest with output := value }
    | .style => do pure { rest with style := ← chosen Style.ofName? }
    | .loadPath => pure { rest with loadPaths := rest.loadPaths ++ [value] }
    | .attributeSyntax => do
      pure { rest with attributeSyntax := ← chosen AttributeSyntax.ofName? }
    | .config => pure { rest with config := value }
    | .tree => do pure { rest with tree := ← chosen TreeFormat.ofName? }
    | _ => throw .invalid
  pure { draft with rest }

structure ShortFlags where
  /-- The flags that take no value and are not the last one. -/
  plain : List Flag
  last : Flag
  /-- The value of the last one, if it has one. -/
  value : Option String

/-- The flags of an argument from one of them on, with the text directly behind it: the value of the
flag, or further flags if it takes none. -/
def shortFlags? (flag : Flag) : List Char → Option ShortFlags
  | [] => some ⟨[], flag, none⟩
  | c :: cs =>
    if flag.takesValue then some ⟨[], flag, some (String.ofList (c :: cs))⟩
    else do
      let found ← shortFlags? (← Flag.letters.lookup c) cs
      pure { found with plain := flag :: found.plain }

/-- The flags of an argument of short ones. Only a flag that takes a value may have nothing after an
equals sign. -/
def ShortFlags.of? (flag : Flag) : Option (List Char) → Option ShortFlags
  | none => some ⟨[], flag, none⟩
  | some [] => if flag.takesValue then some ⟨[], flag, some ""⟩ else none
  | some (c :: cs) => shortFlags? flag (c :: cs)

/-- What is known after all arguments. A path that follows the input has no use, nor has the
separator unless it stands next to the input. -/
def fill : Draft → List Argument → Except Rejection Draft
  | draft, [] => .ok draft
  | draft, .word text :: rest =>
    if draft.input.isNone then
      match rest with
      | .separator :: rest => fill { draft with input := some text } rest
      | rest => fill { draft with input := some text } rest
    else fill { draft with surplus := true } rest
  | draft, .separator :: rest =>
    match draft.input, rest with
    | none, .word text :: rest => fill { draft with input := some text } rest
    | _, rest => fill { draft with surplus := true } rest
  | draft, .unknown :: rest => fill { draft with surplus := true } rest
  | draft, .long flag value :: rest => do
    match flag.takesValue, value, rest with
    | true, some value, rest => fill (← draft.value flag value) rest
    | true, none, .word value :: rest => fill (← draft.value flag value) rest
    | true, none, _ => throw .invalid
    | false, some _, _ => throw .invalid
    | false, none, rest => fill (← draft.flag flag) rest
  | draft, .short flag behind :: rest => do
    match ShortFlags.of? flag behind with
    | none => throw .invalid
    | some ⟨plain, last, value⟩ =>
      match last.takesValue, value, rest with
      | true, some value, rest => fill (← (← plain.foldlM Draft.flag draft).value last value) rest
      | true, none, .word value :: rest =>
        fill (← (← plain.foldlM Draft.flag draft).value last value) rest
      | true, none, _ => throw .invalid
      | false, _, rest => fill (← (← plain.foldlM Draft.flag draft).flag last) rest

def usage : String :=
  "usage: sassy [-h] [-o OUTPUT] [-t nested|expanded|compact|compressed] [-I LOAD_PATH]\n" ++
    "             [--attribute-syntax normal|alternate] [--config CONFIG] [--tree json|yaml]\n" ++
    "             [-v] input_file\n"

/-- What the arguments ask for. The input has to be there, and nothing may be left over. -/
def parse (texts : List String) : Except Rejection Arguments :=
  match Argument.ofTexts? texts with
  | none => .error .invalid
  | some arguments => do
    let draft ← fill {} arguments
    match draft.input with
    | some input => if draft.surplus then throw .invalid else pure { draft.rest with input }
    | none => throw .invalid

end Arguments

end Stylesheet
