import Stylesheet.Data
import Stylesheet.Data.Yaml.Scalar

/-!
# Data as YAML

Data is written in blocks: every entry of a map and every item of a list has its line, and what is
nested is indented by two. A text is written plainly if it would be read back as the same text, else
between single quotation marks, and with escapes between double ones where only they can hold it.
Lines longer than 80 are broken at a space.

* `Yaml.render` : the written form.
-/

namespace Stylesheet.Data.Yaml

/-- The column beyond which a line is broken at the next chance. -/
def lineWidth : Nat := 80

def newline (indent : Nat) : List Char :=
  '\n' :: List.replicate indent ' '

/-! ## Choosing a style -/

/-- Whether a character is a printing character of ASCII. -/
def isPlainChar (c : Char) : Bool :=
  ' ' ≤ c && c ≤ '~'

/-- The characters with which no plain text starts. -/
def indicators : List Char :=
  ['#', ',', '[', ']', '\x7b', '\x7d', '&', '*', '!', '|', '>', '\'', '"', '%', '@', '\x60']

def atSpace : List Char → Bool
  | [] => true
  | c :: _ => c == ' '

/-- Whether a text holds a colon before a space or its end, or a number sign after a space. -/
def holdsIndicator : List Char → Bool
  | [] => false
  | ':' :: cs => atSpace cs || holdsIndicator cs
  | ' ' :: cs => cs.head? == some '#' || holdsIndicator cs
  | _ :: cs => holdsIndicator cs

/-- Whether the start of a text would be read as something else. -/
def startsAsIndicator : List Char → Bool
  | '-' :: '-' :: '-' :: _ => true
  | '.' :: '.' :: '.' :: _ => true
  | c :: cs => indicators.contains c || ((c == '?' || c == ':' || c == '-') && atSpace cs)
  | [] => true

def isPlain (cs : List Char) : Bool :=
  Kind.of cs == .text && cs.all isPlainChar && !startsAsIndicator cs && !holdsIndicator cs &&
    cs.head? != some ' ' && cs.getLast? != some ' '

def hasSpaceAtBreak : List Char → Bool
  | ' ' :: '\n' :: _ => true
  | '\n' :: ' ' :: _ => true
  | _ :: cs => hasSpaceAtBreak cs
  | [] => false

def isSingle (cs : List Char) : Bool :=
  cs.all (fun c => isPlainChar c || c == '\n') && !hasSpaceAtBreak cs

/-! ## Texts -/

/-- A text as it stands plainly or between single quotation marks, which are doubled in it. A single
space beyond the width becomes a line break, and a line break is doubled. -/
def foldText (single : Bool) (indent column : Nat) (before : Option Char) :
    List Char → List Char
  | [] => []
  | ' ' :: cs =>
    if lineWidth < column && before.any (· != ' ') && !atSpace cs then
      newline indent ++ foldText single indent indent (some ' ') cs
    else ' ' :: foldText single indent (column + 1) (some ' ') cs
  | '\n' :: cs =>
    let breaks := if before = some '\n' then ['\n'] else ['\n', '\n']
    if cs.head? = some '\n' then breaks ++ foldText single indent 0 (some '\n') cs
    else breaks ++ List.replicate indent ' ' ++ foldText single indent indent (some '\n') cs
  | c :: cs =>
    if single && c = '\'' then '\'' :: '\'' :: foldText single indent (column + 2) (some c) cs
    else c :: foldText single indent (column + 1) (some c) cs

def escapeLetters : List (Char × Char) :=
  [('\x00', '0'), ('\x07', 'a'), ('\x08', 'b'), ('\x09', 't'), ('\x0a', 'n'), ('\x0b', 'v'),
    ('\x0c', 'f'), ('\x0d', 'r'), ('\x1b', 'e'), ('"', '"'), ('\\', '\\'), ('\u0085', 'N'),
    ('\u00a0', '_'), ('\u2028', 'L'), ('\u2029', 'P')]

def isUnescaped (c : Char) : Bool :=
  isPlainChar c && c != '"' && c != '\\'

def escape (c : Char) : List Char :=
  match escapeLetters.lookup c with
  | some letter => ['\\', letter]
  | none =>
    let n := c.toNat
    if n < 0x100 then '\\' :: 'x' :: Text.hex true 2 n
    else if n < 0x10000 then '\\' :: 'u' :: Text.hex true 4 n
    else '\\' :: 'U' :: Text.hex true 8 n

/-- A line break within double quotation marks before a text, whose first space has to be marked, and
the column after it. -/
def breakBefore (indent : Nat) (cs : List Char) : List Char × Nat :=
  if cs.head? = some ' ' then ('\\' :: newline indent ++ ['\\'], indent + 1)
  else ('\\' :: newline indent, indent)

/-- A text as it stands between double quotation marks. A line is broken beyond the width before a
space and after an escape, but not next to the ends of the text; `start` says that no character has
been written since the last escape or break, `first` that none has been written at all. -/
def escapeText (indent column : Nat) (first start : Bool) : List Char → List Char
  | [] => []
  | c :: cs =>
    if isUnescaped c then
      if !first && !cs.isEmpty && (c == ' ' || start) && lineWidth < column then
        let (broken, column) := breakBefore indent (c :: cs)
        broken ++ c :: escapeText indent (column + 1) false false cs
      else c :: escapeText indent (column + 1) false false cs
    else
      let text := escape c
      let column := column + text.length
      if !first && !cs.isEmpty && lineWidth < column - 1 then
        let (broken, column) := breakBefore indent cs
        text ++ broken ++ escapeText indent column false true cs
      else text ++ escapeText indent column false true cs

def renderText (indent column : Nat) (cs : List Char) : List Char :=
  if isPlain cs then foldText false indent column none cs
  else if isSingle cs then '\'' :: foldText true indent (column + 1) none cs ++ ['\'']
  else '"' :: escapeText indent (column + 1) true true cs ++ ['"']

/-! ## Data -/

/-- A number with a point, which it always has. -/
def renderFloat (x : Float) : String :=
  if x.isNaN then ".nan"
  else if x.isInf then (if x < 0 then "-.inf" else ".inf")
  else
    let cs := (Number.shown x).toList
    let mantissa := cs.takeWhile (· != 'e')
    String.ofList
      (if mantissa.contains '.' then cs else mantissa ++ ".0".toList ++ cs.dropWhile (· != 'e'))

def renderCodes (codes : List Nat) : List Char :=
  '"' :: codes.flatMap (fun n => '\\' :: 'U' :: Text.hex true 8 n) ++ ['"']

def renderAtom (indent column : Nat) : Atom → List Char
  | .null => "null".toList
  | .bool b => (if b then "true" else "false").toList
  | .int n => (toString n).toList
  | .float x => (renderFloat x).toList
  | .text s => renderText indent column s.toList
  | .codes ns => renderCodes ns
  | .bytes bs => (Text.quotedBytes bs).toList
  | .timestamp t => t.shown.toList

/-! ## Keys -/

def lineEnds : List Char :=
  ['\n', '\u0085', '\u2028', '\u2029']

/-- Whether a text as a key stands on one line with the colon behind it. -/
def isShortKey (cs : List Char) : Bool :=
  !cs.isEmpty && cs.length < 123 && !cs.any lineEnds.contains

def renderShortKey (cs : List Char) : List Char :=
  if isPlain cs then cs
  else if isSingle cs then
    '\'' :: cs.flatMap (fun c => if c = '\'' then [c, c] else [c]) ++ ['\'']
  else '"' :: cs.flatMap (fun c => if isUnescaped c then [c] else escape c) ++ ['"']

def renderKey? : Atom → Option (List Char)
  | .text s => if isShortKey s.toList then some (renderShortKey s.toList) else none
  | key => some (renderAtom 0 0 key)

/-! ## Lists and maps -/

/-- A value that takes no further lines: an atom, or an empty list or map. -/
def renderLeaf (indent column : Nat) : Data → List Char
  | .atom a => renderAtom indent column a
  | .list _ => "[]".toList
  | .map _ => "\x7b\x7d".toList

mutual

/-- A value that starts on the line of its entry or item, after a space. -/
def renderBlock (indent : Nat) : Data → List Char
  | .list (item :: items) => renderItems indent (item :: items)
  | .map (entry :: entries) => renderEntries indent (entry :: entries)
  | d => renderLeaf (indent + 2) indent d

def renderItems (indent : Nat) : List Data → List Char
  | [] => []
  | item :: items =>
    let rest := renderItems indent items
    let first := match item with
      | .list _ | .map _ => renderBlock (indent + 2) item
      | leaf => renderLeaf (indent + 2) (indent + 2) leaf
    '-' :: ' ' :: first ++ (if rest.isEmpty then [] else newline indent ++ rest)

/-- The entries of a map, the first on the current line. A key that is not short has a question mark
before it, and its value a line of its own. -/
def renderEntries (indent : Nat) : List (Atom × Data) → List Char
  | [] => []
  | (key, value) :: entries =>
    let rest := renderEntries indent entries
    let written := match renderKey? key with
      | some name => name ++ ':' :: match value with
        | .list (item :: items) => newline indent ++ renderItems indent (item :: items)
        | .map (entry :: entries) =>
          newline (indent + 2) ++ renderEntries (indent + 2) (entry :: entries)
        | leaf => ' ' :: renderLeaf (indent + 2) (indent + name.length + 2) leaf
      | none =>
        '?' :: ' ' :: renderAtom (indent + 2) (indent + 2) key ++ newline indent ++ ':' :: ' ' ::
          match value with
          | .list (item :: items) => renderItems (indent + 2) (item :: items)
          | .map (entry :: entries) => renderEntries (indent + 2) (entry :: entries)
          | leaf => renderLeaf (indent + 2) (indent + 2) leaf
    written ++ (if rest.isEmpty then [] else newline indent ++ rest)

end

def render (d : Data) : String :=
  String.ofList (renderBlock 0 d ++ ['\n'])

end Stylesheet.Data.Yaml
