import Stylesheet.Data
import Stylesheet.Number.Scientific
import Stylesheet.Text.Hex

/-!
# Data as JSON

Data is written with two spaces of indentation, with the keys of every map sorted, and in ASCII.
Reading accepts any JSON text; of two equal keys the last one counts. That long integers are refused
can be switched off.

* `Json.render` : the written form.
* `Json.parse` : the data that a text writes.
-/

namespace Stylesheet.Data.Json

/-! ## Writing -/

def unicodeEscape (n : Nat) : List Char :=
  '\\' :: 'u' :: Text.hex false 4 n

/-- A character in a written text. Outside ASCII it is escaped, as two halves beyond the first
65536. -/
def escaped (c : Char) : List Char :=
  let n := c.toNat
  if c = '"' then ['\\', '"']
  else if c = '\\' then ['\\', '\\']
  else if c = '\n' then ['\\', 'n']
  else if c = '\r' then ['\\', 'r']
  else if c = '\t' then ['\\', 't']
  else if n = 8 then ['\\', 'b']
  else if n = 12 then ['\\', 'f']
  else if 0x20 ≤ n ∧ n < 0x7F then [c]
  else if n < 0x10000 then unicodeEscape n
  else unicodeEscape (0xD800 + (n - 0x10000) / 0x400) ++
    unicodeEscape (0xDC00 + (n - 0x10000) % 0x400)

def renderText (s : String) : List Char :=
  '"' :: s.toList.flatMap escaped ++ ['"']

def newline (level : Nat) : List Char :=
  '\n' :: List.replicate (2 * level) ' '

/-- Inserts an entry before the first one with a greater key. -/
def insertSorted {α : Type} (entry : String × α) : List (String × α) → List (String × α)
  | [] => [entry]
  | e :: rest => if entry.1 < e.1 then entry :: e :: rest else e :: insertSorted entry rest

def sortEntries {α : Type} (entries : List (String × α)) : List (String × α) :=
  entries.foldl (fun sorted entry => insertSorted entry sorted) []

def bracketed (opening closing : Char) (level : Nat) (items : List (List Char)) : List Char :=
  if items.isEmpty then [opening, closing]
  else opening :: newline (level + 1) ++ List.intercalate (',' :: newline (level + 1)) items ++
    newline level ++ [closing]

def renderCodes (codes : List Nat) : List Char :=
  '"' :: codes.flatMap (fun n =>
    if n.isValidChar then escaped (Char.ofNat n) else unicodeEscape n) ++ ['"']

/-- A value that holds no others. The format has no form for bytes and dates, which are written as
texts. -/
def renderAtom : Atom → List Char
  | .null => "null".toList
  | .bool true => "true".toList
  | .bool false => "false".toList
  | .int n => (toString n).toList
  | .float x => (Number.shown x).toList
  | .text s => renderText s
  | .codes ns => renderCodes ns
  | .bytes bs => renderText (Text.quotedBytes bs)
  | .timestamp t => renderText t.shown

/-- The key of an entry as a text: what no text is has its written form. -/
def keyText : Atom → String
  | .text s => s
  | a => String.ofList (renderAtom a)

/-- An entry of a map whose value is written already. -/
def renderEntry (entry : String × List Char) : List Char :=
  renderText entry.1 ++ [':', ' '] ++ entry.2

mutual

def renderAt (level : Nat) : Data → List Char
  | atom a => renderAtom a
  | list items => bracketed '[' ']' level (renderItems (level + 1) items)
  | map entries =>
    bracketed '{' '}' level ((sortEntries (renderEntries (level + 1) entries)).map renderEntry)

def renderItems (level : Nat) : List Data → List (List Char)
  | [] => []
  | d :: ds => renderAt level d :: renderItems level ds

def renderEntries (level : Nat) : List (Atom × Data) → List (String × List Char)
  | [] => []
  | (k, v) :: rest => (keyText k, renderAt level v) :: renderEntries level rest

end

def render (d : Data) : String :=
  String.ofList (renderAt 0 d)

/-! ## Reading -/

inductive JsonFault where
  | malformed
  /-- An integer is too long. -/
  | tooLong (fault : Number.TooLong)
  deriving DecidableEq, Repr

def skip (cs : List Char) : List Char :=
  cs.dropWhile fun c => c == ' ' || c == '\n' || c == '\r' || c == '\t'

def after? (word : String) (cs : List Char) : Option (List Char) :=
  if word.toList.isPrefixOf cs then some (cs.drop word.length) else none

def simpleEscape? : Char → Option Char
  | '"' => some '"'
  | '\\' => some '\\'
  | '/' => some '/'
  | 'b' => some '\x08'
  | 'f' => some '\x0c'
  | 'n' => some '\n'
  | 'r' => some '\r'
  | 't' => some '\t'
  | _ => none

/-- The code points of the rest of a text whose opening mark has been read, and what follows its
closing mark. -/
def scanText? : List Char → Option (List Nat × List Char)
  | [] => none
  | '"' :: rest => some ([], rest)
  | '\\' :: 'u' :: a :: b :: c :: d :: rest =>
    match Text.ofHex? [a, b, c, d] with
    | none => none
    | some high =>
      if 0xD800 ≤ high ∧ high < 0xDC00 then
        match rest with
        | '\\' :: 'u' :: e :: f :: g :: h :: rest' =>
          match Text.ofHex? [e, f, g, h] with
          | none => none
          | some low =>
            if 0xDC00 ≤ low ∧ low < 0xE000 then
              (scanText? rest').map fun (ns, rest) =>
                ((0x10000 + (high - 0xD800) * 0x400 + (low - 0xDC00)) :: ns, rest)
            else (scanText? ('\\' :: 'u' :: e :: f :: g :: h :: rest')).map fun (ns, rest) =>
              (high :: ns, rest)
        | rest => (scanText? rest).map fun (ns, rest) => (high :: ns, rest)
      else (scanText? rest).map fun (ns, rest) => (high :: ns, rest)
  | '\\' :: c :: rest =>
    match simpleEscape? c with
    | some c => (scanText? rest).map fun (ns, rest) => (c.toNat :: ns, rest)
    | none => none
  | c :: rest =>
    if c.toNat < 0x20 ∨ c = '\\' then none
    else (scanText? rest).map fun (ns, rest) => (c.toNat :: ns, rest)

def scanAtomText (cs : List Char) : Except JsonFault (Atom × List Char) :=
  match scanText? cs with
  | some (codes, rest) => .ok (.ofCodes codes, rest)
  | none => .error .malformed

def scanFraction (cs : List Char) : List Char × List Char :=
  match cs with
  | '.' :: rest =>
    let digits := rest.takeWhile Char.isDigit
    if digits.isEmpty then ([], cs) else (digits, rest.dropWhile Char.isDigit)
  | _ => ([], cs)

def scanExponent (cs : List Char) : Option Int × List Char :=
  match cs with
  | mark :: rest =>
    if mark = 'e' ∨ mark = 'E' then
      let (negative, digits) := match rest with
        | '-' :: ds => (true, ds)
        | '+' :: ds => (false, ds)
        | ds => (false, ds)
      let size := digits.takeWhile Char.isDigit
      if size.isEmpty then (none, cs)
      else
        let n : Int := Nat.ofDigitChars 10 size 0
        (some (if negative then -n else n), digits.dropWhile Char.isDigit)
    else (none, cs)
  | [] => (none, cs)

/-- The digits before the point of a number; none come after a zero in front. -/
def wholeDigits (cs : List Char) : List Char :=
  match cs with
  | '0' :: _ => ['0']
  | _ => cs.takeWhile Char.isDigit

/-- A number at the start of a text whose sign has been read: an integer unless a fraction or an
exponent follows. -/
def scanUnsigned (limited negative : Bool) (cs : List Char) :
    Except JsonFault (Atom × List Char) :=
  let whole := wholeDigits cs
  if whole.isEmpty then .error .malformed
  else
    let rest := cs.drop whole.length
    let (fraction, rest) := scanFraction rest
    let (exponent, rest) := scanExponent rest
    if fraction.isEmpty && exponent.isNone then
      if limited ∧ Number.maxDigits < whole.length then .error (.tooLong (.read whole.length))
      else
        let n : Int := Nat.ofDigitChars 10 whole 0
        .ok (.int (if negative then -n else n), rest)
    else
      let n := Nat.ofDigitChars 10 (whole ++ fraction) 0
      .ok (.float (Number.scientific negative n (exponent.getD 0 - fraction.length)), rest)

def scanNumber (limited : Bool) (cs : List Char) : Except JsonFault (Atom × List Char) :=
  match cs with
  | '-' :: rest => scanUnsigned limited true rest
  | _ => scanUnsigned limited false cs

/-- A value that is one word or number. -/
def scanAtom (limited : Bool) (cs : List Char) : Except JsonFault (Atom × List Char) :=
  let word := (after? "null" cs).map (Atom.null, ·) <|> (after? "true" cs).map (.bool true, ·) <|>
    (after? "false" cs).map (.bool false, ·) <|> (after? "NaN" cs).map (.float (0.0 / 0.0), ·) <|>
    (after? "Infinity" cs).map (.float (1.0 / 0.0), ·) <|>
    (after? "-Infinity" cs).map (.float (-1.0 / 0.0), ·)
  match word with
  | some found => .ok found
  | none => scanNumber limited cs

mutual

/-- A value at the start of a text and what follows it; every nested value and separator takes one
unit of `fuel`. -/
def scanValue (limited : Bool) : Nat → List Char → Except JsonFault (Data × List Char)
  | 0, _ => .error .malformed
  | fuel + 1, cs =>
    match cs with
    | '"' :: rest => (scanAtomText rest).map fun (a, rest) => (.atom a, rest)
    | '[' :: rest =>
      match skip rest with
      | ']' :: rest => .ok (.list [], rest)
      | rest => (scanItems limited fuel rest).map fun (items, rest) => (.list items, rest)
    | '{' :: rest =>
      match skip rest with
      | '}' :: rest => .ok (.map [], rest)
      | rest =>
        (scanEntries limited fuel rest).map fun (entries, rest) => (.map (settle entries), rest)
    | cs => (scanAtom limited cs).map fun (a, rest) => (.atom a, rest)

def scanItems (limited : Bool) : Nat → List Char → Except JsonFault (List Data × List Char)
  | 0, _ => .error .malformed
  | fuel + 1, cs => do
    let (d, rest) ← scanValue limited fuel cs
    match skip rest with
    | ']' :: rest => pure ([d], rest)
    | ',' :: rest =>
      let (items, rest) ← scanItems limited fuel (skip rest)
      pure (d :: items, rest)
    | _ => throw .malformed

def scanEntries (limited : Bool) :
    Nat → List Char → Except JsonFault (List (Atom × Data) × List Char)
  | 0, _ => .error .malformed
  | fuel + 1, cs => do
    match cs with
    | '"' :: rest =>
      let (key, rest) ← scanAtomText rest
      match skip rest with
      | ':' :: rest =>
        let (d, rest) ← scanValue limited fuel (skip rest)
        match skip rest with
        | '}' :: rest => pure ([(key, d)], rest)
        | ',' :: rest =>
          let (entries, rest) ← scanEntries limited fuel (skip rest)
          pure ((key, d) :: entries, rest)
        | _ => throw .malformed
      | _ => throw .malformed
    | _ => throw .malformed

end

/-- The data that a whole text writes, where `limited` says whether integers may only be so long. Every
value and every separator takes a character, so the length of the text bounds their number. -/
def parseWith (limited : Bool) (s : String) : Except JsonFault Data := do
  let (d, rest) ← scanValue limited (2 * s.length + 2) (skip s.toList)
  if (skip rest).isEmpty then pure d else throw .malformed

def parse (s : String) : Except JsonFault Data :=
  parseWith true s

end Stylesheet.Data.Json
