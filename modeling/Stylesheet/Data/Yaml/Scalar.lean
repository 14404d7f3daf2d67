import Stylesheet.Data.Atom
import Stylesheet.Data.Yaml.Fault
import Stylesheet.Number.Literal
import Stylesheet.Text.Base64
import Stylesheet.Text.Lower
import Stylesheet.Text.Pieces

/-!
# What scalars stand for

A scalar that is written without quotation marks may stand for something else than its text: the
words for null and the truth values, integers in four bases or in base sixty, numbers with a point,
dates, and the two marks `<<` and `=`.

* `Kind.of` : what a text without quotation marks stands for.
* `Kind.read` : the atom that a text of a kind is.
-/

namespace Stylesheet.Data.Yaml

/-- The text of a scalar. -/
inductive Written where
  | chars (cs : List Char)
  /-- The code points of a text of which some are no characters. -/
  | codes (ns : List Nat)
  deriving DecidableEq, Repr

def Written.ofCodes (codes : List Nat) : Written :=
  if codes.all fun n => n.isValidChar then chars (codes.map Char.ofNat) else .codes codes

def Written.atom : Written → Atom
  | chars cs => .text (String.ofList cs)
  | codes ns => .codes ns

/-- What a value is. -/
inductive Kind where
  | null
  | bool
  | int
  | float
  | binary
  | timestamp
  | text
  | list
  | map
  | set
  /-- A list of maps that hold one entry each, which become pairs. -/
  | pairs
  /-- The mark that merges a map into the one it stands in. -/
  | merge
  /-- The mark of the value that stands for the map it is in. -/
  | default
  | unknown
  deriving DecidableEq, Repr

/-! ## Words -/

def nullWords : List String :=
  ["", "~", "null", "Null", "NULL"]

def truthWords : List (String × Bool) :=
  [("yes", true), ("no", false), ("true", true), ("false", false), ("on", true), ("off", false)]

/-- A word in small letters, with a capital, and in capitals. -/
def letterCases (word : String) : List String :=
  [word, word.capitalize, word.toUpper]

def isTruthWord (text : String) : Bool :=
  truthWords.any fun word => (letterCases word.1).contains text

/-! ## Numbers -/

/-- Whether a character is a digit or the mark that may stand between digits. -/
def isDigitOrMark (c : Char) : Bool :=
  c.isDigit || c == '_'

def withoutSign : List Char → List Char
  | '-' :: cs => cs
  | '+' :: cs => cs
  | cs => cs

def isSixtieth : List Char → Bool
  | [a] => a.isDigit
  | [a, b] => '0' ≤ a && a ≤ '5' && b.isDigit
  | _ => false

def areSixtieths : List Char → Bool
  | ':' :: cs => (Text.pieces ':' cs).all isSixtieth
  | _ => false

def isInt (cs : List Char) : Bool :=
  match withoutSign cs with
  | ['0'] => true
  | '0' :: 'b' :: ds => !ds.isEmpty && ds.all fun c => c == '0' || c == '1' || c == '_'
  | '0' :: 'x' :: ds => !ds.isEmpty && ds.all fun c => Text.isHexDigit c || c == '_'
  | '0' :: ds => ds.all fun c => ('0' ≤ c && c ≤ '7') || c == '_'
  | d :: ds =>
    let rest := ds.dropWhile isDigitOrMark
    d.isDigit && (rest.isEmpty || areSixtieths rest)
  | [] => false

/-- Whether a text is nothing or an exponent with its sign. -/
def isExponent : List Char → Bool
  | [] => true
  | mark :: sign :: digits =>
    (mark == 'e' || mark == 'E') && (sign == '-' || sign == '+') && !digits.isEmpty &&
      digits.all Char.isDigit
  | _ => false

def infinityWords : List String :=
  [".inf", ".Inf", ".INF"]

/-- The texts that stand for what is no number. -/
def noNumberWords : List String :=
  [".nan", ".NaN", ".NAN"]

def isFloat (cs : List Char) : Bool :=
  let body := withoutSign cs
  infinityWords.contains (String.ofList body) || noNumberWords.contains (String.ofList cs) ||
    (match cs with
      | '.' :: d :: ds => d.isDigit && isExponent (ds.dropWhile isDigitOrMark)
      | _ => false) ||
    (match body with
      | d :: ds => d.isDigit &&
        (match ds.dropWhile isDigitOrMark with
          | '.' :: rest => isExponent (rest.dropWhile isDigitOrMark)
          | rest => areSixtieths (rest.takeWhile (· != '.')) &&
            (match rest.dropWhile (· != '.') with
              | '.' :: places => places.all isDigitOrMark
              | _ => false))
      | [] => false)

/-! ## Dates -/

/-- The number of at least `least` and at most `most` digits at the start of a text. -/
def digits? (least most : Nat) (cs : List Char) : Option (Nat × List Char) :=
  let ds := (cs.take most).takeWhile Char.isDigit
  if ds.length < least then none else some (Nat.ofDigitChars 10 ds 0, cs.drop ds.length)

def after? (c : Char) : List Char → Option (List Char)
  | d :: cs => if d = c then some cs else none
  | [] => none

def isSpace (c : Char) : Bool :=
  c == ' ' || c == '\t'

/-- The offset from universal time in minutes that a whole text writes; no offset for no text. -/
def offset? (cs : List Char) : Option (Option Int) :=
  match cs with
  | [] => some none
  | cs => match cs.dropWhile isSpace with
    | ['Z'] => some (some 0)
    | sign :: rest => do
      let (hours, rest) ← digits? 1 2 rest
      let minutes ← match rest with
        | [] => some 0
        | rest => do
          let (minutes, rest) ← digits? 2 2 (← after? ':' rest)
          if rest.isEmpty then some minutes else none
      let offset : Int := hours * 60 + minutes
      if sign = '+' then some (some offset)
      else if sign = '-' then some (some (-offset))
      else none
    | [] => none

def clockTime? (cs : List Char) : Option ClockTime := do
  let (hour, cs) ← digits? 1 2 cs
  let (minute, cs) ← digits? 2 2 (← after? ':' cs)
  let (second, cs) ← digits? 2 2 (← after? ':' cs)
  let (fraction, cs) := match cs with
    | '.' :: cs => (cs.takeWhile Char.isDigit, cs.dropWhile Char.isDigit)
    | cs => ([], cs)
  let microsecond := Nat.ofDigitChars 10 (fraction.take 6 ++ List.replicate (6 - fraction.length) '0') 0
  pure ⟨hour, minute, second, microsecond, ← offset? cs⟩

/-- The date that a whole text writes, perhaps with a time after a `T` or blanks. Nothing is known
about its numbers but how many digits they have. -/
def timestamp? (cs : List Char) : Option Timestamp := do
  let (year, cs) ← digits? 4 4 cs
  let (month, cs) ← digits? 1 2 (← after? '-' cs)
  let (day, cs) ← digits? 1 2 (← after? '-' cs)
  match cs with
  | [] => pure ⟨year, month, day, none⟩
  | c :: rest =>
    if c = 'T' ∨ c = 't' then pure ⟨year, month, day, some (← clockTime? rest)⟩
    else if isSpace c then pure ⟨year, month, day, some (← clockTime? (rest.dropWhile isSpace))⟩
    else none

/-- Whether a text writes a date; one without a time has all its ten characters. -/
def isTimestamp (cs : List Char) : Bool :=
  match timestamp? cs with
  | some t => t.time.isSome || cs.length == 10
  | none => false

/-! ## Kinds -/

namespace Kind

/-- A text without the line break at its end, which does not change what it stands for. -/
def withoutBreak (cs : List Char) : List Char :=
  if 1 < cs.length ∧ cs.getLast? = some '\n' then cs.dropLast else cs

def of (cs : List Char) : Kind :=
  let cs := withoutBreak cs
  let text := String.ofList cs
  if nullWords.contains text then .null
  else if isTruthWord text then .bool
  else if isFloat cs then .float
  else if isInt cs then .int
  else if isTimestamp cs then .timestamp
  else if text = "<<" then .merge
  else if text = "=" then .default
  else if ["!", "&", "*"].contains text then .unknown
  else .text

def ofName : String → Kind
  | "null" => null
  | "bool" => bool
  | "int" => int
  | "float" => float
  | "binary" => binary
  | "timestamp" => timestamp
  | "str" => text
  | "seq" => list
  | "map" => map
  | "set" => set
  | "omap" => pairs
  | "pairs" => pairs
  | "merge" => merge
  | "value" => default
  | _ => unknown

end Kind

/-! ## Reading -/

/-- Whether a text starts with a minus sign, and the text after its sign. Nothing is no number. -/
def signOf : List Char → Except YamlFault (Bool × List Char)
  | [] => .error .nothingWritten
  | '-' :: cs => .ok (true, cs)
  | '+' :: cs => .ok (false, cs)
  | cs => .ok (false, cs)

def inBase (base : Nat) (cs : List Char) : Except YamlFault Int :=
  (Number.int base cs).mapError fun fault => .noSuchValue fault.message

def intOf (cs : List Char) : Except YamlFault Int := do
  let (negative, body) ← signOf (cs.filter (· != '_'))
  let n ← match body with
    | [] => throw .nothingWritten
    | ['0'] => pure 0
    | '0' :: 'b' :: ds => inBase 2 ds
    | '0' :: 'x' :: ds => inBase 16 ds
    | '0' :: ds => inBase 8 ('0' :: ds)
    | ds =>
      if ds.contains ':' then do
        pure ((← (Text.pieces ':' ds).mapM (inBase 10)).foldl (fun n d => 60 * n + d) 0)
      else inBase 10 ds
  pure (if negative then -n else n)

def withPoint (cs : List Char) : Except YamlFault Float :=
  (Number.float cs).mapError fun fault => .noSuchValue fault.message

/-- The number that digits of base sixty make up, the last first; each is worth `unit` times what it
would be worth alone, as long as that can be counted with. -/
def floatSixtieths (total : Float) (unit : Nat) : List Float → Except YamlFault Float
  | [] => .ok total
  | d :: ds =>
    let weight := Number.nearest false unit 1
    if weight.isInf then .error .tooGreat
    else floatSixtieths (total + d * weight) (60 * unit) ds

def floatOf (cs : List Char) : Except YamlFault Float := do
  let (negative, body) ← signOf (Text.lowerChars (cs.filter (· != '_')))
  let x ←
    if String.ofList body = ".inf" then pure (1.0 / 0.0)
    else if String.ofList body = ".nan" then pure (0.0 / 0.0)
    else if body.contains ':' then do
      floatSixtieths 0 1 (← (Text.pieces ':' body).mapM withPoint).reverse
    else withPoint body
  pure (if negative then -x else x)

/-- A span of minutes as messages show it. -/
def shownSpan (minutes : Int) : String :=
  let days := minutes / 1440
  let seconds := minutes % 1440 * 60
  "datetime.timedelta(days=" ++ toString days ++
    (if seconds = 0 then "" else ", seconds=" ++ toString seconds) ++ ")"

def clockFault? (time : ClockTime) : Option String :=
  if 23 < time.hour then some "hour must be in 0..23"
  else if 59 < time.minute then some "minute must be in 0..59"
  else if 59 < time.second then some "second must be in 0..59"
  else none

def timestampFault? (t : Timestamp) : Option String :=
  let offset := (t.time.bind (·.offset)).getD 0
  if 1440 ≤ offset.natAbs then
    some ("offset must be a timedelta strictly between -timedelta(hours=24) and " ++
      "timedelta(hours=24), not " ++ shownSpan offset ++ ".")
  else if t.year = 0 then some "year 0 is out of range"
  else if t.month = 0 ∨ 12 < t.month then some "month must be in 1..12"
  else if t.day = 0 ∨ Timestamp.daysIn t.year t.month < t.day then
    some "day is out of range for month"
  else t.time.bind clockFault?

def timestampOf (cs : List Char) : Except YamlFault Timestamp :=
  match timestamp? (Kind.withoutBreak cs) with
  | none => .error .noDate
  | some t => match timestampFault? t with
    | some message => .error (.noSuchValue message)
    | none => .ok t

def truthOf (cs : List Char) : Except YamlFault Bool :=
  let word := String.ofList (Text.lowerChars cs)
  match truthWords.lookup word with
  | some b => .ok b
  | none => .error (.noTruthWord (Text.quoted word))

def bytesOf (cs : List Char) : Except YamlFault (List UInt8) :=
  match Text.Base64.decode? cs with
  | some bytes => if cs.all fun c => c.toNat < 0x80 then .ok bytes else .error .malformed
  | none => .error .malformed

/-! ## Texts that are not all characters

Such a text writes no number, but what is refused of it is the first part that writes none. -/

def readPart {α : Type} (read : List Char → Except YamlFault α) (refusal : String) (ns : List Nat) :
    Except YamlFault α :=
  if ns.all fun n => n.isValidChar then read (ns.map Char.ofNat)
  else .error (.noSuchValue (refusal ++ ": " ++ Text.quotedCodes ns))

/-- The code points of a text without the marks between digits and without a sign at its start. -/
def bareCodes (ns : List Nat) : List Nat :=
  match ns.filter (· != '_'.toNat) with
  | n :: ns => if n = '-'.toNat ∨ n = '+'.toNat then ns else n :: ns
  | [] => []

def readIntPart (base : Nat) (ns : List Nat) : Except YamlFault Int :=
  readPart (inBase base) ("invalid literal for int() with base " ++ toString base) ns

/-- The integer that code points write, of which some are no characters. -/
def intOfCodes (ns : List Nat) : Except YamlFault Int :=
  let ns := bareCodes ns
  let digits := ns.drop 2
  if ns.take 2 = ['0'.toNat, 'b'.toNat] then readIntPart 2 digits
  else if ns.take 2 = ['0'.toNat, 'x'.toNat] then readIntPart 16 digits
  else if ns.head? = some '0'.toNat then readIntPart 8 ns
  else do
    let parts ← (Text.pieces ':'.toNat ns).mapM (readIntPart 10)
    pure (parts.foldl (fun n d => 60 * n + d) 0)

/-- The number with a point that code points write, of which some are no characters. -/
def floatOfCodes (ns : List Nat) : Except YamlFault Float := do
  let parts ← (Text.pieces ':'.toNat (bareCodes (Text.lowerCodes ns))).mapM
    (readPart withPoint "could not convert string to float")
  floatSixtieths 0 1 parts.reverse

/-- The atom that a text of a kind is, if atoms can be of this kind. -/
def Kind.read (kind : Kind) (written : Written) : Except YamlFault Atom :=
  match kind, written with
  | null, _ => .ok .null
  | text, written => .ok written.atom
  | bool, .chars cs => (truthOf cs).map .bool
  | bool, .codes ns => .error (.noTruthWord (Text.quotedCodes (Text.lowerCodes ns)))
  | int, .chars cs => (intOf cs).map .int
  | int, .codes ns => (intOfCodes ns).map .int
  | float, .chars cs => (floatOf cs).map .float
  | float, .codes ns => (floatOfCodes ns).map .float
  | binary, .chars cs => (bytesOf cs).map .bytes
  | timestamp, .chars cs => (timestampOf cs).map .timestamp
  | timestamp, .codes _ => .error .noDate
  | _, _ => .error .malformed

end Stylesheet.Data.Yaml
