import Stylesheet.Data.Yaml.Text
import Stylesheet.Text.Utf8

/-!
# Tokens

A text is cut into tokens. Where blocks begin and end is told from the columns of lines and becomes
tokens too. That something is a key shows only at the colon after it; its token is then put in front
of it, which is why places where a key may have begun are kept in mind.

* `Token.ofText` : the tokens of a text.
-/

namespace Stylesheet.Data.Yaml

inductive Token where
  /-- The version that a document is written in. -/
  | version (major : Nat)
  /-- A short form of the names of types. -/
  | handle (name expansion : String)
  /-- A directive that has no meaning. -/
  | reserved
  | documentStart
  | documentEnd
  | blockListStart
  | blockMapStart
  | blockEnd
  | listStart
  | listEnd
  | mapStart
  | mapEnd
  /-- The comma between the items or entries within brackets. -/
  | comma
  /-- The hyphen before an item of a block. -/
  | item
  /-- The place before a key. -/
  | key
  /-- The place before a value. -/
  | value
  /-- A value that has been given a name before. -/
  | alias (name : String)
  /-- A name for the value that follows. -/
  | anchor (name : String)
  /-- The name of the type of the value that follows, perhaps in a short form. -/
  | type (handle : Option String) (name : String)
  /-- A scalar; `plain` says that it has no marks that make it a text. -/
  | scalar (plain : Bool) (text : Written)
  deriving DecidableEq, Repr

/-! ## Names -/

def isNameChar (c : Char) : Bool :=
  c.isAlphanum || c == '-' || c == '_'

def scanName (c : Cursor) : Except YamlFault (String × Cursor) :=
  let name := c.rest.takeWhile isNameChar
  if name.isEmpty then .error .malformed
  else .ok (String.ofList name, c.advance name.length)

def scanReference (c : Cursor) : Except YamlFault (String × Cursor) := do
  let (name, c) ← scanName c.next
  if atGap c.rest ∨ c.rest.head?.any (['?', ':', ',', ']', '\x7d', '%', '@', '\x60'].contains ·)
  then pure (name, c)
  else throw .malformed

def isUriChar (c : Char) : Bool :=
  c.isAlphanum || "-;/?:@&=+$,_.!~*'()[]".toList.contains c

/-- The bytes of consecutive escapes, and the place after them. -/
def uriBytes : Nat → Cursor → Except YamlFault (List UInt8 × Cursor)
  | 0, _ => .error .malformed
  | fuel + 1, c =>
    match c.rest with
    | '%' :: a :: b :: _ => do
      match Text.ofHex? [a, b] with
      | some n =>
        let (more, last) ← uriBytes fuel (c.advance 3)
        pure (UInt8.ofNat n :: more, last)
      | none => throw .malformed
    | '%' :: _ => .error .malformed
    | _ => .ok ([], c)

def uriFrom : Nat → Cursor → Except YamlFault (List Char × Cursor)
  | 0, _ => .error .malformed
  | fuel + 1, c =>
    let run := c.rest.takeWhile isUriChar
    let c := c.advance run.length
    if c.rest.head? = some '%' then do
      let (bytes, c) ← uriBytes (c.rest.length + 1) c
      match Text.decodeUtf8 bytes with
      | .error _ => throw .malformed
      | .ok found =>
        let (more, last) ← uriFrom fuel c
        pure (run ++ found ++ more, last)
    else .ok (run, c)

def scanUri (c : Cursor) : Except YamlFault (String × Cursor) := do
  let (name, last) ← uriFrom (c.rest.length + 1) c
  if last.index = c.index then throw .malformed else pure (String.ofList name, last)

def scanHandle (c : Cursor) : Except YamlFault (String × Cursor) :=
  match c.rest with
  | '!' :: ' ' :: _ => .ok ("!", c.next)
  | '!' :: rest =>
    let name := rest.takeWhile isNameChar
    if (rest.drop name.length).head? = some '!' then
      .ok (String.ofList ('!' :: name ++ ['!']), c.advance (name.length + 2))
    else .error .malformed
  | _ => .error .malformed

def scanType (c : Cursor) : Except YamlFault (Token × Cursor) := do
  let (token, c) ← match c.rest with
    | '!' :: '<' :: _ => do
      let (name, c) ← scanUri (c.advance 2)
      if c.rest.head? = some '>' then pure (Token.type none name, c.next) else throw .malformed
    | '!' :: rest =>
      if atGap rest then pure (Token.type none "!", c.next)
      else if (rest.takeWhile fun ch => !atSpaceOrBreak [ch]).contains '!' then do
        let (handle, c) ← scanHandle c
        let (name, c) ← scanUri c
        pure (Token.type (some handle) name, c)
      else do
        let (name, c) ← scanUri c.next
        pure (Token.type (some "!") name, c)
    | _ => throw .malformed
  if atSpaceOrBreak c.rest then pure (token, c) else throw .malformed

/-! ## Directives -/

def scanDigits (c : Cursor) : Except YamlFault (Nat × Cursor) :=
  let ds := c.rest.takeWhile Char.isDigit
  if ds.isEmpty then .error .malformed
  else (inBase 10 ds).map fun n => (n.toNat, c.advance ds.length)

def scanDirective (c : Cursor) : Except YamlFault (Token × Cursor) := do
  let (name, c) ← scanName c.next
  if !atSpaceOrBreak c.rest then throw .malformed
  let (token, c) ←
    if name = "YAML" then do
      let (major, c) ← scanDigits (c.skip (· == ' '))
      if c.rest.head? ≠ some '.' then throw .malformed
      let (_, c) ← scanDigits c.next
      if atSpaceOrBreak c.rest then pure (Token.version major, c) else throw .malformed
    else if name = "TAG" then do
      let (handle, c) ← scanHandle (c.skip (· == ' '))
      if c.rest.head? ≠ some ' ' then throw .malformed
      let (expansion, c) ← scanUri (c.skip (· == ' '))
      if atSpaceOrBreak c.rest then pure (Token.handle handle expansion, c) else throw .malformed
    else pure (Token.reserved, c.skip fun ch => !isBreak ch)
  pure (token, ← endLine c)

/-! ## Cutting -/

/-- A place where a key may have begun. -/
structure PossibleKey where
  /-- How many brackets stand around it. -/
  level : Nat
  /-- The number of tokens before it. -/
  position : Nat
  /-- Whether nothing else can begin there. -/
  required : Bool
  index : Nat
  line : Nat
  column : Nat

/-- The state between two tokens. -/
structure Lexer where
  cursor : Cursor
  /-- The tokens so far, the last first. -/
  tokens : List Token := []
  count : Nat := 0
  /-- How many brackets are open. -/
  level : Nat := 0
  /-- The column of the innermost open block; below zero if there is none. -/
  indent : Int := -1
  /-- The columns of the blocks around it, the innermost first. -/
  outer : List Int := []
  /-- Whether a key may begin here. -/
  keyAllowed : Bool := true
  /-- At most one possible key for every number of open brackets. -/
  keys : List PossibleKey := []

namespace Lexer

def push (token : Token) (l : Lexer) : Lexer :=
  { l with tokens := token :: l.tokens, count := l.count + 1 }

def pushTo (token : Token) (cursor : Cursor) (l : Lexer) : Lexer :=
  { l.push token with cursor }

def insert (position : Nat) (token : Token) (l : Lexer) : Lexer :=
  { l with tokens := l.tokens.insertIdx (l.count - position) token, count := l.count + 1 }

/-- The state without the possible keys that satisfy a condition; none of them may be required. -/
def dropKeys (p : PossibleKey → Bool) (l : Lexer) : Except YamlFault Lexer :=
  if l.keys.any fun key => p key && key.required then .error .malformed
  else .ok { l with keys := l.keys.filter fun key => !p key }

/-- The state without the possible keys that are too far back: a key stands on one line, and its
colon follows soon. -/
def dropStale (l : Lexer) : Except YamlFault Lexer :=
  l.dropKeys fun key => key.line != l.cursor.line || 1024 < l.cursor.index - key.index

/-- The state without the possible key within the present brackets. -/
def dropKey (l : Lexer) : Except YamlFault Lexer :=
  l.dropKeys fun key => key.level == l.level

/-- The state with a possible key at the present place, if one may begin there. -/
def markKey (l : Lexer) : Except YamlFault Lexer :=
  if l.keyAllowed then do
    let l ← l.dropKey
    let c := l.cursor
    let required := l.level == 0 && l.indent == c.column
    pure { l with keys := ⟨l.level, l.count, required, c.index, c.line, c.column⟩ :: l.keys }
  else .ok l

/-- The state after the blocks that are further right than a column have ended. -/
def unwind (column : Int) (l : Lexer) : Lexer :=
  let ended := (l.indent :: l.outer).takeWhile fun indent => decide (column < indent)
  if l.level ≠ 0 then l
  else
    let left := (l.indent :: l.outer).drop ended.length
    { l with
      tokens := List.replicate ended.length Token.blockEnd ++ l.tokens
      count := l.count + ended.length
      indent := left.headD (-1)
      outer := left.tail }

/-- The state after a block has begun at a column, and whether one has. -/
def enter (column : Nat) (l : Lexer) : Bool × Lexer :=
  if l.indent < column then (true, { l with indent := column, outer := l.indent :: l.outer })
  else (false, l)

/-- The state after a block has begun at the present column, if one has. -/
def enterHere (token : Token) (l : Lexer) : Lexer :=
  match l.enter l.cursor.column with
  | (true, l) => l.push token
  | (false, l) => l

/-- The place of the next token: blanks, comments and line breaks are passed over. Outside of
brackets a key may begin in every new line. -/
def skipGap : Nat → Lexer → Lexer
  | 0, l => l
  | fuel + 1, l =>
    let c := (l.cursor.skip (· == ' ')).skipComment
    match c.lineBreak? with
    | none => { l with cursor := c }
    | some (_, after) =>
      skipGap fuel { l with cursor := after, keyAllowed := l.keyAllowed || l.level == 0 }

def takeBoundary (l : Lexer) (token : Token) (cursor : Cursor) : Except YamlFault Lexer := do
  let l ← (l.unwind (-1)).dropKey
  pure ({ l with keyAllowed := false }.pushTo token cursor)

def takeKeyed (l : Lexer) (token : Token) (cursor : Cursor) : Except YamlFault Lexer := do
  let l ← l.markKey
  pure ({ l with keyAllowed := false }.pushTo token cursor)

def takeOpening (l : Lexer) (token : Token) : Except YamlFault Lexer := do
  let l ← l.markKey
  pure ({ l with level := l.level + 1, keyAllowed := true }.pushTo token l.cursor.next)

def takeClosing (l : Lexer) (token : Token) : Except YamlFault Lexer := do
  if l.level = 0 then throw .malformed
  let l ← l.dropKey
  pure ({ l with level := l.level - 1, keyAllowed := false }.pushTo token l.cursor.next)

def takeComma (l : Lexer) : Except YamlFault Lexer := do
  let l ← l.dropKey
  pure ({ l with keyAllowed := true }.pushTo .comma l.cursor.next)

/-- The state after the mark of an item, which begins a block of its own further right. -/
def takeItem (l : Lexer) : Except YamlFault Lexer := do
  if l.level = 0 ∧ !l.keyAllowed then throw .malformed
  let l := if l.level = 0 then l.enterHere .blockListStart else l
  let l ← { l with keyAllowed := true }.dropKey
  pure (l.pushTo .item l.cursor.next)

def takeKey (l : Lexer) : Except YamlFault Lexer := do
  if l.level = 0 ∧ !l.keyAllowed then throw .malformed
  let l := if l.level = 0 then l.enterHere .blockMapStart else l
  let l ← { l with keyAllowed := l.level == 0 }.dropKey
  pure (l.pushTo .key l.cursor.next)

/-- The state after a colon. What may have been a key in front of it is one, and begins a block if it
is further right than the block around it. -/
def takeValue (l : Lexer) : Except YamlFault Lexer :=
  match l.keys.find? (·.level == l.level) with
  | some key =>
    let l : Lexer := { l with keys := l.keys.filter (·.level != l.level), keyAllowed := false }
    let l := l.insert key.position .key
    let l := if l.level = 0 then
        match l.enter key.column with
        | (true, l) => l.insert key.position .blockMapStart
        | (false, l) => l
      else l
    .ok (l.pushTo .value l.cursor.next)
  | none => do
    if l.level = 0 ∧ !l.keyAllowed then throw .malformed
    let l := if l.level = 0 then l.enterHere .blockMapStart else l
    let l ← { l with keyAllowed := l.level == 0 }.dropKey
    pure (l.pushTo .value l.cursor.next)

def takeBlock (folded : Bool) (l : Lexer) : Except YamlFault Lexer := do
  let l ← { l with keyAllowed := true }.dropKey
  let (found, c) ← blockText folded l.indent l.cursor
  pure (l.pushTo (.scalar false (.chars found)) c)

def takeQuoted (double : Bool) (l : Lexer) : Except YamlFault Lexer := do
  let l ← l.markKey
  let (found, c) ← quotedText double l.cursor
  pure ({ l with keyAllowed := false }.pushTo (.scalar false found) c)

/-- The state after a plain text. If a line ended behind it, a key may begin in the new line. -/
def takePlain (l : Lexer) : Except YamlFault Lexer := do
  let (found, crossed, c) := plainText (l.level != 0) (l.indent + 1) l.cursor
  let l ← l.takeKeyed (.scalar true (.chars found)) c
  pure { l with keyAllowed := crossed }

def atPlain (inBrackets : Bool) : List Char → Bool
  | [] => false
  | c :: cs =>
    if "-?:".toList.contains c then !atGap cs && (c == '-' || !inBrackets)
    else !atGap [c] &&
      !([',', '[', ']', '\x7b', '\x7d', '#', '&', '*', '!', '|', '>', '\'', '"', '%', '@',
        '\x60'].contains c)

/-- The state after the next token, which starts at the present place. -/
def take (l : Lexer) (ch : Char) (after : List Char) : Except YamlFault Lexer :=
  let c := l.cursor
  let inBrackets := l.level != 0
  if ch = '%' ∧ c.column = 0 then do
    let (token, c) ← scanDirective c
    l.takeBoundary token c
  else if c.column = 0 ∧ atDocumentStart c.rest then l.takeBoundary .documentStart (c.advance 3)
  else if c.column = 0 ∧ atDocumentEnd c.rest then l.takeBoundary .documentEnd (c.advance 3)
  else if ch = '[' then l.takeOpening .listStart
  else if ch = '\x7b' then l.takeOpening .mapStart
  else if ch = ']' then l.takeClosing .listEnd
  else if ch = '\x7d' then l.takeClosing .mapEnd
  else if ch = ',' then l.takeComma
  else if ch = '-' ∧ atGap after then l.takeItem
  else if ch = '?' ∧ (inBrackets ∨ atGap after) then l.takeKey
  else if ch = ':' ∧ (inBrackets ∨ atGap after) then l.takeValue
  else if ch = '*' then do
    let (name, c) ← scanReference c
    l.takeKeyed (.alias name) c
  else if ch = '&' then do
    let (name, c) ← scanReference c
    l.takeKeyed (.anchor name) c
  else if ch = '!' then do
    let (token, c) ← scanType c
    l.takeKeyed token c
  else if ch = '|' ∧ !inBrackets then l.takeBlock false
  else if ch = '>' ∧ !inBrackets then l.takeBlock true
  else if ch = '\'' then l.takeQuoted false
  else if ch = '"' then l.takeQuoted true
  else if atPlain inBrackets (ch :: after) then l.takePlain
  else .error .malformed

/-- The tokens of a state that nothing that follows can change: what may still turn out to be a key is
not among them, nor what comes after it. -/
def settled (l : Lexer) : List Token :=
  let fresh := l.keys.filter fun key =>
    key.line == l.cursor.line && l.cursor.index - key.index ≤ 1024
  l.tokens.reverse.take (fresh.foldl (fun least key => min least key.position) l.count)

/-- The state after the next token and the ends of blocks before it, and whether the text has ended. -/
def step (l : Lexer) : Except YamlFault (Lexer × Bool) := do
  let l := skipGap (l.cursor.rest.length + 1) l
  let l ← l.dropStale
  let l := l.unwind l.cursor.column
  match l.cursor.rest with
  | [] => do
    pure (← (l.unwind (-1)).dropKey, true)
  | ch :: after => do
    pure (← l.take ch after, false)

/-- All tokens from a state on, up to the end of the text or to a fault. Every token but the last ones
takes a character. -/
def run : Nat → Lexer → List Token × Option YamlFault
  | 0, l => (l.settled, some .malformed)
  | fuel + 1, l =>
    match l.step with
    | .ok (l, true) => (l.tokens.reverse, none)
    | .ok (l, false) => run fuel l
    | .error fault => (l.settled, some fault)

end Lexer

def isAllowed (c : Char) : Bool :=
  let n := c.toNat
  n == 0x09 || n == 0x0A || n == 0x0D || (0x20 ≤ n && n ≤ 0x7E) || n == 0x85 ||
    (0xA0 ≤ n && n ≤ 0xD7FF) || (0xE000 ≤ n && n ≤ 0xFFFD) || 0x10000 ≤ n

/-- The tokens of a text, up to a fault if there is one. A mark of the byte order at its start is passed
over. -/
def Token.ofText (cs : List Char) : List Token × Option YamlFault :=
  if cs.all isAllowed then
    let start : Cursor := { rest := cs }
    let cursor := if cs.head? = some '\ufeff' then start.next else start
    Lexer.run (cs.length + 1) { cursor }
  else ([], some .malformed)

end Stylesheet.Data.Yaml
