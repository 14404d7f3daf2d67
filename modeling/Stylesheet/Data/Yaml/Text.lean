import Stylesheet.Data.Yaml.Cursor
import Stylesheet.Data.Yaml.Scalar

/-!
# Reading the texts of scalars

A text is written plainly, between quotation marks, or as a block beneath its header. In the first
two, a line break between words counts as a space, and every further one as itself; a block keeps
its line breaks, or folds them in the same way.
-/

namespace Stylesheet.Data.Yaml

/-- A line break between words and the further ones after it, folded. -/
def foldBreaks (first : Char) (others : List Char) : List Char :=
  if first ≠ '\n' then first :: others
  else if others.isEmpty then [' ']
  else others

/-! ## Plain texts -/

/-- The characters that end a plain text within brackets. -/
def isFlowEnd (c : Char) : Bool :=
  c == ',' || c == '?' || c == '[' || c == ']' || c == '\x7b' || c == '\x7d'

/-- Whether a text is empty or starts with what may follow the colon after a key. -/
def atKeyEnd (inBrackets : Bool) (cs : List Char) : Bool :=
  atGap cs || inBrackets && cs.head?.any fun c => isFlowEnd c && c != '?'

/-- The characters of a plain text up to the next blank or indicator. -/
def plainRun (inBrackets : Bool) : List Char → List Char
  | [] => []
  | c :: cs =>
    if atGap [c] || (c == ':' && atKeyEnd inBrackets cs) || (inBrackets && isFlowEnd c) then []
    else c :: plainRun inBrackets cs

structure Between where
  /-- The folded blanks and line breaks. -/
  text : List Char
  /-- Whether a line ended. -/
  crossed : Bool
  /-- Whether the text ends here. -/
  ended : Bool
  cursor : Cursor

def plainBreaks : Nat → Cursor → List Char × Bool × Cursor
  | 0, c => ([], true, c)
  | fuel + 1, c =>
    if c.rest.head? = some ' ' then plainBreaks fuel c.next
    else match c.lineBreak? with
      | none => ([], false, c)
      | some (b, after) =>
        if atMarker after.rest then ([], true, after)
        else
          let (breaks, ended, last) := plainBreaks fuel after
          (b :: breaks, ended, last)

def between (c : Cursor) : Between :=
  let blanks := c.rest.takeWhile (· == ' ')
  let c := c.advance blanks.length
  match c.lineBreak? with
  | none => ⟨blanks, false, blanks.isEmpty, c⟩
  | some (b, after) =>
    if atMarker after.rest then ⟨[], true, true, after⟩
    else
      let (breaks, ended, last) := plainBreaks (after.rest.length + 1) after
      ⟨foldBreaks b breaks, true, ended, last⟩

/-- A plain text from a place on, whether the place after it is in a line of its own, and that place.
Outside of brackets its lines have to be indented by `indent`. -/
def plainFrom (inBrackets : Bool) (indent : Int) : Nat → Bool → Cursor → List Char × Bool × Cursor
  | 0, crossed, c => ([], crossed, c)
  | fuel + 1, crossed, c =>
    let run := plainRun inBrackets c.rest
    if c.rest.head? = some '#' ∨ run.isEmpty then ([], crossed, c)
    else
      let gap := between (c.advance run.length)
      if gap.ended ∨ gap.cursor.rest.head? = some '#' ∨
          (!inBrackets && gap.cursor.column < indent) then
        (run, gap.crossed, gap.cursor)
      else
        let (more, crossed, last) := plainFrom inBrackets indent fuel gap.crossed gap.cursor
        (run ++ (if more.isEmpty then [] else gap.text ++ more), crossed, last)

def plainText (inBrackets : Bool) (indent : Int) (c : Cursor) : List Char × Bool × Cursor :=
  plainFrom inBrackets indent (c.rest.length + 1) false c

/-! ## Texts between quotation marks -/

def escapedLetters : List (Char × Char) :=
  [('0', '\x00'), ('a', '\x07'), ('b', '\x08'), ('t', '\x09'), ('\t', '\x09'), ('n', '\x0a'),
    ('v', '\x0b'), ('f', '\x0c'), ('r', '\x0d'), ('e', '\x1b'), (' ', ' '), ('"', '"'),
    ('\\', '\\'), ('/', '/'), ('N', '\u0085'), ('_', '\u00a0'), ('L', '\u2028'), ('P', '\u2029')]

def escapeWidth? : Char → Option Nat
  | 'x' => some 2
  | 'u' => some 4
  | 'U' => some 8
  | _ => none

/-- The code point of a number, which may be one of no character. -/
def codeOf (n : Nat) : Except YamlFault Nat :=
  if n < 0x110000 then .ok n
  else if n < 0x80000000 then .error (.noSuchValue "chr() arg not in range(0x110000)")
  else .error .tooGreat

def codesOf (cs : List Char) : List Nat :=
  cs.map Char.toNat

def quotedBreaks : Nat → Cursor → Except YamlFault (List Char × Cursor)
  | 0, _ => .error .malformed
  | fuel + 1, c =>
    if atMarker c.rest then .error .malformed
    else
      let c := c.skip isSpace
      match c.lineBreak? with
      | none => .ok ([], c)
      | some (b, after) => do
        let (breaks, last) ← quotedBreaks fuel after
        pure (b :: breaks, last)

/-- The blanks and line breaks at a place between quotation marks, folded. -/
def quotedBlanks (c : Cursor) : Except YamlFault (List Char × Cursor) :=
  let blanks := c.rest.takeWhile isSpace
  let c := c.advance blanks.length
  match c.lineBreak? with
  | none => .ok (blanks, c)
  | some (b, after) => do
    let (breaks, last) ← quotedBreaks (after.rest.length + 1) after
    pure (foldBreaks b breaks, last)

/-- What an escape stands for, as code points, and the place after it. The place is the one after its
mark. -/
def escapedText (c : Cursor) : Except YamlFault (List Nat × Cursor) :=
  match c.rest with
  | [] => .error .malformed
  | ch :: _ =>
    match escapedLetters.lookup ch, escapeWidth? ch with
    | some found, _ => .ok ([found.toNat], c.next)
    | none, some width =>
      let digits := c.next.rest.take width
      match Text.ofHex? digits with
      | some n =>
        if digits.length < width then .error .malformed
        else (codeOf n).map fun found => ([found], c.next.advance width)
      | none => .error .malformed
    | none, none =>
      match c.lineBreak? with
      | some (_, after) => do
        let (breaks, last) ← quotedBreaks (after.rest.length + 1) after
        pure (codesOf breaks, last)
      | none => .error .malformed

/-- The code points of a text after its opening quotation mark, which is double or single, and the place
after its closing one. -/
def quotedFrom (double : Bool) : Nat → Cursor → Except YamlFault (List Nat × Cursor)
  | 0, _ => .error .malformed
  | fuel + 1, c =>
    let goOn : List Nat × Cursor → Except YamlFault (List Nat × Cursor) := fun (found, c) => do
      let (more, last) ← quotedFrom double fuel c
      pure (found ++ more, last)
    match c.rest with
    | [] => .error .malformed
    | ch :: after =>
      if atGap [ch] then do
        let (blanks, c) ← quotedBlanks c
        goOn (codesOf blanks, c)
      else if double then
        if ch = '"' then .ok ([], c.next)
        else if ch = '\\' then escapedText c.next >>= goOn
        else goOn ([ch.toNat], c.next)
      else if ch = '\'' then
        if after.head? = some '\'' then goOn ([ch.toNat], c.advance 2) else .ok ([], c.next)
      else goOn ([ch.toNat], c.next)

def quotedText (double : Bool) (c : Cursor) : Except YamlFault (Written × Cursor) := do
  let (codes, last) ← quotedFrom double (c.rest.length + 1) c.next
  pure (.ofCodes codes, last)

/-! ## Blocks -/

/-- What happens to the line breaks at the end of a block. -/
inductive Chomping where
  /-- One is kept. -/
  | clip
  /-- None is kept. -/
  | strip
  /-- All are kept. -/
  | keep
  deriving DecidableEq, Repr

def Chomping.ofSign? : Char → Option Chomping
  | '+' => some .keep
  | '-' => some .strip
  | _ => none

def stepOf? (c : Char) : Option Nat :=
  if c.isDigit then some (c.toNat - '0'.toNat) else none

/-- The chomping and the indentation that the header of a block gives, in either order, and the place
after them. -/
def blockHeader (c : Cursor) : Except YamlFault (Chomping × Option Nat × Cursor) :=
  let sign := c.rest.head?.bind Chomping.ofSign?
  let c := if sign.isSome then c.next else c
  let step := c.rest.head?.bind stepOf?
  let c := if step.isSome then c.next else c
  let later := if sign.isNone && step.isSome then c.rest.head?.bind Chomping.ofSign? else none
  let c := if later.isSome then c.next else c
  if step = some 0 ∨ !atSpaceOrBreak c.rest then .error .malformed
  else .ok ((sign <|> later).getD .clip, step, c)

/-- The place after the rest of a line that holds nothing but a comment. -/
def endLine (c : Cursor) : Except YamlFault Cursor :=
  let c := (c.skip (· == ' ')).skipComment
  if atBreak c.rest then
    .ok (match c.lineBreak? with
      | some (_, after) => after
      | none => c)
  else .error .malformed

def skipIndent (indent : Nat) (c : Cursor) : Cursor :=
  c.advance (min (indent - c.column) (c.rest.takeWhile (· == ' ')).length)

/-- The line breaks of the blank lines at the start of a block, the widest indentation among them
and the first line, and the place after that. -/
def leadingBreaks : Nat → Nat → Cursor → List Char × Nat × Cursor
  | 0, widest, c => ([], widest, c)
  | fuel + 1, widest, c =>
    if c.rest.head? = some ' ' then leadingBreaks fuel (max widest c.next.column) c.next
    else match c.lineBreak? with
      | none => ([], widest, c)
      | some (b, after) =>
        let (breaks, widest, last) := leadingBreaks fuel widest after
        (b :: breaks, widest, last)

def blockBreaks (indent : Nat) : Nat → Cursor → List Char × Cursor
  | 0, c => ([], c)
  | fuel + 1, c =>
    let c := skipIndent indent c
    match c.lineBreak? with
    | none => ([], c)
    | some (b, after) =>
      let (breaks, last) := blockBreaks indent fuel after
      (b :: breaks, last)

/-- The lines of a block, the line break after the last one, those of the blank lines after it, and
the place after all. -/
def blockLines (folded : Bool) (indent : Nat) :
    Nat → List Char → Cursor → List Char × List Char × List Char × Cursor
  | 0, breaks, c => ([], [], breaks, c)
  | fuel + 1, breaks, c =>
    if c.column ≠ indent ∨ c.rest.isEmpty then ([], [], breaks, c)
    else
      let line := c.rest.takeWhile fun ch => !isBreak ch
      let c' := c.advance line.length
      let (ending, c') : List Char × Cursor := match c'.lineBreak? with
        | some (b, after) => ([b], after)
        | none => ([], c')
      let (breaks', c') := blockBreaks indent (c'.rest.length + 1) c'
      if c'.column ≠ indent ∨ c'.rest.isEmpty then (breaks ++ line, ending, breaks', c')
      else
        let words := !line.head?.any isSpace && !c'.rest.head?.any isSpace
        let joint :=
          if folded && ending == ['\n'] && words then (if breaks'.isEmpty then [' '] else [])
          else ending
        let (more, ending, last, c') := blockLines folded indent fuel breaks' c'
        (breaks ++ line ++ joint ++ more, ending, last, c')

/-- A block at its indicator, beneath an entry or item that is indented by `outer`, and the place
after it. -/
def blockText (folded : Bool) (outer : Int) (c : Cursor) :
    Except YamlFault (List Char × Cursor) := do
  let (chomping, step, c) ← blockHeader c.next
  let c ← endLine c
  let least := (max 1 (outer + 1)).toNat
  let fuel := c.rest.length + 1
  let (breaks, indent, c) : List Char × Nat × Cursor := match step with
    | none =>
      let (breaks, widest, last) := leadingBreaks fuel 0 c
      (breaks, max least widest, last)
    | some step =>
      let indent := least + step - 1
      let (breaks, last) := blockBreaks indent fuel c
      (breaks, indent, last)
  let (body, ending, last, c) := blockLines folded indent fuel breaks c
  let tail := match chomping with
    | .strip => []
    | .clip => ending
    | .keep => ending ++ last
  pure (body ++ tail, c)

end Stylesheet.Data.Yaml
