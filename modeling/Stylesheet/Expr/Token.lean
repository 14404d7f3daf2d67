import Stylesheet.Fault
import Stylesheet.Text.Word
import Stylesheet.Value

/-!
# Tokens of expressions

An expression is cut into tokens from left to right; blanks between them are dropped. At each place
the first kind of token in the order of `Token.scan?` that fits is taken, as long as it can be.

* `Token.scan?_length` : a token takes at least one character.
-/

namespace Stylesheet

/-- Tokens of one character. -/
inductive Mark where
  | comma
  | plus
  | minus
  | times
  | divide
  | modulo
  | opening
  | closing
  deriving DecidableEq, Repr

def Mark.char : Mark → Char
  | comma => ','
  | plus => '+'
  | minus => '-'
  | times => '*'
  | divide => '/'
  | modulo => '%'
  | opening => '('
  | closing => ')'

def Mark.ofChar? : Char → Option Mark
  | ',' => some comma
  | '+' => some plus
  | '-' => some minus
  | '*' => some times
  | '/' => some divide
  | '%' => some modulo
  | '(' => some opening
  | ')' => some closing
  | _ => none

inductive Token where
  /-- A text between two quotation marks. -/
  | quoted (mark : Char) (body : List Char)
  /-- The digits of a color, without the number sign. -/
  | color (digits : List Char)
  /-- The digits before and after a point, if there is one, and the unit. -/
  | number (whole : List Char) (fraction : Option (List Char)) (unit : Option (List Char))
  /-- The name of a constant. -/
  | constant (name : List Char)
  /-- A word with everything between the parentheses after it. -/
  | call (word argument : List Char)
  /-- A word. -/
  | word (word : List Char)
  /-- An operator, a comma or a parenthesis. -/
  | mark (mark : Mark)
  deriving DecidableEq, Repr

namespace Token

def chars : Token → List Char
  | quoted q body => q :: body ++ [q]
  | color digits => '#' :: digits
  | number whole fraction unit =>
    whole ++ (match fraction with | some digits => '.' :: digits | none => []) ++ unit.getD []
  | constant name => '!' :: name
  | call w argument => w ++ '(' :: argument ++ [')']
  | word w => w
  | mark m => [m.char]

def text (t : Token) : String :=
  String.ofList t.chars

/-! ## Scanning one token -/

/-- A quoted text; the mark that opens it has to close it. -/
def scanQuoted? : List Char → Option (Token × List Char)
  | q :: cs =>
    if q = '"' ∨ q = '\'' then
      match cs.dropWhile (· != q) with
      | _ :: rest => some (quoted q (cs.takeWhile (· != q)), rest)
      | [] => none
    else none
  | [] => none

/-- A color: a number sign with three or six hexadecimal digits and no letter or digit after
them. -/
def scanColor? : List Char → Option (Token × List Char)
  | '#' :: cs =>
    let digits := cs.takeWhile Char.isAlphanum
    if digits.all Text.isHexDigit && (digits.length == 3 || digits.length == 6) then
      some (color digits, cs.dropWhile Char.isAlphanum)
    else none
  | _ => none

def scanNumber? (cs : List Char) : Option (Token × List Char) :=
  (Value.scanNumeral? cs).map fun (whole, fraction, rest) =>
    let (unit, rest) := Value.scanUnit rest
    (number whole fraction unit, rest)

def scanConstant? : List Char → Option (Token × List Char)
  | '!' :: cs =>
    let name := cs.takeWhile Text.isWord
    if name.isEmpty then none else some (constant name, cs.dropWhile Text.isWord)
  | _ => none

/-- Whether a word can start with a character, perhaps after a hyphen. -/
def isWordStart (c : Char) : Bool :=
  c.isAlpha || c == '_'

def isWordPart (c : Char) : Bool :=
  Text.isWord c || c == '-'

def spanWord? : List Char → Option (List Char × List Char)
  | '-' :: c :: cs =>
    if isWordStart c then
      some ('-' :: c :: cs.takeWhile isWordPart, cs.dropWhile isWordPart)
    else none
  | c :: cs =>
    if isWordStart c then some (c :: cs.takeWhile isWordPart, cs.dropWhile isWordPart) else none
  | [] => none

/-- A word, or a call if a parenthesis follows the word and is closed. -/
def scanWord? (cs : List Char) : Option (Token × List Char) :=
  match spanWord? cs with
  | none => none
  | some (w, '(' :: rest) =>
    match rest.dropWhile (· != ')') with
    | _ :: after => some (call w (rest.takeWhile (· != ')')), after)
    | [] => some (word w, '(' :: rest)
  | some (w, rest) => some (word w, rest)

def scanMark? : List Char → Option (Token × List Char)
  | c :: cs => (Mark.ofChar? c).map fun m => (mark m, cs)
  | [] => none

/-- The token at the start of a text and what follows it. -/
def scan? (cs : List Char) : Option (Token × List Char) :=
  scanQuoted? cs <|> scanColor? cs <|> scanNumber? cs <|> scanConstant? cs <|> scanWord? cs <|>
    scanMark? cs

/-! ## Every token takes a character -/

/-- A quoted text takes its opening quote at least. -/
theorem scanQuoted?_length {cs rest : List Char} {t : Token}
    (h : scanQuoted? cs = some (t, rest)) : rest.length < cs.length := by
  unfold scanQuoted? at h
  split at h
  · next q cs =>
    split at h
    · split at h
      · next hd =>
        obtain ⟨-, rfl⟩ := Prod.mk.inj (Option.some.inj h)
        have : (cs.dropWhile (· != q)).length ≤ cs.length := (List.dropWhile_sublist _).length_le
        simp only [hd, List.length_cons] at this ⊢
        omega
      · cases h
    · cases h
  · cases h

/-- A color takes its hash sign at least. -/
theorem scanColor?_length {cs rest : List Char} {t : Token}
    (h : scanColor? cs = some (t, rest)) : rest.length < cs.length := by
  unfold scanColor? at h
  split at h
  · next cs =>
    simp only at h
    split at h
    · obtain ⟨-, rfl⟩ := Prod.mk.inj (Option.some.inj h)
      exact Nat.lt_succ_of_le (List.dropWhile_sublist _).length_le
    · cases h
  · cases h

/-- A numeral takes a character at least. -/
theorem scanNumeral?_length {cs rest whole : List Char} {fraction : Option (List Char)}
    (h : Value.scanNumeral? cs = some (whole, fraction, rest)) : rest.length < cs.length := by
  have hlen : (cs.takeWhile Text.isDigit).length + (cs.dropWhile Text.isDigit).length
      = cs.length := by
    rw [← List.length_append, List.takeWhile_append_dropWhile]
  unfold Value.scanNumeral? at h
  simp only at h
  split at h
  · next after hd =>
    split at h
    · cases h
    · obtain ⟨-, h⟩ := Prod.mk.inj (Option.some.inj h)
      obtain ⟨-, rfl⟩ := Prod.mk.inj h
      have : (after.dropWhile Text.isDigit).length ≤ after.length :=
        (List.dropWhile_sublist _).length_le
      rw [hd, List.length_cons] at hlen
      omega
  · split at h
    · cases h
    · next hw =>
      obtain ⟨-, h⟩ := Prod.mk.inj (Option.some.inj h)
      obtain ⟨-, rfl⟩ := Prod.mk.inj h
      have := List.length_pos_iff.2 (mt List.isEmpty_iff.2 hw)
      omega

theorem scanUnit_length (cs : List Char) : (Value.scanUnit cs).2.length ≤ cs.length := by
  unfold Value.scanUnit
  split
  · exact Nat.le_succ _
  · simp only
    split
    · exact Nat.le_refl _
    · exact (List.dropWhile_sublist _).length_le

/-- A number takes a character at least: that of its numeral, its unit being optional. -/
theorem scanNumber?_length {cs rest : List Char} {t : Token}
    (h : scanNumber? cs = some (t, rest)) : rest.length < cs.length := by
  obtain ⟨⟨whole, fraction, after⟩, hs, h⟩ := Option.map_eq_some_iff.1 h
  obtain ⟨-, rfl⟩ := Prod.mk.inj h
  exact Nat.lt_of_le_of_lt (scanUnit_length after) (scanNumeral?_length hs)

/-- A reference takes its mark at least. -/
theorem scanConstant?_length {cs rest : List Char} {t : Token}
    (h : scanConstant? cs = some (t, rest)) : rest.length < cs.length := by
  unfold scanConstant? at h
  split at h
  · simp only at h
    split at h
    · cases h
    · obtain ⟨-, rfl⟩ := Prod.mk.inj (Option.some.inj h)
      exact Nat.lt_succ_of_le (List.dropWhile_sublist _).length_le
  · cases h

/-- A word takes its first letter at least. -/
theorem spanWord?_length {cs w rest : List Char} (h : spanWord? cs = some (w, rest)) :
    rest.length < cs.length := by
  unfold spanWord? at h
  split at h
  · next cs =>
    split at h
    · obtain ⟨-, rfl⟩ := Prod.mk.inj (Option.some.inj h)
      have : (cs.dropWhile isWordPart).length ≤ cs.length := (List.dropWhile_sublist _).length_le
      simp only [List.length_cons]
      omega
    · cases h
  · split at h
    · obtain ⟨-, rfl⟩ := Prod.mk.inj (Option.some.inj h)
      exact Nat.lt_succ_of_le (List.dropWhile_sublist _).length_le
    · cases h
  · cases h

theorem scanWord?_length {cs rest : List Char} {t : Token}
    (h : scanWord? cs = some (t, rest)) : rest.length < cs.length := by
  unfold scanWord? at h
  split at h
  · cases h
  · next w after hw =>
    have hlt := spanWord?_length hw
    split at h
    · next hd =>
      obtain ⟨-, rfl⟩ := Prod.mk.inj (Option.some.inj h)
      have : (after.dropWhile (· != ')')).length ≤ after.length :=
        (List.dropWhile_sublist _).length_le
      simp only [hd, List.length_cons] at this hlt
      omega
    · obtain ⟨-, rfl⟩ := Prod.mk.inj (Option.some.inj h)
      exact hlt
  · next hw =>
    obtain ⟨-, rfl⟩ := Prod.mk.inj (Option.some.inj h)
    exact spanWord?_length hw

theorem scanMark?_length {cs rest : List Char} {t : Token}
    (h : scanMark? cs = some (t, rest)) : rest.length < cs.length := by
  unfold scanMark? at h
  split at h
  · obtain ⟨m, -, h⟩ := Option.map_eq_some_iff.1 h
    obtain ⟨-, rfl⟩ := Prod.mk.inj h
    exact Nat.lt_succ_self _
  · cases h

/-- A token takes a character at least, so scanning ends. -/
theorem scan?_length {cs rest : List Char} {t : Token} (h : scan? cs = some (t, rest)) :
    rest.length < cs.length := by
  simp only [scan?, Option.orElse_eq_orElse, Option.orElse_eq_or, Option.or_eq_some_iff] at h
  rcases h with h | ⟨-, h | ⟨-, h | ⟨-, h | ⟨-, h | ⟨-, h⟩⟩⟩⟩⟩
  · exact scanQuoted?_length h
  · exact scanColor?_length h
  · exact scanNumber?_length h
  · exact scanConstant?_length h
  · exact scanWord?_length h
  · exact scanMark?_length h

/-! ## Scanning a whole expression -/

/-- The tokens of a text; if no token starts at a character, that character. -/
def scanAll (cs : List Char) : Except Char (List Token) :=
  match cs with
  | [] => .ok []
  | c :: rest =>
    if Text.isBlank c then scanAll rest
    else match _h : scan? (c :: rest) with
      | none => .error c
      | some (t, after) => (scanAll after).map (t :: ·)
termination_by cs.length
decreasing_by
  · exact Nat.lt_succ_self _
  · exact scan?_length ‹_›

def ofExpression (expression : String) : Except Fault (List Token) :=
  (scanAll expression.toList).mapError (Fault.unexpectedCharacter · expression)

end Token

end Stylesheet
