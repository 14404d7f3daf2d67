import Stylesheet.Expr
import Stylesheet.Expr.Token

/-!
# From tokens to expressions

Operators bind in four levels: commas loosest, then values one after the other, then sums, then
products. Every level is a chain of the next tighter one that groups to the left; the tightest one
is a chain of factors: literals, constants, negations and parentheses. The functions below call each
other on fewer tokens or on a tighter level of the same tokens.
-/

namespace Stylesheet

/-- The levels of operators, the loosest first. -/
inductive Level where
  | list
  | words
  | sum
  | product
  deriving DecidableEq, Repr

namespace Level

/-- The next tighter level; products are made of factors. -/
def tighter? : Level → Option Level
  | list => some words
  | words => some sum
  | sum => some product
  | product => none

def rank : Level → Nat
  | list => 3
  | words => 2
  | sum => 1
  | product => 0

/-- The next tighter level ranks one lower, which is what the recursion over levels descends on. -/
theorem rank_of_tighter? {level next : Level} (h : level.tighter? = some next) :
    level.rank = next.rank + 1 := by
  cases level <;> simp [tighter?] at h <;> subst h <;> rfl

end Level

/-- Whether a token can start an operand that follows another value without an operator. -/
def Token.startsOperand : Token → Bool
  | mark m => m == .opening
  | _ => true

/-- The literal or constant that a token is by itself. -/
def Token.factor? : Token → Option Expr
  | quoted _ body => some (.literal (.text (String.ofList body)))
  | color digits => (Color.ofHexDigits? digits).map (.literal <| .color ·)
  | number whole fraction unit =>
    some (.literal (.number (Number.ofDigits false whole (fraction.getD []))
      (unit.map String.ofList)))
  | constant name => some (.constant (String.ofList name))
  | call w argument => some (.literal (.text (call w argument).text))
  | word w => some (.literal (.text (String.ofList w)))
  | mark _ => none

/-- The operator of a level that continues a chain before some tokens, and the tokens of its right
operand. No token stands for the operator between words. -/
def Level.operator? : Level → List Token → Option (Operator × List Token)
  | list, .mark .comma :: rest => some (.comma, rest)
  | words, t :: rest => if t.startsOperand then some (.space, t :: rest) else none
  | sum, .mark .plus :: rest => some (.plus, rest)
  | sum, .mark .minus :: rest => some (.minus, rest)
  | product, .mark .times :: rest => some (.times, rest)
  | product, .mark .divide :: rest => some (.divide, rest)
  | product, .mark .modulo :: rest => some (.modulo, rest)
  | _, _ => none

/-- What is left after an operator is no longer than what was there. -/
theorem Level.operator?_length {level : Level} {ts rest : List Token} {op : Operator}
    (h : level.operator? ts = some (op, rest)) : rest.length ≤ ts.length := by
  unfold Level.operator? at h
  split at h <;> first
    | cases h; exact Nat.le_succ _
    | (split at h <;> cases h; exact Nat.le_refl _)
    | cases h

namespace Expr

mutual

/-- A chain of operands of a level at the start of some tokens, and the tokens after it. -/
def chain (level : Level) (ts : List Token) :
    Except Fault (Expr × { rest : List Token // rest.length < ts.length }) := do
  let (left, ⟨rest, h⟩) ← operand level ts
  let (e, ⟨rest, h'⟩) ← continued level left rest
  pure (e, ⟨rest, Nat.lt_of_le_of_lt h' h⟩)
termination_by (ts.length, 3 * level.rank + 2)

def operand (level : Level) (ts : List Token) :
    Except Fault (Expr × { rest : List Token // rest.length < ts.length }) :=
  match _h : level.tighter? with
  | some next => chain next ts
  | none => factor ts
termination_by (ts.length, 3 * level.rank + 1)
decreasing_by
  · have := Level.rank_of_tighter? ‹_›
    exact Prod.Lex.right _ (by omega)
  · exact Prod.Lex.right _ (by omega)

/-- The chain that starts with an expression already read and goes on with some tokens, and the
tokens after it. -/
def continued (level : Level) (left : Expr) (ts : List Token) :
    Except Fault (Expr × { rest : List Token // rest.length ≤ ts.length }) :=
  match h : level.operator? ts with
  | none => .ok (left, ⟨ts, Nat.le_refl _⟩)
  | some (op, after) => do
    have ha : after.length ≤ ts.length := Level.operator?_length h
    let (right, ⟨rest, hr⟩) ← operand level after
    let (e, ⟨rest, hr'⟩) ← continued level (.binary op left right) rest
    pure (e, ⟨rest, by omega⟩)
termination_by (ts.length, 3 * level.rank + 2)
decreasing_by all_goals (simp only [Prod.lex_def]; omega)

def factor (ts : List Token) :
    Except Fault (Expr × { rest : List Token // rest.length < ts.length }) :=
  match ts with
  | [] => .error .endOfExpression
  | .mark .minus :: rest => do
    let (e, ⟨rest, h⟩) ← factor rest
    pure (.negate e, ⟨rest, Nat.lt_succ_of_lt h⟩)
  | .mark .opening :: rest => do
    let (e, ⟨rest, h⟩) ← chain .list rest
    match rest, h with
    | .mark .closing :: rest, h =>
      pure (e, ⟨rest, by simp only [List.length_cons] at h ⊢; omega⟩)
    | _, _ => throw .missingParenthesis
  | t :: rest =>
    match t.factor? with
    | some e => .ok (e, ⟨rest, Nat.lt_succ_self _⟩)
    | none => .error (.operandExpected t.text)
termination_by (ts.length, 0)

end

def ofTokens (expression : String) (ts : List Token) : Except Fault Expr :=
  if ts.isEmpty then .error .emptyExpression
  else do
    let (e, ⟨rest, _⟩) ← chain .list ts
    match rest with
    | [] => pure e
    | t :: _ => throw (.unexpectedToken t.text expression)

def parse (expression : String) : Except Fault Expr := do
  ofTokens expression (← Token.ofExpression expression)

end Expr

end Stylesheet
