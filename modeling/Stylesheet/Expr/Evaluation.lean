import Stylesheet.Diagnostic
import Stylesheet.Expr.Parser
import Stylesheet.Number.Remainder
import Stylesheet.Table

/-!
# Values of expressions

An expression is evaluated over the constants in effect. Numbers are combined with their units,
colors channel by channel, and texts are joined; what is not defined for its operands is a fault.
-/

namespace Stylesheet

/-- Why an expression has no value. -/
inductive Refusal where
  /-- The expression is at fault. -/
  | fault (fault : Fault)
  /-- An infinite number has to be written. -/
  | infiniteNumber
  deriving DecidableEq, Repr

def Refusal.at (refusal : Refusal) (line : Option Int) : Failure :=
  match refusal with
  | fault f => .refused (f.at line)
  | infiniteNumber => .infiniteNumber

namespace Value

def css (v : Value) : Except Refusal String :=
  match v.css? with
  | some s => .ok s
  | none => .error .infiniteNumber

def finite (v : Value) : Except Refusal Value :=
  if v.isOutOfRange then .error (.fault .numberOutOfRange) else .ok v

/-! ## Operations -/

def join (separator : String) (left right : Value) : Except Refusal Value := do
  let l ← left.css
  let r ← right.css
  pure (.text (l ++ separator ++ r))

def undefined {α : Type} (op : Operator) (left right : Value) : Except Refusal α := do
  let l ← left.css
  let r ← right.css
  throw (.fault (.undefinedOperation l op.symbol r))

/-- The arithmetic that numbers and channels share. Only products, sums and quotients reach it. -/
def arithmetic (op : Operator) (a b : Float) : Except Refusal Float :=
  match op with
  | .plus => .ok (a + b)
  | .minus => .ok (a - b)
  | .times => .ok (a * b)
  | _ =>
    if b == 0 then .error (.fault .divisionByZero)
    else match op with
      | .divide => .ok (a / b)
      | _ => .ok (Number.remainder a b)

/-- Two numbers combined. Their units must not differ; a quotient of two units has none. -/
def numbers (op : Operator) (a : Float) (unit : Option String) (b : Float)
    (unit' : Option String) : Except Refusal Value :=
  match unit, unit' with
  | some u, some u' =>
    if u = u' then do
      let x ← arithmetic op a b
      pure (.number x (if op = .divide then none else some u))
    else .error (.fault (.incompatibleUnits u u'))
  | _, _ => do
    let x ← arithmetic op a b
    pure (.number x (unit <|> unit'))

/-- A number as a channel: rounded, the even one of two, and brought into the range from 0 to
255. -/
def channel (x : Float) : Nat :=
  match Number.Dyadic.ofFloat? x with
  | some d => if d.negative then 0 else min 255 (Number.roundQuotient d.quotient.1 d.quotient.2)
  | none => if x < 0 then 0 else 255

/-- A color combined with one number per channel. -/
def channels (op : Operator) (c : Color) (red green blue : Float) : Except Refusal Value := do
  let r ← arithmetic op (Float.ofNat c.red) red
  let g ← arithmetic op (Float.ofNat c.green) green
  let b ← arithmetic op (Float.ofNat c.blue) blue
  pure (.color ⟨channel r, channel g, channel b⟩)

/-- Two values combined by an operator that is written between them. -/
def combine (op : Operator) (left right : Value) : Except Refusal Value :=
  match left, right with
  | number a unit, number b unit' => numbers op a unit b unit'
  | color a, color b => channels op a (Float.ofNat b.red) (Float.ofNat b.green) (Float.ofNat b.blue)
  | color a, number b _ => channels op a b b b
  | number a _, color b =>
    match op with
    | .plus | .times => channels op b a a a
    | _ => undefined op left right
  | _, _ =>
    match op with
    | .plus => join "" left right
    | .minus => join "-" left right
    | .divide => join "/" left right
    | _ => undefined op left right

def operate (op : Operator) (left right : Value) : Except Refusal Value :=
  match op with
  | .comma => join ", " left right
  | .space => join " " left right
  | _ => combine op left right

def negate : Value → Except Refusal Value
  | number x unit => .ok (.number (-x) unit)
  | v => do pure (.text ("-" ++ (← v.css)))

end Value

namespace Expr

def evaluate (constants : Constants) : Expr → Except Refusal Value
  | literal v => v.finite
  | constant name =>
    match constants.get? name with
    | some s => .ok (Value.ofString s)
    | none => .error (.fault (.undefinedConstant name))
  | negate e => do (← evaluate constants e).negate
  | binary op left right => do
    let l ← evaluate constants left
    let r ← evaluate constants right
    (← Value.operate op l r).finite

def valueOf (constants : Constants) (expression : String) : Except Refusal Value := do
  let e ← (parse expression).mapError Refusal.fault
  evaluate constants e

def cssOf (constants : Constants) (expression : String) : Except Refusal String := do
  (← valueOf constants expression).css

end Expr

end Stylesheet
