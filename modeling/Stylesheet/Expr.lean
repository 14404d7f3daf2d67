import Stylesheet.Value

/-!
# Expressions

The structure of an expression over numbers, colors, texts and named constants.
-/

namespace Stylesheet

/-- The operators that combine two values, the loosest first. -/
inductive Operator where
  /-- Two values with a comma between them. -/
  | comma
  /-- Two values one after the other. -/
  | space
  | plus
  | minus
  | times
  | divide
  | modulo
  deriving DecidableEq, Repr

def Operator.symbol : Operator → String
  | comma => ","
  | space => " "
  | plus => "+"
  | minus => "-"
  | times => "*"
  | divide => "/"
  | modulo => "%"

inductive Expr where
  /-- A number, color or text as it stands. -/
  | literal (value : Value)
  /-- The value of a constant. -/
  | constant (name : String)
  /-- A value with a minus sign before it. -/
  | negate (operand : Expr)
  /-- Two values combined. -/
  | binary (operator : Operator) (left right : Expr)

end Stylesheet
