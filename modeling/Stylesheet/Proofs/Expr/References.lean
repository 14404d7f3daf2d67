import Mathlib
import Stylesheet.Assembly.Document
import Stylesheet.Proofs.Assembly.Quiet
import Stylesheet.Proofs.Expr.Values

/-!
# References to constants

A constant is stored as a text and referred to by its name with an exclamation mark before it. The
reference stands for the value that the stored text is read as, in whatever expression it occurs.

* `Expr.parse_reference` : an exclamation mark and a name are a reference.
* `Expr.evaluate_replace` : a reference may be replaced by the value of the constant.
* `outcome_defineConstant`, `outcome_attribute?` : lines that store and write values.
-/

namespace Stylesheet

/-! ## The text of a reference -/

/-- What can be the name of a constant. -/
structure IsConstantName (name : List Char) : Prop where
  ne_nil : name ≠ []
  word : ∀ c ∈ name, Text.isWord c = true

/-- A text that is one token. -/
theorem Token.ofExpression_of_scan {expression : String} {c : Char} {cs : List Char} {t : Token}
    (hblank : Text.isBlank c = false) (htext : expression.toList = c :: cs)
    (hscan : scan? (c :: cs) = some (t, [])) : ofExpression expression = .ok [t] := by
  have hall : scanAll (c :: cs) = .ok [t] := by
    rw [scanAll, if_neg (by simp [hblank])]
    split
    · next hnone =>
        rw [hscan] at hnone
        cases hnone
    · next t' after hsome =>
        rw [hscan] at hsome
        cases hsome
        rw [scanAll]
        rfl
  rw [ofExpression, htext, hall]
  rfl

/-- A reference is scanned as one token. -/
theorem Token.ofExpression_reference {name : List Char} (h : IsConstantName name) :
    Token.ofExpression (String.ofList ('!' :: name)) = .ok [.constant name] := by
  have htake : name.takeWhile Text.isWord = name := List.takeWhile_eq_self_iff.mpr h.word
  have hdrop : name.dropWhile Text.isWord = [] := List.dropWhile_eq_nil_iff.mpr h.word
  have hconstant : scanConstant? ('!' :: name) = some (.constant name, []) := by
    simp [scanConstant?, htake, hdrop, h.ne_nil]
  -- no other kind of token starts with an exclamation mark
  have hnumber : scanNumber? ('!' :: name) = none := by
    have hdigit : Text.isDigit '!' = false := by decide
    simp [scanNumber?, Value.scanNumeral?, hdigit]
  have hscan : scan? ('!' :: name) = some (.constant name, []) := by
    simp [scan?, scanQuoted?, scanColor?, hnumber, hconstant]
  exact ofExpression_of_scan (by decide) String.toList_ofList hscan

namespace Expr

variable {constants : Constants}

/-- An exclamation mark and a name are a reference to the constant of the name. -/
theorem parse_reference {name : List Char} (h : IsConstantName name) :
    parse (String.ofList ('!' :: name)) = .ok (.constant (String.ofList name)) := by
  rw [parse_of_ofExpression (Token.ofExpression_reference h), ofTokens_eq_ok_iff]
  exact .list (.words (.sum (.product (.single (.constant name)))))

/-- A reference has the value that the text of the constant is read as. -/
theorem valueOf_of_constant {expression name text : String}
    (hparse : parse expression = .ok (.constant name)) (hname : constants.get? name = some text) :
    valueOf constants expression = .ok (Value.ofString text) := by
  refine valueOf_eq_ok_iff.mpr ⟨_, hparse, ?_⟩
  rw [evaluate, hname]

/-- A reference alone has the CSS text of the value that is stored. -/
theorem cssOf_of_constant {expression name text : String}
    (hparse : parse expression = .ok (.constant name)) (hname : constants.get? name = some text) :
    cssOf constants expression = (Value.ofString text).css := by
  unfold cssOf
  rw [valueOf_of_constant hparse hname]
  rfl

/-! ## Replacing references -/

/-- An expression in which a value stands in the place of the references to a constant. -/
def replace (name : String) (v : Value) : Expr → Expr
  | literal w => literal w
  | constant other => if other = name then literal v else constant other
  | negate operand => negate (operand.replace name v)
  | binary op left right => binary op (left.replace name v) (right.replace name v)

/-- The value of a constant may stand where the constant is referred to. -/
theorem evaluate_replace {name text : String} (hname : constants.get? name = some text)
    (hrange : (Value.ofString text).isOutOfRange = false) (e : Expr) :
    (e.replace name (Value.ofString text)).evaluate constants = e.evaluate constants := by
  induction e with
  | literal w => rfl
  | constant other =>
      rw [replace]
      split
      · next hother =>
          rw [hother, evaluate, evaluate, hname, Value.finite, hrange]
          rfl
      · rfl
  | negate operand ih => rw [replace, evaluate, evaluate, ih]
  | binary op left right ihleft ihright => rw [replace, evaluate, evaluate, ihleft, ihright]

end Expr

/-! ## Lines -/

variable {s : State}

/-- A line that defines a constant stores what is written for its value. -/
theorem outcome_defineConstant {text name value : List Char} {css : String} (line : Int)
    (hparts : constantParts? text = some ⟨name, false, value⟩)
    (hcss : Expr.cssOf s.constants (String.ofList value) = .ok css) :
    (defineConstant text line).outcome s =
      (.ok (), { s with constants := s.constants.set (String.ofList name) css }) := by
  unfold defineConstant
  rw [hparts]
  dsimp only
  rw [Assembly.outcome_bind_of_ok (outcome_evaluate_of_cssOf line hcss)]
  rfl

/-- An attribute with an expression has what is written for its value. -/
theorem outcome_attribute? {context : Context} {way : AttributeSyntax} {text name value : List Char}
    {css : String} (line : Int) (hway : context.options.attributeSyntax ≠ some way.other)
    (hparts : attributeParts? way text = some ⟨name, true, value⟩)
    (hcss : Expr.cssOf s.constants (String.ofList value) = .ok css) :
    (attribute? context way text line).outcome s =
      (.ok (.attr (String.ofList name) css), s) := by
  unfold attribute?
  rw [if_neg hway, hparts]
  dsimp only
  rw [Assembly.outcome_bind_of_ok (outcome_evaluate_of_cssOf line hcss)]
  rfl

end Stylesheet
