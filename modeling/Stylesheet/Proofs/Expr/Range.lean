import Mathlib
import Stylesheet.Expr.Evaluation
import Stylesheet.Proofs.Number.Bits
import Stylesheet.Proofs.Results

/-!
# Numbers out of range

A number that an expression writes is refused if it is too large, and so is what an operator makes
of two values. The text of a constant is taken as it is, and it may hold more digits than a number
has room for. Nothing else brings an infinite number into an expression.

* `Expr.bounded_evaluate` : without such constants every number is in range.
* `Expr.exists_outOfRange` : an infinite number that has to be written is that of a constant.
-/

namespace Stylesheet

/-! ## Values -/

/-- A result is a value in range or a fault. -/
def Value.Bounded : Except Refusal Value → Prop
  | .ok v => v.isOutOfRange = false
  | .error refusal => refusal ≠ .infiniteNumber

/-- Two steps are bounded when the second is on values within the range. -/
theorem Value.Bounded.bind {x : Except Refusal Value} {f : Value → Except Refusal Value}
    (hx : Value.Bounded x) (hf : ∀ v, v.isOutOfRange = false → Value.Bounded (f v)) :
    Value.Bounded (x >>= f) := by
  cases x with
  | error refusal => exact hx
  | ok v => exact hf v hx

namespace Value

variable {v left right : Value}

/-- A number is out of range exactly when it is no dyadic one. -/
theorem isOutOfRange_number {x : Float} {unit : Option String} :
    (number x unit).isOutOfRange = true ↔ Number.Dyadic.ofFloat? x = none :=
  Option.isNone_iff_eq_none

/-- Every value in range can be written. -/
theorem css_eq_ok (h : v.isOutOfRange = false) : ∃ text, v.css = .ok text := by
  cases v with
  | number x unit =>
      cases hx : Number.Dyadic.ofFloat? x with
      | none => simp [isOutOfRange, hx] at h
      | some d => simp [css, css?, Number.display?, hx]
  | color c => exact ⟨_, rfl⟩
  | text t => exact ⟨_, rfl⟩

theorem css_eq_error (h : v.isOutOfRange = true) : v.css = .error .infiniteNumber := by
  cases v with
  | number x unit =>
      have hx := isOutOfRange_number.mp h
      simp [css, css?, Number.display?, hx]
  | color c => cases h
  | text t => cases h

/-- The check of a result lets values within the range through only. -/
theorem bounded_finite (v : Value) : Bounded v.finite := by
  unfold finite
  split
  · exact nofun
  · next h => exact Bool.eq_false_iff.mpr h

/-- Nothing out of range gets past the check. -/
theorem bounded_bind_finite {x : Except Refusal Value} (h : x ≠ .error .infiniteNumber) :
    Bounded (x >>= finite) := by
  cases x with
  | error refusal => exact fun heq => h (congrArg _ heq)
  | ok v => exact v.bounded_finite

/-! ### Operators

Two values in range are combined without an infinite number being written. What comes of them can
be out of range all the same. -/

theorem join_ne_infinite (separator : String) (hleft : left.isOutOfRange = false)
    (hright : right.isOutOfRange = false) :
    join separator left right ≠ .error .infiniteNumber := by
  obtain ⟨l, hl⟩ := css_eq_ok hleft
  obtain ⟨r, hr⟩ := css_eq_ok hright
  rw [join, hl, hr]
  exact nofun

theorem undefined_ne_infinite {α : Type} (op : Operator) (hleft : left.isOutOfRange = false)
    (hright : right.isOutOfRange = false) :
    (undefined op left right : Except Refusal α) ≠ .error .infiniteNumber := by
  obtain ⟨l, hl⟩ := css_eq_ok hleft
  obtain ⟨r, hr⟩ := css_eq_ok hright
  rw [undefined, hl, hr]
  exact nofun

/-- Arithmetic never fails on an infinite number: its result is checked after. -/
theorem arithmetic_ne_infinite (op : Operator) (a b : Float) :
    arithmetic op a b ≠ .error .infiniteNumber := by
  unfold arithmetic
  split
  · exact nofun
  · exact nofun
  · exact nofun
  · split
    · exact nofun
    · split <;> exact nofun

theorem numbers_ne_infinite (op : Operator) (a b : Float) (unit unit' : Option String) :
    numbers op a unit b unit' ≠ .error .infiniteNumber := by
  intro h
  unfold numbers at h
  split at h
  · split at h
    · rcases error_of_bind h with h | ⟨x, -, h⟩
      · exact arithmetic_ne_infinite op a b h
      · cases h
    · cases h
  · rcases error_of_bind h with h | ⟨x, -, h⟩
    · exact arithmetic_ne_infinite op a b h
    · cases h

theorem channels_ne_infinite (op : Operator) (c : Color) (red green blue : Float) :
    channels op c red green blue ≠ .error .infiniteNumber := by
  intro h
  rcases error_of_bind h with h | ⟨r, -, h⟩
  · exact arithmetic_ne_infinite _ _ _ h
  rcases error_of_bind h with h | ⟨g, -, h⟩
  · exact arithmetic_ne_infinite _ _ _ h
  rcases error_of_bind h with h | ⟨b, -, h⟩
  · exact arithmetic_ne_infinite _ _ _ h
  · cases h

theorem combine_ne_infinite (op : Operator) (hleft : left.isOutOfRange = false)
    (hright : right.isOutOfRange = false) :
    combine op left right ≠ .error .infiniteNumber := by
  unfold combine
  split
  · exact numbers_ne_infinite _ _ _ _ _
  · exact channels_ne_infinite _ _ _ _ _
  · exact channels_ne_infinite _ _ _ _ _
  · split
    · exact channels_ne_infinite _ _ _ _ _
    · exact channels_ne_infinite _ _ _ _ _
    · exact undefined_ne_infinite _ hleft hright
  · split
    · exact join_ne_infinite _ hleft hright
    · exact join_ne_infinite _ hleft hright
    · exact join_ne_infinite _ hleft hright
    · exact undefined_ne_infinite _ hleft hright

/-- No operation on values within the range fails on an infinite number. -/
theorem operate_ne_infinite (op : Operator) (hleft : left.isOutOfRange = false)
    (hright : right.isOutOfRange = false) :
    operate op left right ≠ .error .infiniteNumber := by
  unfold operate
  split
  · exact join_ne_infinite _ hleft hright
  · exact join_ne_infinite _ hleft hright
  · exact combine_ne_infinite op hleft hright

theorem bounded_negate (h : v.isOutOfRange = false) : Bounded v.negate := by
  obtain ⟨text, htext⟩ := css_eq_ok h
  cases v with
  | number x unit =>
      show (number (-x) unit).isOutOfRange = false
      have hx : ¬ Number.Dyadic.ofFloat? x = none :=
        fun hx => by rw [isOutOfRange_number.mpr hx] at h; cases h
      exact Bool.eq_false_iff.mpr
        fun hneg => hx (Number.Dyadic.ofFloat?_neg_eq_none_iff.mp (isOutOfRange_number.mp hneg))
  | color c => rfl
  | text t => rfl

end Value

/-! ## Expressions -/

def Expr.names : Expr → List String
  | literal _ => []
  | constant name => [name]
  | negate operand => operand.names
  | binary _ left right => left.names ++ right.names

/-- The constant is defined, and its text reads as a number that is out of range. -/
def Constants.OutOfRange (constants : Constants) (name : String) : Prop :=
  ∃ text, constants.get? name = some text ∧ (Value.ofString text).isOutOfRange = true

namespace Expr

variable {constants : Constants}

/-- Every number that arises on the way is in range if those of the constants are. -/
theorem bounded_evaluate (e : Expr) (h : ∀ name ∈ e.names, ¬ constants.OutOfRange name) :
    Value.Bounded (e.evaluate constants) := by
  induction e with
  | literal v => exact v.bounded_finite
  | constant name =>
      rw [evaluate]
      cases hname : constants.get? name with
      | none => exact nofun
      | some text =>
          refine Bool.eq_false_iff.mpr fun hout => ?_
          exact h name (List.mem_singleton_self name) ⟨text, hname, hout⟩
  | negate operand ih => exact (ih h).bind fun v hv => Value.bounded_negate hv
  | binary op left right ihleft ihright =>
      have hleft := ihleft fun name hname => h name (List.mem_append_left _ hname)
      have hright := ihright fun name hname => h name (List.mem_append_right _ hname)
      exact hleft.bind fun l hl => hright.bind fun r hr =>
        Value.bounded_bind_finite (Value.operate_ne_infinite op hl hr)

/-- An expression over constants within the range has its value within it. -/
theorem bounded_valueOf {expression : String}
    (h : ∀ e, parse expression = .ok e → ∀ name ∈ e.names, ¬ constants.OutOfRange name) :
    Value.Bounded (valueOf constants expression) := by
  unfold valueOf
  cases hparse : parse expression with
  | error fault => exact nofun
  | ok e => exact bounded_evaluate e (h e hparse)

/-- A constant is not checked where it stands alone. -/
theorem cssOf_of_outOfRange {expression name : String} (hparse : parse expression = .ok (.constant name))
    (h : constants.OutOfRange name) : cssOf constants expression = .error .infiniteNumber := by
  obtain ⟨text, htext, hout⟩ := h
  have hvalue : valueOf constants expression = .ok (Value.ofString text) := by
    unfold valueOf
    rw [hparse]
    show evaluate constants (.constant name) = _
    rw [evaluate, htext]
  unfold cssOf
  rw [hvalue]
  exact Value.css_eq_error hout

/-- An infinite number that has to be written comes from a constant that the expression names. -/
theorem exists_outOfRange {expression : String}
    (h : cssOf constants expression = .error .infiniteNumber) :
    ∃ e, parse expression = .ok e ∧ ∃ name ∈ e.names, constants.OutOfRange name := by
  by_contra hnone
  push Not at hnone
  -- otherwise the value is in range and has a written form
  have hbounded := bounded_valueOf hnone
  rcases error_of_bind h with h | ⟨v, hv, hcss⟩
  · rw [h] at hbounded
    exact hbounded rfl
  · rw [hv] at hbounded
    obtain ⟨text, htext⟩ := Value.css_eq_ok hbounded
    rw [htext] at hcss
    cases hcss

end Expr

end Stylesheet
