import Mathlib
import Stylesheet.Proofs.Expr.Range

/-!
# Infinite numbers in expressions

While an expression is evaluated, values arise for the parts of it that are come to. A number that
is not finite is refused where a literal or an operator gives it. The value of a constant is not
looked at, and neither is a change of sign, so infinite numbers are exactly those of constants,
perhaps with minus signs before them. They do no harm where an operator calculates with them, as its
result is looked at again. Where an operator writes its operands, and where the value of the whole
expression is written, there is nothing to write.

* `Expr.isOutOfRange_iff_of_evaluate` : which parts of an expression have an infinite value.
* `Expr.evaluate_eq_error_iff` : an expression is refused at a part that is come to.
* `Expr.infinite_only_from_constants` : what comes of infinite numbers.
-/

namespace Stylesheet

/-! ## Operators -/

namespace Value

variable {left right : Value} {op : Operator}

/-- Whether an operator writes its operands, into its result or into the message that it is not
defined for them. -/
def writes : Operator → Value → Value → Bool
  | .comma, _, _ => true
  | .space, _, _ => true
  | _, text _, _ => true
  | _, _, text _ => true
  | op, number _ _, color _ => op != .plus && op != .times
  | _, _, _ => false

/-- A value's CSS text fails on an infinite number exactly when the value is out of range. -/
theorem css_eq_error_iff {v : Value} : v.css = .error .infiniteNumber ↔ v.isOutOfRange = true := by
  constructor
  · intro h
    by_contra hrange
    obtain ⟨text, htext⟩ := css_eq_ok (Bool.eq_false_iff.mpr hrange)
    rw [htext] at h
    cases h
  · exact css_eq_error

theorem css_ne_fault (v : Value) (fault : Fault) : v.css ≠ .error (.fault fault) := by
  unfold css
  split <;> exact nofun

/-- Two values are written one after the other, for whatever comes of it. -/
theorem error_of_written {α : Type} {f : String → String → Except Refusal α} :
    (do f (← left.css) (← right.css)) = .error .infiniteNumber ↔
      left.isOutOfRange = true ∨ right.isOutOfRange = true ∨
        ∃ l r, left.css = .ok l ∧ right.css = .ok r ∧ f l r = .error .infiniteNumber := by
  constructor
  · intro h
    rcases error_of_bind h with h | ⟨l, hl, h⟩
    · exact .inl (css_eq_error_iff.mp h)
    rcases error_of_bind h with h | ⟨r, hr, h⟩
    · exact .inr (.inl (css_eq_error_iff.mp h))
    · exact .inr (.inr ⟨l, r, hl, hr, h⟩)
  · rintro (h | h | ⟨l, r, hl, hr, h⟩)
    · rw [css_eq_error h]
      rfl
    · by_cases hleft : left.isOutOfRange = true
      · rw [css_eq_error hleft]
        rfl
      · obtain ⟨l, hl⟩ := css_eq_ok (Bool.eq_false_iff.mpr hleft)
        rw [hl, css_eq_error h]
        rfl
    · rw [hl, hr]
      exact h

/-- Joining fails on an infinite number exactly when an operand is one. -/
theorem join_eq_infinite_iff {separator : String} :
    join separator left right = .error .infiniteNumber ↔
      left.isOutOfRange = true ∨ right.isOutOfRange = true := by
  unfold join
  rw [error_of_written]
  simp [pure, Except.pure]

theorem undefined_eq_infinite_iff {α : Type} :
    (undefined op left right : Except Refusal α) = .error .infiniteNumber ↔
      left.isOutOfRange = true ∨ right.isOutOfRange = true := by
  unfold undefined
  rw [error_of_written]
  simp [throw, throwThe, MonadExceptOf.throw]

/-- An infinite number has to be written exactly if the operator writes its operands. -/
theorem operate_eq_infinite_iff :
    operate op left right = .error .infiniteNumber ↔
      writes op left right = true ∧ (left.isOutOfRange = true ∨ right.isOutOfRange = true) := by
  cases op <;> cases left <;> cases right <;>
    simp [operate, combine, writes, join_eq_infinite_iff, undefined_eq_infinite_iff,
      numbers_ne_infinite, channels_ne_infinite]

/-! An operator tells of its operands, and never of a number out of range; that is left to the check
of its result. -/

variable {refusal : Refusal}

/-- Arithmetic is refused for a division by zero only. -/
theorem eq_divisionByZero_of_arithmetic {a b : Float}
    (h : arithmetic op a b = .error refusal) : refusal = .fault .divisionByZero := by
  unfold arithmetic at h
  split at h
  · cases h
  · cases h
  · cases h
  · split at h
    · cases h
      rfl
    · split at h <;> cases h

theorem numbers_ne_outOfRange (op : Operator) (a b : Float) (unit unit' : Option String) :
    numbers op a unit b unit' ≠ .error (.fault .numberOutOfRange) := by
  intro h
  unfold numbers at h
  split at h
  · split at h
    · rcases error_of_bind h with h | ⟨x, -, h⟩
      · cases eq_divisionByZero_of_arithmetic h
      · cases h
    · cases h
  · rcases error_of_bind h with h | ⟨x, -, h⟩
    · cases eq_divisionByZero_of_arithmetic h
    · cases h

theorem channels_ne_outOfRange (op : Operator) (c : Color) (red green blue : Float) :
    channels op c red green blue ≠ .error (.fault .numberOutOfRange) := by
  intro h
  rcases error_of_bind h with h | ⟨r, -, h⟩
  · cases eq_divisionByZero_of_arithmetic h
  rcases error_of_bind h with h | ⟨g, -, h⟩
  · cases eq_divisionByZero_of_arithmetic h
  rcases error_of_bind h with h | ⟨b, -, h⟩
  · cases eq_divisionByZero_of_arithmetic h
  · cases h

/-- Writing two values tells of nothing but what comes of their texts. -/
theorem fault_of_written {α : Type} {f : String → String → Except Refusal α} {fault : Fault}
    (h : (do f (← left.css) (← right.css)) = .error (.fault fault)) :
    ∃ l r, f l r = .error (.fault fault) := by
  rcases error_of_bind h with h | ⟨l, -, h⟩
  · exact absurd h (css_ne_fault left fault)
  rcases error_of_bind h with h | ⟨r, -, h⟩
  · exact absurd h (css_ne_fault right fault)
  · exact ⟨l, r, h⟩

theorem join_ne_outOfRange (separator : String) :
    join separator left right ≠ .error (.fault .numberOutOfRange) := by
  intro h
  obtain ⟨l, r, h⟩ := fault_of_written h
  cases h

theorem undefined_ne_outOfRange :
    (undefined op left right : Except Refusal Value) ≠ .error (.fault .numberOutOfRange) := by
  intro h
  obtain ⟨l, r, h⟩ := fault_of_written h
  cases h

/-- An operation itself leaves the range unchecked: that is for its result. -/
theorem operate_ne_outOfRange : operate op left right ≠ .error (.fault .numberOutOfRange) := by
  cases op <;> cases left <;> cases right <;>
    simp only [operate, combine, ne_eq, join_ne_outOfRange, undefined_ne_outOfRange,
      numbers_ne_outOfRange, channels_ne_outOfRange, not_false_eq_true]

/-! ## The check of a result -/

/-- The check of a result refuses exactly the numbers out of range. -/
theorem finite_eq_outOfRange_iff {v : Value} :
    v.finite = .error (.fault .numberOutOfRange) ↔ v.isOutOfRange = true := by
  unfold finite
  split <;> simp_all

theorem finite_ne_infinite (v : Value) : v.finite ≠ .error .infiniteNumber := by
  unfold finite
  split <;> exact nofun

theorem finite_eq_ok_iff {v w : Value} : v.finite = .ok w ↔ v.isOutOfRange = false ∧ v = w := by
  unfold finite
  split <;> simp_all

/-- A change of sign never fails for an infinite number: there is a number to change, or something
that can be written. -/
theorem negate_ne_error (v : Value) (refusal : Refusal) : v.negate ≠ .error refusal := by
  cases v <;> exact nofun

/-- Negation neither leaves the range nor comes back to it. -/
theorem isOutOfRange_negate {v w : Value} (h : v.negate = .ok w) :
    w.isOutOfRange = v.isOutOfRange := by
  cases v with
  | number x unit =>
      cases h
      rw [Bool.eq_iff_iff, isOutOfRange_number, isOutOfRange_number,
        Number.Dyadic.ofFloat?_neg_eq_none_iff]
  | color c =>
      cases h
      rfl
  | text t =>
      cases h
      rfl

end Value

/-! ## Expressions -/

namespace Expr

variable {constants : Constants}

/-- The constant that an expression is but for minus signs before it. -/
def signed? : Expr → Option String
  | constant name => some name
  | negate operand => operand.signed?
  | _ => none

/-- The parts of an expression that are come to while it is evaluated: the second operand only if
the first one has a value. -/
inductive Reaches (constants : Constants) : Expr → Expr → Prop
  | self {e : Expr} : Reaches constants e e
  | operand {e part : Expr} : Reaches constants e part → Reaches constants (.negate e) part
  | left {op : Operator} {left right part : Expr} : Reaches constants left part →
      Reaches constants (.binary op left right) part
  | right {op : Operator} {left right part : Expr} {v : Value} :
      left.evaluate constants = .ok v → Reaches constants right part →
      Reaches constants (.binary op left right) part

/-- The expression is refused for what it is, and not for one of its operands. -/
inductive Refuses (constants : Constants) : Expr → Refusal → Prop
  | literal {v : Value} {refusal : Refusal} : v.finite = .error refusal →
      Refuses constants (.literal v) refusal
  | constant {name : String} : constants.get? name = none →
      Refuses constants (.constant name) (.fault (.undefinedConstant name))
  | operands {op : Operator} {left right : Expr} {l r : Value} {refusal : Refusal} :
      left.evaluate constants = .ok l → right.evaluate constants = .ok r →
      Value.operate op l r = .error refusal → Refuses constants (.binary op left right) refusal
  | result {op : Operator} {left right : Expr} {l r v : Value} {refusal : Refusal} :
      left.evaluate constants = .ok l → right.evaluate constants = .ok r →
      Value.operate op l r = .ok v → v.finite = .error refusal →
      Refuses constants (.binary op left right) refusal

/-- Which values are out of range: those of constants, perhaps with another sign. -/
theorem isOutOfRange_iff_of_evaluate {e : Expr} {v : Value} (h : e.evaluate constants = .ok v) :
    v.isOutOfRange = true ↔ ∃ name, e.signed? = some name ∧ constants.OutOfRange name := by
  induction e generalizing v with
  | literal w =>
      -- a literal out of range is refused, and so is what an operator makes out of range
      obtain ⟨hrange, rfl⟩ := Value.finite_eq_ok_iff.mp h
      simp [signed?, hrange]
  | constant name =>
      rw [evaluate] at h
      cases hname : constants.get? name with
      | none =>
          rw [hname] at h
          cases h
      | some text =>
          rw [hname] at h
          cases h
          simp [signed?, Constants.OutOfRange, hname]
  | negate operand ih =>
      obtain ⟨w, hw, hneg⟩ := bind_eq_ok_iff.mp h
      rw [Value.isOutOfRange_negate hneg]
      exact ih hw
  | binary op left right _ _ =>
      obtain ⟨l, -, h⟩ := bind_eq_ok_iff.mp h
      obtain ⟨r, -, h⟩ := bind_eq_ok_iff.mp h
      obtain ⟨w, -, h⟩ := bind_eq_ok_iff.mp h
      obtain ⟨hrange, rfl⟩ := Value.finite_eq_ok_iff.mp h
      simp [signed?, hrange]

/-- A refusal at a part that is come to is one of the whole expression. -/
theorem Reaches.evaluate_eq_error {e part : Expr} {refusal : Refusal}
    (hreaches : e.Reaches constants part) (h : part.evaluate constants = .error refusal) :
    e.evaluate constants = .error refusal := by
  induction hreaches with
  | self => exact h
  | operand _ ih =>
      rw [evaluate, ih h]
      rfl
  | left _ ih =>
      rw [evaluate, ih h]
      rfl
  | right hleft _ ih =>
      rw [evaluate, hleft, ih h]
      rfl

/-- An expression that refuses evaluates to that error. -/
theorem Refuses.evaluate_eq_error {e : Expr} {refusal : Refusal} (h : e.Refuses constants refusal) :
    e.evaluate constants = .error refusal := by
  cases h with
  | literal h => exact h
  | constant h =>
      rw [evaluate, h]
  | operands hl hr h =>
      rw [evaluate, hl, hr]
      show (Value.operate _ _ _ >>= Value.finite) = _
      rw [h]
      rfl
  | result hl hr hv h =>
      rw [evaluate, hl, hr]
      show (Value.operate _ _ _ >>= Value.finite) = _
      rw [hv]
      exact h

/-- An expression is refused at one of its parts that are come to, for what that part is. -/
theorem evaluate_eq_error_iff {e : Expr} {refusal : Refusal} :
    e.evaluate constants = .error refusal ↔
      ∃ part, e.Reaches constants part ∧ part.Refuses constants refusal := by
  refine ⟨fun h => ?_, fun ⟨part, hreaches, h⟩ => hreaches.evaluate_eq_error h.evaluate_eq_error⟩
  induction e with
  | literal v => exact ⟨_, .self, .literal h⟩
  | constant name =>
      rw [evaluate] at h
      split at h
      · cases h
      · next hname =>
          cases h
          exact ⟨_, .self, .constant hname⟩
  | negate operand ih =>
      rcases error_of_bind h with h | ⟨v, -, h⟩
      · obtain ⟨part, hreaches, hpart⟩ := ih h
        exact ⟨part, .operand hreaches, hpart⟩
      · exact absurd h (Value.negate_ne_error v refusal)
  | binary op left right ihleft ihright =>
      -- the first refusal on the way: an operand, the operator, the check of its result
      rcases error_of_bind h with h | ⟨l, hl, h⟩
      · obtain ⟨part, hreaches, hpart⟩ := ihleft h
        exact ⟨part, .left hreaches, hpart⟩
      rcases error_of_bind h with h | ⟨r, hr, h⟩
      · obtain ⟨part, hreaches, hpart⟩ := ihright h
        exact ⟨part, .right hl hreaches, hpart⟩
      rcases error_of_bind h with h | ⟨v, hv, h⟩
      · exact ⟨_, .self, .operands hl hr h⟩
      · exact ⟨_, .self, .result hl hr hv h⟩

/-! ## What comes of infinite numbers -/

/-- A literal out of range, or an operator that makes a number out of range of its operands. -/
inductive Overflows (constants : Constants) : Expr → Prop
  | literal {v : Value} : v.isOutOfRange = true → Overflows constants (.literal v)
  | result {op : Operator} {left right : Expr} {l r v : Value} :
      left.evaluate constants = .ok l → right.evaluate constants = .ok r →
      Value.operate op l r = .ok v → v.isOutOfRange = true →
      Overflows constants (.binary op left right)

/-- An operator that writes its operands, one of which is an infinite number. -/
inductive WritesInfinite (constants : Constants) : Expr → Prop
  | operands {op : Operator} {left right : Expr} {l r : Value} :
      left.evaluate constants = .ok l → right.evaluate constants = .ok r →
      Value.writes op l r = true → (l.isOutOfRange = true ∨ r.isOutOfRange = true) →
      WritesInfinite constants (.binary op left right)

/-- An expression refuses a number out of range exactly when a result overflows. -/
theorem refuses_outOfRange_iff {e : Expr} :
    e.Refuses constants (.fault .numberOutOfRange) ↔ e.Overflows constants := by
  constructor
  · intro h
    cases h with
    | literal h => exact .literal (Value.finite_eq_outOfRange_iff.mp h)
    | operands _ _ h => exact absurd h Value.operate_ne_outOfRange
    | result hl hr hv h => exact .result hl hr hv (Value.finite_eq_outOfRange_iff.mp h)
  · intro h
    cases h with
    | literal h => exact .literal (Value.finite_eq_outOfRange_iff.mpr h)
    | result hl hr hv h => exact .result hl hr hv (Value.finite_eq_outOfRange_iff.mpr h)

/-- An expression refuses an infinite number exactly when it writes one. -/
theorem refuses_infinite_iff {e : Expr} :
    e.Refuses constants .infiniteNumber ↔ e.WritesInfinite constants := by
  constructor
  · intro h
    cases h with
    | literal h => exact absurd h (Value.finite_ne_infinite _)
    | operands hl hr h =>
        obtain ⟨hwrites, hrange⟩ := Value.operate_eq_infinite_iff.mp h
        exact .operands hl hr hwrites hrange
    | result _ _ _ h => exact absurd h (Value.finite_ne_infinite _)
  · rintro ⟨hl, hr, hwrites, hrange⟩
    exact .operands hl hr (Value.operate_eq_infinite_iff.mpr ⟨hwrites, hrange⟩)

/-- The constant behind minus signs is come to. -/
theorem reaches_of_signed? {e : Expr} {name : String} (h : e.signed? = some name) :
    e.Reaches constants (.constant name) := by
  induction e with
  | constant other =>
      cases h
      exact .self
  | negate operand ih => exact .operand (ih h)
  | literal v => cases h
  | binary op left right _ _ => cases h

theorem Reaches.trans {e middle part : Expr} (h : e.Reaches constants middle)
    (hpart : middle.Reaches constants part) : e.Reaches constants part := by
  induction h with
  | self => exact hpart
  | operand _ ih => exact .operand (ih hpart)
  | left _ ih => exact .left (ih hpart)
  | right hleft _ ih => exact .right hleft (ih hpart)

/-- Where no constant that is come to is out of range, no value is. -/
theorem Reaches.isOutOfRange_eq_false {e part : Expr} {v : Value}
    (hconstants : ∀ name, e.Reaches constants (.constant name) → ¬ constants.OutOfRange name)
    (hreaches : e.Reaches constants part) (hv : part.evaluate constants = .ok v) :
    v.isOutOfRange = false := by
  refine Bool.eq_false_iff.mpr fun hrange => ?_
  obtain ⟨name, hsigned, hout⟩ := (isOutOfRange_iff_of_evaluate hv).mp hrange
  exact hconstants name (hreaches.trans (reaches_of_signed? hsigned)) hout

/-- Where no constant that is come to is out of range, no infinite number is written. -/
theorem not_writesInfinite {e part : Expr}
    (hconstants : ∀ name, e.Reaches constants (.constant name) → ¬ constants.OutOfRange name)
    (hreaches : e.Reaches constants part) : ¬ part.WritesInfinite constants := by
  rintro ⟨hl, hr, -, hrange | hrange⟩
  · rw [(hreaches.trans (.left .self)).isOutOfRange_eq_false hconstants hl] at hrange
    cases hrange
  · rw [(hreaches.trans (.right hl .self)).isOutOfRange_eq_false hconstants hr] at hrange
    cases hrange

/-- A constant out of range has a value with any number of minus signs before it. -/
theorem exists_value_of_signed? {e : Expr} {name : String} (h : e.signed? = some name)
    (hout : constants.OutOfRange name) :
    ∃ v, e.evaluate constants = .ok v ∧ v.isOutOfRange = true := by
  induction e with
  | constant other =>
      cases h
      obtain ⟨text, htext, hrange⟩ := hout
      exact ⟨Value.ofString text, by rw [evaluate, htext], hrange⟩
  | negate operand ih =>
      obtain ⟨v, hv, hrange⟩ := ih h
      cases hneg : v.negate with
      | error refusal => exact absurd hneg (Value.negate_ne_error v refusal)
      | ok w =>
          refine ⟨w, ?_, (Value.isOutOfRange_negate hneg).trans hrange⟩
          rw [evaluate, hv]
          exact hneg
  | literal v => cases h
  | binary op left right _ _ => cases h

/-- There is nothing to write for an expression if an operator in it has nothing to write, or if its
own value is infinite. -/
theorem cssOf_eq_infinite_iff {expression : String} :
    cssOf constants expression = .error .infiniteNumber ↔
      ∃ e, parse expression = .ok e ∧ ((∃ part, e.Reaches constants part ∧
          part.WritesInfinite constants) ∨
        ∃ name, e.signed? = some name ∧ constants.OutOfRange name) := by
  unfold cssOf valueOf
  cases hparse : parse expression with
  | error fault =>
      constructor
      · intro h
        cases h
      · rintro ⟨e, he, -⟩
        cases he
  | ok e =>
      -- the value itself has nothing to write exactly if it is out of range
      have hcss : (∃ v, e.evaluate constants = .ok v ∧ v.css = .error .infiniteNumber) ↔
          ∃ name, e.signed? = some name ∧ constants.OutOfRange name := by
        constructor
        · rintro ⟨v, hv, h⟩
          exact (isOutOfRange_iff_of_evaluate hv).mp (Value.css_eq_error_iff.mp h)
        · rintro ⟨name, hsigned, hout⟩
          obtain ⟨v, hv, hrange⟩ := exists_value_of_signed? hsigned hout
          exact ⟨v, hv, Value.css_eq_error hrange⟩
      simp only [← refuses_infinite_iff, ← evaluate_eq_error_iff]
      show (e.evaluate constants >>= Value.css) = _ ↔ _
      constructor
      · intro h
        exact ⟨e, rfl, (error_of_bind h).imp_right hcss.mp⟩
      · rintro ⟨_, ⟨⟩, h | h⟩
        · rw [h]
          rfl
        · obtain ⟨v, hv, h⟩ := hcss.mpr h
          rw [hv]
          exact h

/-- **Infinite numbers come from constants only.** The value of a part of an expression is in range
unless that part is a constant, perhaps with minus signs before it, whose text reads as a number out
of range. A number out of range that a literal writes or an operator makes is refused as such, and
that is the only reason for this refusal. Writing an expression comes to a text, or to a fault at
the line that is given, or there is an infinite number to write: for an operator that writes its
operands, or for the whole. Without a constant out of range none of this happens. -/
theorem infinite_only_from_constants (constants : Constants) :
    (∀ (e part : Expr) (v : Value), e.Reaches constants part → part.evaluate constants = .ok v →
      (v.isOutOfRange = true ↔ ∃ name, part.signed? = some name ∧ constants.OutOfRange name)) ∧
    (∀ e : Expr, e.evaluate constants = .error (.fault .numberOutOfRange) ↔
      ∃ part, e.Reaches constants part ∧ part.Overflows constants) ∧
    (∀ (expression : String) (line : Option Int),
      let written := (cssOf constants expression).mapError (Refusal.at · line)
      ((∃ css, written = .ok css) ∨ (∃ fault, written = .error (.refused { fault, line })) ∨
        written = .error .infiniteNumber) ∧
      (written = .error .infiniteNumber ↔
        ∃ e, parse expression = .ok e ∧
          ((∃ part, e.Reaches constants part ∧ part.WritesInfinite constants) ∨
            ∃ name, e.signed? = some name ∧ constants.OutOfRange name))) ∧
    ∀ e : Expr, (∀ name, e.Reaches constants (.constant name) → ¬ constants.OutOfRange name) →
      (∀ part v, e.Reaches constants part → part.evaluate constants = .ok v →
        v.isOutOfRange = false) ∧
      ∀ expression, parse expression = .ok e →
        cssOf constants expression ≠ .error .infiniteNumber := by
  refine ⟨fun e part v _ hv => isOutOfRange_iff_of_evaluate hv, fun e => ?_,
    fun expression line => ?_, fun e hconstants => ⟨fun part v hreaches hv => ?_, ?_⟩⟩
  · simp only [evaluate_eq_error_iff, refuses_outOfRange_iff]
  · intro written
    rw [← cssOf_eq_infinite_iff]
    cases h : cssOf constants expression with
    | ok css => simp [written, h, Except.mapError]
    | error refusal => cases refusal <;> simp [written, h, Except.mapError, Refusal.at, Fault.at]
  · exact hreaches.isOutOfRange_eq_false hconstants hv
  · intro expression hparse h
    obtain ⟨e', hparse', hinfinite⟩ := cssOf_eq_infinite_iff.mp h
    cases hparse.symm.trans hparse'
    rcases hinfinite with ⟨part, hreaches, hwrites⟩ | ⟨name, hsigned, hout⟩
    · exact not_writesInfinite hconstants hreaches hwrites
    · exact hconstants name (reaches_of_signed? hsigned) hout

/-- The constant `c` is a number of 310 digits: its value is not in range, and it cannot be written.
-/
theorem infinite_value_of_constant :
    let constants : Constants := ⟨[("c", String.ofList ('1' :: List.replicate 309 '0'))]⟩
    parse "!c" = .ok (.constant "c") ∧
    (∃ v, (Expr.constant "c").evaluate constants = .ok v ∧ v.isOutOfRange = true) ∧
    cssOf constants "!c" = .error .infiniteNumber := by
  intro constants
  have hparse : parse "!c" = .ok (.constant "c") := by cbv
  have hout : constants.OutOfRange "c" := by
    refine ⟨_, rfl, ?_⟩
    rw [Value.ofString, String.toList_ofList]
    decide +kernel
  exact ⟨hparse, exists_value_of_signed? rfl hout, cssOf_of_outOfRange hparse hout⟩

end Expr

end Stylesheet
