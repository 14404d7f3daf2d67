import Mathlib
import Stylesheet.Expr.Evaluation
import Stylesheet.Proofs.Expr.Grammar

/-!
# What the values of expressions are like

Whatever a text writes, and whatever the texts of the constants are, the values that arise have
channels of colors that fit in a byte, and units that can be written. Literals have such values, the
texts of constants are read as such values, and operators make such values of them.

* `Value.proper_ofString`, `Token.proper_of_scan` : what is read.
* `Value.proper_operate` : what operators make.
* `Expr.proper_of_valueOf` : the value of an expression.
-/

namespace Stylesheet

/-! ## Units and channels -/

/-- What can be written as a unit: a percent sign or letters. -/
def IsUnitText (unit : List Char) : Prop :=
  unit = ['%'] ∨ unit ≠ [] ∧ ∀ c ∈ unit, Value.isUnitLetter c = true

/-- All channels are at most 255. -/
structure Color.InRange (c : Color) : Prop where
  red : c.red ≤ 255
  green : c.green ≤ 255
  blue : c.blue ≤ 255

/-- A number has no unit or one that can be written; the channels of a color are in range. -/
def Value.Proper : Value → Prop
  | .number _ unit => ∀ u ∈ unit, IsUnitText u.toList
  | .color c => c.InRange
  | .text _ => True

/-! ## Reading values -/

theorem Text.hexValue?_lt {c : Char} {n : Nat} (h : hexValue? c = some n) : n < 16 := by
  have hle : ∀ {a b : Char}, a ≤ b → a.toNat ≤ b.toNat := fun hab => hab
  unfold hexValue? at h
  split at h
  · next hc =>
      cases h
      have := hle hc.2
      simp only [Char.reduceToNat] at this ⊢
      omega
  · split at h
    · next hc =>
        cases h
        have := hle hc.2
        simp only [Char.reduceToNat] at this ⊢
        omega
    · split at h
      · next hc =>
          cases h
          have := hle hc.2
          simp only [Char.reduceToNat] at this ⊢
          omega
      · cases h

theorem Text.mapM_hexValue?_lt {digits : List Char} {values : List Nat}
    (h : digits.mapM hexValue? = some values) : ∀ n ∈ values, n < 16 := by
  induction digits generalizing values with
  | nil =>
      cases h
      simp
  | cons c cs ih =>
      rw [List.mapM_cons] at h
      obtain ⟨n, hn, h⟩ := Option.bind_eq_some_iff.mp h
      obtain ⟨rest, hrest, h⟩ := Option.bind_eq_some_iff.mp h
      cases h
      exact List.forall_mem_cons.mpr ⟨hexValue?_lt hn, ih hrest⟩

/-- Hexadecimal digits write channels in range: a channel has two of them, or one twice. -/
theorem Color.inRange_of_ofHexDigits? {digits : List Char} {c : Color}
    (h : ofHexDigits? digits = some c) : c.InRange := by
  unfold ofHexDigits? at h
  split at h
  · next r g b hvalues =>
      cases h
      have hlt := Text.mapM_hexValue?_lt hvalues
      simp only [List.forall_mem_cons] at hlt
      constructor <;> dsimp only <;> omega
  · next r r' g g' b b' hvalues =>
      cases h
      have hlt := Text.mapM_hexValue?_lt hvalues
      simp only [List.forall_mem_cons] at hlt
      constructor <;> dsimp only <;> omega
  · cases h

namespace Value

theorem isUnitText_of_scanUnit {cs rest unit : List Char} (h : scanUnit cs = (some unit, rest)) :
    IsUnitText unit := by
  unfold scanUnit at h
  split at h
  · cases h
    exact .inl rfl
  · dsimp only at h
    split at h
    · cases h
    · next hne =>
        cases h
        exact .inr ⟨fun hnil => hne (List.isEmpty_iff.mpr hnil),
          fun c hc => List.mem_takeWhile_imp hc⟩

def sign (cs : List Char) : Bool × List Char :=
  match cs with
  | '-' :: rest => (true, rest)
  | _ => (false, cs)

theorem sign_of_ne_minus {c : Char} (h : c ≠ '-') (cs : List Char) :
    sign (c :: cs) = (false, c :: cs) := by
  unfold sign
  split
  · next hc =>
      cases hc
      exact absurd rfl h
  · rfl

def unsigned? (negative : Bool) (cs : List Char) : Option Value :=
  match scanNumeral? cs with
  | none => none
  | some (whole, fraction, rest) =>
    match scanUnit rest with
    | (unit, []) =>
      some (.number (Number.ofDigits negative whole (fraction.getD [])) (unit.map String.ofList))
    | _ => none

theorem number?_eq (cs : List Char) : number? cs = unsigned? (sign cs).1 (sign cs).2 :=
  rfl

/-- What is read as a number is a proper value. -/
theorem proper_of_number? {cs : List Char} {v : Value} (h : number? cs = some v) : v.Proper := by
  rw [number?_eq, unsigned?] at h
  split at h
  · cases h
  · split at h
    · next unit hunit =>
        cases h
        intro u hu
        obtain ⟨written, hwritten, rfl⟩ := Option.map_eq_some_iff.mp hu
        rw [String.toList_ofList]
        rw [hwritten] at hunit
        exact isUnitText_of_scanUnit hunit
    · cases h

theorem proper_of_color? {cs : List Char} {v : Value} (h : color? cs = some v) : v.Proper := by
  unfold color? at h
  split at h
  · obtain ⟨c, hc, rfl⟩ := Option.map_eq_some_iff.mp h
    exact Color.inRange_of_ofHexDigits? hc
  · cases h

/-- The text of a constant is read as a proper value, whatever it is. -/
theorem proper_ofString (text : String) : (ofString text).Proper := by
  show ((number? (Text.trim text.toList) <|> color? (Text.trim text.toList)).getD _).Proper
  rw [Option.orElse_eq_orElse, Option.orElse_eq_or]
  cases hread : (number? (Text.trim text.toList)).or (color? (Text.trim text.toList)) with
  | none => trivial
  | some v =>
      rcases Option.or_eq_some_iff.mp hread with hnumber | ⟨-, hcolor⟩
      · exact proper_of_number? hnumber
      · exact proper_of_color? hcolor

end Value

namespace Token

variable {cs rest : List Char}

/-- Only the scanner of numbers gives numbers. -/
theorem scanNumber?_of_scan {whole : List Char} {fraction unit : Option (List Char)}
    (h : scan? cs = some (.number whole fraction unit, rest)) :
    scanNumber? cs = some (.number whole fraction unit, rest) := by
  simp only [scan?, Option.orElse_eq_orElse, Option.orElse_eq_or, Option.or_eq_some_iff] at h
  -- each of the other scanners gives tokens of its own kind
  rcases h with h | ⟨-, h | ⟨-, h | ⟨-, h | ⟨-, h | ⟨-, h⟩⟩⟩⟩⟩
  · unfold scanQuoted? at h
    split at h
    · split at h
      · split at h <;> cases h
      · cases h
    · cases h
  · unfold scanColor? at h
    split at h
    · dsimp only at h
      split at h <;> cases h
    · cases h
  · exact h
  · unfold scanConstant? at h
    split at h
    · dsimp only at h
      split at h <;> cases h
    · cases h
  · unfold scanWord? at h
    split at h
    · cases h
    · split at h <;> cases h
    · cases h
  · unfold scanMark? at h
    split at h
    · obtain ⟨m, -, h⟩ := Option.map_eq_some_iff.mp h
      cases h
    · cases h

/-- A token that is scanned writes a proper value, if it writes one. -/
theorem proper_of_scan {t : Token} (h : scan? cs = some (t, rest)) :
    ∀ v, t.Denotes (.literal v) → v.Proper := by
  intro v hv
  cases hv with
  | quoted q body => trivial
  | color hcolor => exact Color.inRange_of_ofHexDigits? hcolor
  | call w argument => trivial
  | word w => trivial
  | number whole fraction unit =>
      obtain ⟨⟨_, _, after⟩, -, hscan⟩ := Option.map_eq_some_iff.mp (scanNumber?_of_scan h)
      cases hscan
      intro u hu
      obtain ⟨written, hwritten, rfl⟩ := Option.map_eq_some_iff.mp hu
      rw [String.toList_ofList]
      exact Value.isUnitText_of_scanUnit (Prod.ext hwritten rfl)

end Token

/-! ## Operators -/

namespace Value

variable {op : Operator} {left right v : Value}

/-- No channel is above 255. -/
theorem channel_le (x : Float) : channel x ≤ 255 := by
  unfold channel
  split
  · split
    · exact Nat.zero_le _
    · exact Nat.min_le_left _ _
  · split <;> decide

theorem proper_channels {c : Color} {red green blue : Float}
    (h : channels op c red green blue = .ok v) : v.Proper := by
  obtain ⟨r, -, h⟩ := bind_eq_ok_iff.mp h
  obtain ⟨g, -, h⟩ := bind_eq_ok_iff.mp h
  obtain ⟨b, -, h⟩ := bind_eq_ok_iff.mp h
  cases h
  exact ⟨channel_le r, channel_le g, channel_le b⟩

/-- What is joined is a proper value. -/
theorem proper_join {separator : String} (h : join separator left right = .ok v) : v.Proper := by
  obtain ⟨l, -, h⟩ := bind_eq_ok_iff.mp h
  obtain ⟨r, -, h⟩ := bind_eq_ok_iff.mp h
  cases h
  trivial

theorem undefined_ne_ok {α : Type} {a : α} : undefined op left right ≠ .ok a := by
  intro h
  obtain ⟨l, -, h⟩ := bind_eq_ok_iff.mp h
  obtain ⟨r, -, h⟩ := bind_eq_ok_iff.mp h
  cases h

/-- A number made of two has the unit of one of them, or none. -/
theorem proper_numbers {a b : Float} {unit unit' : Option String}
    (hunit : ∀ u ∈ unit, IsUnitText u.toList) (hunit' : ∀ u ∈ unit', IsUnitText u.toList)
    (h : numbers op a unit b unit' = .ok v) : v.Proper := by
  unfold numbers at h
  split at h
  · split at h
    · obtain ⟨x, -, h⟩ := bind_eq_ok_iff.mp h
      cases h
      intro u hu
      split at hu
      · cases hu
      · exact hunit u hu
    · cases h
  · obtain ⟨x, -, h⟩ := bind_eq_ok_iff.mp h
    cases h
    intro u hu
    rw [Option.mem_def, Option.orElse_eq_orElse, Option.orElse_eq_or] at hu
    rcases Option.or_eq_some_iff.mp hu with hu | ⟨-, hu⟩
    · exact hunit u hu
    · exact hunit' u hu

/-- An operation on proper values has a proper one. -/
theorem proper_operate (hleft : left.Proper) (hright : right.Proper)
    (h : operate op left right = .ok v) : v.Proper := by
  have hcombine : combine op left right = .ok v → v.Proper := by
    intro h
    unfold combine at h
    split at h
    · exact proper_numbers hleft hright h
    · exact proper_channels h
    · exact proper_channels h
    · split at h
      · exact proper_channels h
      · exact proper_channels h
      · exact absurd h undefined_ne_ok
    · split at h
      · exact proper_join h
      · exact proper_join h
      · exact proper_join h
      · exact absurd h undefined_ne_ok
  unfold operate at h
  split at h
  · exact proper_join h
  · exact proper_join h
  · exact hcombine h

theorem proper_negate (hv : v.Proper) {w : Value} (h : v.negate = .ok w) : w.Proper := by
  cases v with
  | number x unit =>
      cases h
      exact hv
  | color c =>
      obtain ⟨text, -, h⟩ := bind_eq_ok_iff.mp h
      cases h
      trivial
  | text t =>
      obtain ⟨text, -, h⟩ := bind_eq_ok_iff.mp h
      cases h
      trivial

theorem eq_of_finite {w : Value} (h : v.finite = .ok w) : w = v := by
  unfold finite at h
  split at h
  · cases h
  · exact (Except.ok.inj h).symm

end Value

/-! ## Expressions -/

def Expr.literals : Expr → List Value
  | literal v => [v]
  | constant _ => []
  | negate operand => operand.literals
  | binary _ left right => left.literals ++ right.literals

/-- Every value that is written out in an expression is written by a token of it. -/
theorem Derives.exists_token {part : Part} {ts : List Token} {e : Expr} (h : Derives part ts e) :
    ∀ v ∈ e.literals, ∃ t ∈ ts, t.Denotes (.literal v) := by
  -- a value in an operand is written in the tokens of that operand
  have hbinary : ∀ {xs ys ts : List Token} {op : Operator} {a b : Expr},
      (∀ v ∈ a.literals, ∃ t ∈ xs, t.Denotes (.literal v)) →
      (∀ v ∈ b.literals, ∃ t ∈ ys, t.Denotes (.literal v)) → xs ⊆ ts → ys ⊆ ts →
      ∀ v ∈ (Expr.binary op a b).literals, ∃ t ∈ ts, t.Denotes (.literal v) := by
    intro xs ys ts op a b ha hb hxs hys v hv
    rcases List.mem_append.mp hv with hv | hv
    · obtain ⟨t, ht, hdenotes⟩ := ha v hv
      exact ⟨t, hxs ht, hdenotes⟩
    · obtain ⟨t, ht, hdenotes⟩ := hb v hv
      exact ⟨t, hys ht, hdenotes⟩
  induction h with
  | list _ ih => exact ih
  | words _ ih => exact ih
  | sum _ ih => exact ih
  | product _ ih => exact ih
  | space _ _ _ ihleft ihright => exact hbinary ihleft ihright (by simp) (by simp)
  | comma _ _ ihleft ihright => exact hbinary ihleft ihright (by simp) (by simp)
  | plus _ _ ihleft ihright => exact hbinary ihleft ihright (by simp) (by simp)
  | minus _ _ ihleft ihright => exact hbinary ihleft ihright (by simp) (by simp)
  | times _ _ ihleft ihright => exact hbinary ihleft ihright (by simp) (by simp)
  | divide _ _ ihleft ihright => exact hbinary ihleft ihright (by simp) (by simp)
  | modulo _ _ ihleft ihright => exact hbinary ihleft ihright (by simp) (by simp)
  | negate _ ih =>
      intro v hv
      obtain ⟨t, ht, hdenotes⟩ := ih v hv
      exact ⟨t, List.mem_cons_of_mem _ ht, hdenotes⟩
  | parentheses _ ih =>
      intro v hv
      obtain ⟨t, ht, hdenotes⟩ := ih v hv
      exact ⟨t, List.mem_cons_of_mem _ (List.mem_append_left _ ht), hdenotes⟩
  | @single t e hdenotes =>
      intro v hv
      cases e with
      | literal w =>
          cases List.mem_singleton.mp hv
          exact ⟨t, List.mem_singleton_self t, hdenotes⟩
      | constant name => cases hv
      | negate operand => cases hdenotes
      | binary op left right => cases hdenotes

namespace Expr

variable {constants : Constants}

/-- An expression whose literals are proper has a proper value. -/
theorem proper_of_evaluate {e : Expr} (hliterals : ∀ v ∈ e.literals, v.Proper) {v : Value}
    (h : e.evaluate constants = .ok v) : v.Proper := by
  induction e generalizing v with
  | literal w =>
      rw [Value.eq_of_finite h]
      exact hliterals w List.mem_cons_self
  | constant name =>
      rw [evaluate] at h
      split at h
      · cases h
        exact Value.proper_ofString _
      · cases h
  | negate operand ih =>
      obtain ⟨w, hw, h⟩ := bind_eq_ok_iff.mp h
      exact Value.proper_negate (ih hliterals hw) h
  | binary op left right ihleft ihright =>
      obtain ⟨l, hl, h⟩ := bind_eq_ok_iff.mp h
      obtain ⟨r, hr, h⟩ := bind_eq_ok_iff.mp h
      obtain ⟨w, hw, h⟩ := bind_eq_ok_iff.mp h
      rw [Value.eq_of_finite h]
      exact Value.proper_operate (ihleft (fun u hu => hliterals u (List.mem_append_left _ hu)) hl)
        (ihright (fun u hu => hliterals u (List.mem_append_right _ hu)) hr) hw

/-- A text has a value if it can be read and what it is read as has one. -/
theorem valueOf_eq_ok_iff {expression : String} {v : Value} :
    valueOf constants expression = .ok v ↔
      ∃ e, parse expression = .ok e ∧ e.evaluate constants = .ok v := by
  unfold valueOf
  simp only [bind_eq_ok_iff, mapError_eq_ok_iff]

/-- The value of an expression is proper, whatever the text and the constants are. -/
theorem proper_of_valueOf {expression : String} {v : Value}
    (h : valueOf constants expression = .ok v) : v.Proper := by
  obtain ⟨e, hparse, hv⟩ := valueOf_eq_ok_iff.mp h
  cases htokens : Token.ofExpression expression with
  | error fault =>
      rw [parse, htokens] at hparse
      cases hparse
  | ok ts =>
      rw [parse_of_ofExpression htokens] at hparse
      refine proper_of_evaluate (fun w hw => ?_) hv
      obtain ⟨t, ht, hdenotes⟩ := (ofTokens_eq_ok_iff.mp hparse).exists_token w hw
      exact Token.forall_mem_of_ofExpression (fun _ _ _ => Token.proper_of_scan) htokens t ht w
        hdenotes

end Expr

end Stylesheet
