import Mathlib
import Stylesheet.Proofs.Expr.Numerals
import Stylesheet.Proofs.Expr.References
import Stylesheet.Proofs.Number.Display
import Stylesheet.Proofs.Text.Digit
import Stylesheet.Proofs.Text.Trim

/-!
# Names for numbers

A number that is stored in a constant is written and read back. What is written the next time is
the same text, but for the numbers that are written `-0`: those are read back as zero, which has no
sign.

* `Value.number?_decimal` : digits and a unit are read as the number that they write.
* `Number.Dyadic.redisplay` : what is written for a number that has been written and read back.
* `outcome_passesOn` : constants that are passed on from line to line.
* `numbers_named` : the text of a number in attributes, with constants and without.
* `sign_of_negative_zero_lost` : a sign that does not survive.
-/

namespace Stylesheet

/-! ## Reading numerals -/

namespace Value

/-- The digits that are written come back, before and after a point. -/
theorem scanNumeral?_decimal (n : Nat) {rest : List Char}
    (hstops : ∀ c ∈ rest.head?, Text.isDigit c = false ∧ c ≠ '.') :
    ∃ fraction, scanNumeral? (Number.decimal n ++ rest) =
        some (Number.wholeDigits n, fraction, rest) ∧ fraction.getD [] = Number.placeDigits n := by
  have hwhole : ∀ c ∈ Number.wholeDigits n, Text.isDigit c = true := fun c hc =>
    Text.isDigit_of_isDigit (Number.isDigit_of_mem_wholeDigits hc)
  have hplaces : ∀ c ∈ Number.placeDigits n, Text.isDigit c = true := fun c hc =>
    Text.isDigit_of_isDigit (Number.isDigit_of_mem_placeDigits hc)
  have hne : Number.wholeDigits n ≠ [] := Nat.toDigits_ne_nil
  have hpoint : rest.head? ≠ some '.' := fun h => (hstops '.' h).2 rfl
  unfold Number.decimal
  split
  · next hempty =>
      refine ⟨none, ?_, (List.isEmpty_iff.mp hempty).symm⟩
      rw [List.append_nil]
      exact scanNumeral?_whole ⟨hwhole, fun c hc => (hstops c hc).1⟩ hne hpoint
  · refine ⟨some (Number.placeDigits n), ?_, rfl⟩
    rw [List.append_assoc, List.cons_append]
    exact scanNumeral?_point hwhole ⟨hplaces, fun c hc => (hstops c hc).1⟩ (by simp [hne])

/-- Digits before and after a point and a unit are read as the number that they write. -/
theorem unsigned?_decimal (negative : Bool) (n : Nat) {unit : Option String}
    (hunit : ∀ u ∈ unit, IsUnitText u.toList) :
    unsigned? negative (Number.decimal n ++ (unit.getD "").toList) =
      some (.number (Number.ofDigits negative (Number.wholeDigits n) (Number.placeDigits n))
        unit) := by
  have hstops : ∀ c ∈ (unit.getD "").toList.head?, Text.isDigit c = false ∧ c ≠ '.' := by
    cases unit with
    | none =>
        intro c hc
        cases hc
    | some u => exact fun c hc => head_of_isUnitText (hunit u rfl) hc
  have hscan : scanUnit (unit.getD "").toList = (unit.map String.toList, []) := by
    cases unit with
    | none => rfl
    | some u =>
        have hwhole : scanUnit (u.toList ++ []) = (some u.toList, []) :=
          scanUnit_append (hunit u rfl) fun _ c hc => by cases hc
        rwa [List.append_nil] at hwhole
  have hname : (unit.map String.toList).map String.ofList = unit := by
    cases unit with
    | none => rfl
    | some u => exact congrArg some String.ofList_toList
  obtain ⟨fraction, hnumeral, hfraction⟩ := scanNumeral?_decimal n hstops
  unfold unsigned?
  rw [hnumeral]
  dsimp only
  rw [hscan]
  dsimp only
  rw [hfraction, hname]

/-- A number that is written is read with its sign. -/
theorem number?_decimal (negative : Bool) (n : Nat) {unit : Option String}
    (hunit : ∀ u ∈ unit, IsUnitText u.toList) :
    number? ((if negative then ['-'] else []) ++ Number.decimal n ++ (unit.getD "").toList) =
      some (.number (Number.ofDigits negative (Number.wholeDigits n) (Number.placeDigits n))
        unit) := by
  rw [← unsigned?_decimal negative n hunit, number?_eq]
  cases negative with
  | true => rfl
  | false =>
      obtain ⟨c, digits, hdigits⟩ :=
        List.exists_cons_of_ne_nil (Nat.toDigits_ne_nil (n := n / Number.tenTo Number.places))
      have hne : c ≠ '-' := by
        rintro rfl
        have : '-' ∈ Number.wholeDigits n := by
          rw [Number.wholeDigits, hdigits]
          exact List.mem_cons_self
        cases Number.isDigit_of_mem_wholeDigits this
      rw [if_neg Bool.false_ne_true, List.nil_append, Number.decimal, Number.wholeDigits, hdigits,
        List.cons_append, List.cons_append, sign_of_ne_minus hne]

end Value

/-! ## Numbers that vanish -/

namespace Number.Dyadic

variable {d : Dyadic}

/-- A number below zero is so near to zero that no place is left of it but its sign. -/
def Vanishes (d : Dyadic) : Prop :=
  d.negative = true ∧ d.mantissa ≠ 0 ∧ d.magnitude ≤ 1 / 200000

instance (d : Dyadic) : Decidable d.Vanishes :=
  inferInstanceAs (Decidable (_ ∧ _ ∧ _))

/-- What is written for a number after it has been written and read back. -/
def redisplay (d : Dyadic) : String :=
  if d.Vanishes then "0" else d.display

/-- A number is rounded to zero up to half of the last place. -/
theorem rounded_eq_zero_iff : d.rounded = 0 ↔ d.magnitude ≤ 1 / 200000 := by
  have hten : (tenTo places : ℚ) = 100000 := by
    rw [cast_tenTo, places]
    norm_num
  have hnonneg := d.magnitude_nonneg
  constructor
  · intro hzero
    have hhalf := d.abs_rounded_sub_le
    rw [hzero, hten, Nat.cast_zero, zero_sub, abs_neg, abs_of_nonneg (by positivity)] at hhalf
    linarith
  · intro hsmall
    refine roundQuotient_eq d.quotient_den_pos ?_ fun _ => Even.zero
    rw [scaled_quotient_eq, hten, Nat.cast_zero, zero_sub, abs_neg, abs_of_nonneg (by positivity)]
    linarith

theorem decimal_zero : decimal 0 = ['0'] := by
  decide

/-- A negative number that is rounded to zero keeps its sign when it is first shown. -/
theorem display_of_vanishes (h : d.Vanishes) : d.display = "-0" := by
  rw [← String.toList_inj, toList_display, rounded_eq_zero_iff.mpr h.2.2, decimal_zero, h.1,
    bne_iff_ne.mpr h.2.1]
  rfl

/-- Read back and shown again, such a number has lost its sign. -/
theorem redisplay_of_vanishes (h : d.Vanishes) : d.redisplay = "0" :=
  if_pos h

/-- Every other number is shown the same again. -/
theorem redisplay_eq_display_iff : d.redisplay = d.display ↔ ¬ d.Vanishes := by
  constructor
  · intro heq h
    rw [redisplay_of_vanishes h, display_of_vanishes h] at heq
    exact absurd heq (by decide)
  · exact fun h => if_neg h

/-- The sign of a number is lost if no place is left of it. -/
theorem toList_redisplay (d : Dyadic) :
    d.redisplay.toList = (if d.negative && d.mantissa != 0 && d.rounded != 0 then ['-'] else []) ++
      decimal d.rounded := by
  unfold redisplay
  split
  · next h =>
      rw [rounded_eq_zero_iff.mpr h.2.2, decimal_zero, bne_self_eq_false, Bool.and_false]
      rfl
  · next h =>
      rw [toList_display]
      by_cases hzero : d.rounded = 0
      · have hsign : (d.negative && d.mantissa != 0) = false := by
          by_contra hsign
          rw [Bool.not_eq_false, Bool.and_eq_true, bne_iff_ne] at hsign
          exact h ⟨hsign.1, hsign.2, rounded_eq_zero_iff.mp hzero⟩
        rw [hsign, Bool.false_and]
      · rw [bne_iff_ne.mpr hzero, Bool.and_true]

end Number.Dyadic

/-! ## Reading what is written -/

namespace Value

variable {d : Number.Dyadic} {unit : Option String}

theorem css_number {x : Float} (hx : Number.Dyadic.ofFloat? x = some d) :
    (number x unit).css = .ok (d.display ++ unit.getD "") := by
  rw [css, css?, Number.display?, hx]
  rfl

/-- Written numbers have no blanks. -/
theorem isBlank_of_mem_written (negative : Bool) (n : Nat)
    (hunit : ∀ u ∈ unit, IsUnitText u.toList) :
    ∀ c ∈ (if negative then ['-'] else []) ++ Number.decimal n ++ (unit.getD "").toList,
      Text.isBlank c = false := by
  have hdigit : ∀ {c : Char}, c.isDigit = true → Text.isBlank c = false := fun h =>
    Text.isBlank_of_visible (by have := Text.toNat_of_isDigit h; omega)
      (by have := Text.toNat_of_isDigit h; omega)
  refine List.forall_mem_append.mpr ⟨List.forall_mem_append.mpr ⟨?sign, ?digits⟩, ?unit⟩
  case sign =>
    cases negative with
    | true => exact List.forall_mem_singleton.mpr (by decide)
    | false => simp
  case digits =>
    refine List.forall_mem_append.mpr
      ⟨fun c hc => hdigit (Number.isDigit_of_mem_wholeDigits hc), ?_⟩
    split
    · simp
    · exact List.forall_mem_cons.mpr
        ⟨by decide, fun c hc => hdigit (Number.isDigit_of_mem_placeDigits hc)⟩
  case unit =>
    cases unit with
    | none => simp
    | some u =>
        rcases hunit u rfl with hpercent | ⟨-, hletters⟩
        · rw [Option.getD_some, hpercent]
          exact List.forall_mem_singleton.mpr (by decide)
        · intro c hc
          have hrange := Text.toNat_of_isAlpha (hletters c hc)
          exact Text.isBlank_of_visible (by omega) (by omega)

/-- What is written for a number is read as its digits have it. -/
theorem ofString_written {text : String} {negative : Bool} {n : Nat}
    (htext : text.toList = (if negative then ['-'] else []) ++ Number.decimal n)
    (hunit : ∀ u ∈ unit, IsUnitText u.toList) :
    ofString (text ++ unit.getD "") =
      .number (Number.ofDigits negative (Number.wholeDigits n) (Number.placeDigits n)) unit := by
  unfold ofString
  dsimp only
  rw [String.toList_append, htext, Text.trim_of_forall (isBlank_of_mem_written negative n hunit),
    number?_decimal negative n hunit]
  rfl

/-- What is written for a number, with its sign or without, is read as a number that is written with
the same digits, and with its sign if one of them is not zero. -/
theorem exists_ofString {text : String} {negative : Bool} (hd : d.Representable)
    (htext : text.toList = (if negative then ['-'] else []) ++ Number.decimal d.rounded)
    (hunit : ∀ u ∈ unit, IsUnitText u.toList) :
    ∃ x y, ofString (text ++ unit.getD "") = .number x unit ∧
      Number.Dyadic.ofFloat? x = some y ∧
      y.display.toList = (if negative && d.rounded != 0 then ['-'] else []) ++
        Number.decimal d.rounded := by
  obtain ⟨y, hy, hnegative, hrounded, hzero⟩ := Number.Dyadic.exists_read hd negative
  have hbool : (y.mantissa != 0) = (d.rounded != 0) := by
    rw [Bool.eq_iff_iff, bne_iff_ne, bne_iff_ne, Ne, hzero]
  refine ⟨_, y, ofString_written htext hunit, hy, ?_⟩
  rw [Number.Dyadic.toList_display, hnegative, hrounded, hbool]

/-- A number that is written is read as a number that is written as it will be from then on. -/
theorem exists_ofString_display (hd : d.Representable) (hunit : ∀ u ∈ unit, IsUnitText u.toList) :
    ∃ x, ofString (d.display ++ unit.getD "") = .number x unit ∧
      (number x unit).css = .ok (d.redisplay ++ unit.getD "") := by
  obtain ⟨x, y, hread, hy, hwritten⟩ := exists_ofString hd d.toList_display hunit
  rw [← d.toList_redisplay, String.toList_inj] at hwritten
  refine ⟨x, hread, ?_⟩
  rw [css_number hy, hwritten]

/-- What is shown again is a fixed point: read back, it is shown as it is. -/
theorem exists_ofString_redisplay (hd : d.Representable)
    (hunit : ∀ u ∈ unit, IsUnitText u.toList) :
    ∃ x, ofString (d.redisplay ++ unit.getD "") = .number x unit ∧
      (number x unit).css = .ok (d.redisplay ++ unit.getD "") := by
  obtain ⟨x, y, hread, hy, hwritten⟩ := exists_ofString hd d.toList_redisplay hunit
  rw [Bool.and_assoc (_ && _), Bool.and_self, ← d.toList_redisplay, String.toList_inj] at hwritten
  refine ⟨x, hread, ?_⟩
  rw [css_number hy, hwritten]

end Value

/-! ## Lines -/

/-- Lines that pass a constant on: each of them defines a constant by a reference to the constant
of the line before, the first one to a constant that is given. -/
inductive PassesOn : List Char → List (List Char × Int) → List Char → Prop
  | none (name : List Char) : PassesOn name [] name
  | line {name next last text value : List Char} {number : Int} {lines : List (List Char × Int)}
      (parts : constantParts? text = some ⟨next, false, value⟩)
      (reference : Expr.parse (String.ofList value) = .ok (.constant (String.ofList name)))
      (rest : PassesOn next lines last) : PassesOn name ((text, number) :: lines) last

/-- All attributes of a style sheet whose value is an expression of a kind are written with a
text. -/
def WritesAttributes (s : State) (kind : List Char → Prop) (css : String) : Prop :=
  ∀ {context : Context} {way : AttributeSyntax} {text name value : List Char} (line : Int),
    context.options.attributeSyntax ≠ some way.other →
    attributeParts? way text = some ⟨name, true, value⟩ → kind value →
    (attribute? context way text line).outcome s = (.ok (.attr (String.ofList name) css), s)

def IsReference (name value : List Char) : Prop :=
  Expr.parse (String.ofList value) = .ok (.constant (String.ofList name))

variable {s : State}

theorem writesAttributes_of_reference {name : List Char} {text css : String}
    (hname : s.constants.get? (String.ofList name) = some text)
    (hcss : (Value.ofString text).css = .ok css) :
    WritesAttributes s (IsReference name) css := by
  intro context way _ _ value line hway hparts hreference
  refine outcome_attribute? line hway hparts ?_
  rw [Expr.cssOf_of_constant hreference hname, hcss]

/-- However often a constant is passed on, the last one is read as it is written. -/
theorem outcome_passesOn {name last : List Char} {lines : List (List Char × Int)}
    (hlines : PassesOn name lines last) {css : String}
    (hstable : (Value.ofString css).css = .ok css) {text : String}
    (hname : s.constants.get? (String.ofList name) = some text)
    (hcss : (Value.ofString text).css = .ok css) :
    ∃ constants, (forM lines fun line => defineConstant line.1 line.2).outcome s =
        (.ok (), { s with constants }) ∧
      ∃ text', constants.get? (String.ofList last) = some text' ∧
        (Value.ofString text').css = .ok css := by
  induction hlines generalizing s text with
  | none name => exact ⟨s.constants, rfl, text, hname, hcss⟩
  | @line name next last definition value number lines parts reference rest ih =>
      have hdefined : Expr.cssOf s.constants (String.ofList value) = .ok css := by
        rw [Expr.cssOf_of_constant reference hname, hcss]
      have hline := outcome_defineConstant number parts hdefined
      -- the next constant holds what was written, which is written again from there on
      obtain ⟨constants, hrest, hlast⟩ := ih (s := { s with
        constants := s.constants.set (String.ofList next) css })
        (Table.get?_set_self _ _ _) hstable
      refine ⟨constants, ?_, hlast⟩
      rw [List.forM_cons, Assembly.outcome_bind_of_ok hline, hrest]

/-- **Names for numbers.** What is written for a finite number, whose unit is none, letters or a
percent sign, is read as a number with the same unit, and the same text is written for that number.
So for every expression with the number as its value: a constant that it is stored in, passed on
from constant to constant as often as one likes, is written in attributes as the expression itself
is. All this is so unless the number is below zero by not more than half a unit of the last place:
such a number is written `-0`, and what is stored of it is written `0`. -/
theorem numbers_named {x : Float} {unit : Option String} {d : Number.Dyadic}
    (hfinite : Number.Dyadic.ofFloat? x = some d) :
    ((∀ u ∈ unit, IsUnitText u.toList) →
      (Value.number x unit).css = .ok (d.display ++ unit.getD "") ∧
      ∃ y, Value.ofString (d.display ++ unit.getD "") = .number y unit ∧
        (Value.number y unit).css = .ok (d.redisplay ++ unit.getD "")) ∧
    (∀ {s : State} {text name value : List Char} (line : Int),
      constantParts? text = some ⟨name, false, value⟩ →
      Expr.valueOf s.constants (String.ofList value) = .ok (.number x unit) →
      WritesAttributes s (· = value) (d.display ++ unit.getD "") ∧
      ∀ {lines : List (List Char × Int)} {last : List Char}, PassesOn name lines last →
        ∃ constants,
          (forM ((text, line) :: lines) fun line => defineConstant line.1 line.2).outcome s =
            (.ok (), { s with constants }) ∧
          WritesAttributes { s with constants } (IsReference last)
            (d.redisplay ++ unit.getD "")) ∧
    (d.redisplay = d.display ↔ ¬ d.Vanishes) ∧
    (d.Vanishes → d.display = "-0" ∧ d.redisplay = "0") := by
  have hd := Number.Dyadic.representable_of_ofBits? hfinite
  refine ⟨?number, ?expression, Number.Dyadic.redisplay_eq_display_iff,
    fun h => ⟨Number.Dyadic.display_of_vanishes h, Number.Dyadic.redisplay_of_vanishes h⟩⟩
  case number =>
    exact fun hunit => ⟨Value.css_number hfinite, Value.exists_ofString_display hd hunit⟩
  case expression =>
    intro s text name value line hparts hvalue
    have hunit : ∀ u ∈ unit, IsUnitText u.toList := Expr.proper_of_valueOf hvalue
    have hcss : Expr.cssOf s.constants (String.ofList value) = .ok (d.display ++ unit.getD "") :=
      bind_eq_ok_iff.mpr ⟨_, hvalue, Value.css_number hfinite⟩
    refine ⟨?direct, fun hlines => ?named⟩
    case direct =>
      rintro context way _ _ _ line hway hattribute rfl
      exact outcome_attribute? line hway hattribute hcss
    case named =>
      obtain ⟨y, hy, hfirst⟩ := Value.exists_ofString_display hd hunit
      obtain ⟨z, hz, hstable⟩ := Value.exists_ofString_redisplay hd hunit
      rw [← hz] at hstable
      rw [← hy] at hfirst
      obtain ⟨constants, hrest, last', hlast, hwritten⟩ :=
        outcome_passesOn hlines hstable
          (s := { s with constants := s.constants.set (String.ofList name) _ })
          (Table.get?_set_self _ _ _) hfirst
      refine ⟨constants, ?_, writesAttributes_of_reference hlast hwritten⟩
      rw [List.forM_cons, Assembly.outcome_bind_of_ok (outcome_defineConstant line hparts hcss),
        hrest]

/-- A number with more places than are written is passed on as what is written of it. -/
theorem numbers_named_of_six_places :
    ∃ constants, (forM [("!c = 1.234567px".toList, (1 : Int)), ("!d = !c".toList, 2)]
          fun line => defineConstant line.1 line.2).outcome {} =
        (.ok (), ({ constants } : State)) ∧
      WritesAttributes { constants } (IsReference ['d']) "1.23457px" := by
  have htokens : Token.ofExpression (String.ofList "1.234567px".toList) =
      .ok [.number ['1'] (some "234567".toList) (some "px".toList)] := by cbv
  have hparse := (parse_of_ofExpression htokens).trans (Expr.ofTokens_eq_ok_iff.mpr
    (.list (.words (.sum (.product (.single (.number _ _ _)))))))
  have hliteral : (Value.number (Number.ofDigits false ['1'] "234567".toList)
      (some "px")).finite = .ok _ := rfl
  have hvalue : Expr.valueOf ({} : State).constants (String.ofList "1.234567px".toList) = .ok _ :=
    Expr.valueOf_eq_ok_iff.mpr ⟨_, hparse, hliteral⟩
  have hfinite : Number.Dyadic.ofFloat? (Number.ofDigits false ['1'] "234567".toList) =
      some ⟨false, 5559995481163911, -52⟩ := rfl
  have hname : IsConstantName ['c'] := ⟨by decide, List.forall_mem_singleton.mpr (by decide)⟩
  have hreference : constantParts? "!d = !c".toList = some ⟨['d'], false, ['!', 'c']⟩ := by cbv
  have hpass : PassesOn ['c'] [("!d = !c".toList, 2)] ['d'] :=
    .line hreference (Expr.parse_reference hname) (.none ['d'])
  have hparts : constantParts? "!c = 1.234567px".toList =
      some ⟨['c'], false, "1.234567px".toList⟩ := by cbv
  obtain ⟨-, hnamed, -, -⟩ := numbers_named hfinite
  obtain ⟨-, hpassed⟩ := hnamed 1 hparts hvalue
  obtain ⟨constants, hlines, hwritten⟩ := hpassed hpass
  have hplaces : Number.Dyadic.redisplay ⟨false, 5559995481163911, -52⟩ = "1.23457" :=
    if_neg fun h => Bool.false_ne_true h.1
  refine ⟨constants, hlines, ?_⟩
  rw [hplaces] at hwritten
  exact hwritten

/-- The sign of a number that is written `-0` is lost when the number is stored: it is written `0`
from then on. -/
theorem sign_of_negative_zero_lost :
    Expr.cssOf ({} : State).constants "-0.000001" = .ok "-0" ∧
      (defineConstant "!c = -0.000001".toList 1).outcome {} =
        (.ok (), { ({} : State) with constants := ({} : State).constants.set "c" "-0" }) ∧
      Expr.cssOf (({} : State).constants.set "c" "-0") "!c" = .ok "0" := by
  have htokens : Token.ofExpression "-0.000001" =
      .ok [.mark .minus, .number ['0'] (some "000001".toList) none] := by cbv
  have hparse := (parse_of_ofExpression htokens).trans (Expr.ofTokens_eq_ok_iff.mpr
    (.list (.words (.sum (.product (.negate (.single (.number _ _ _))))))))
  have hliteral : (Value.number (Number.ofDigits false ['0'] "000001".toList) none).finite =
      .ok _ := rfl
  have hvalue : Expr.valueOf ({} : State).constants "-0.000001" = .ok _ :=
    Expr.valueOf_eq_ok_iff.mpr ⟨_, hparse, bind_eq_ok_iff.mpr ⟨_, hliteral, rfl⟩⟩
  have hwritten : (Value.number (-Number.ofDigits false ['0'] "000001".toList) none).css =
      .ok "-0" := rfl
  have hcss := bind_eq_ok_iff.mpr ⟨_, hvalue, hwritten⟩
  have hparts : constantParts? "!c = -0.000001".toList =
      some ⟨['c'], false, "-0.000001".toList⟩ := by cbv
  have hname : IsConstantName ['c'] := ⟨by decide, List.forall_mem_singleton.mpr (by decide)⟩
  have hzero : (Value.ofString "-0").css = .ok "0" := by decide +kernel
  refine ⟨hcss, outcome_defineConstant 1 hparts hcss, ?_⟩
  rw [Expr.cssOf_of_constant (Expr.parse_reference hname) (Table.get?_set_self _ _ _), hzero]

end Stylesheet
