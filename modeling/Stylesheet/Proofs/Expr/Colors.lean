import Mathlib
import Stylesheet.Proofs.Data.Json
import Stylesheet.Proofs.Expr.References
import Stylesheet.Proofs.Text.Trim

/-!
# Colors of expressions

However a color is calculated, its channels are brought into the range that two hexadecimal digits
write. So it can be stored: its written form is read as the same color, and the constant that has it
may stand wherever the color itself may.

* `Color.ofHexDigits?_hexDigits` : the digits of a color write that color.
* `Value.ofString_css_color` : a stored color is read as the color.
* `colors_stored` : colors of expressions and the constants that they are stored in.
-/

namespace Stylesheet

/-! ## The digits of a color -/

def lowerHexDigits : List Char :=
  "0123456789abcdef".toList

namespace Text

theorem hexDigit_mem_lowerHexDigits : ∀ n < 16, hexDigit false n ∈ lowerHexDigits := by
  decide

theorem isBlank_hexDigit : ∀ n < 16, isBlank (hexDigit false n) = false := by
  decide

end Text

def Color.hexDigits (c : Color) : List Char :=
  [c.red, c.green, c.blue].flatMap (Text.hex false 2)

namespace Color

variable {c : Color}

theorem toList_css (c : Color) : c.css.toList = '#' :: c.hexDigits := by
  rw [css, String.toList_ofList]
  rfl

/-- A color is written with six digits. -/
theorem length_hexDigits (c : Color) : c.hexDigits.length = 6 := rfl

/-- What holds of all digits holds of the digits of a color. -/
theorem forall_mem_hexDigits {P : Char → Prop} (h : ∀ n < 16, P (Text.hexDigit false n)) :
    ∀ d ∈ c.hexDigits, P d := by
  intro d hd
  obtain ⟨n, -, hd⟩ := List.mem_flatMap.mp hd
  simp only [Text.hex, List.nil_append, List.cons_append, List.mem_cons, List.not_mem_nil,
    or_false] at hd
  obtain rfl | rfl := hd
  · exact h _ (Nat.mod_lt _ (by decide))
  · exact h _ (Nat.mod_lt _ (by decide))

/-- Two digits write every channel that is in range. -/
theorem ofHexDigits?_hexDigits (h : c.InRange) : ofHexDigits? c.hexDigits = some c := by
  have hvalue : ∀ n, Text.hexValue? (Text.hexDigit false (n % 16)) = some (n % 16) := fun n =>
    Text.hexValue?_hexDigit false _ (Nat.mod_lt _ (by decide))
  have hchannel : ∀ n ≤ 255, 16 * (n / 16 % 16) + n % 16 = n := by
    intro n hn
    omega
  have hdigits : c.hexDigits.mapM Text.hexValue? = some
      [c.red / 16 % 16, c.red % 16, c.green / 16 % 16, c.green % 16, c.blue / 16 % 16,
        c.blue % 16] := by
    simp [hexDigits, Text.hex, hvalue]
  rw [ofHexDigits?, hdigits]
  dsimp only
  rw [hchannel _ h.red, hchannel _ h.green, hchannel _ h.blue]

end Color

/-! ## Reading colors -/

theorem hash_not_digit : Text.isDigit '#' = false := by
  decide

/-- A constant with the written form of a color has the color as its value. -/
theorem Value.ofString_css_color {c : Color} (h : c.InRange) : ofString c.css = .color c := by
  have hdigits : ∀ d ∈ c.hexDigits, Text.isBlank d = false :=
    Color.forall_mem_hexDigits Text.isBlank_hexDigit
  have hblank : ∀ d ∈ '#' :: c.hexDigits, Text.isBlank d = false :=
    List.forall_mem_cons.mpr ⟨by decide, hdigits⟩
  have hnumeral : scanNumeral? ('#' :: c.hexDigits) = none := by
    simp [scanNumeral?, hash_not_digit]
  have hnumber : number? ('#' :: c.hexDigits) = none := by
    rw [number?_eq, sign_of_ne_minus (by decide), unsigned?, hnumeral]
  have hcolor : color? ('#' :: c.hexDigits) = some (.color c) := by
    rw [color?, Color.ofHexDigits?_hexDigits h]
    rfl
  unfold ofString
  rw [c.toList_css, Text.trim_of_forall hblank]
  dsimp only
  rw [hnumber, hcolor]
  rfl

/-! ## Storing colors -/

variable {constants : Constants} {expression : String} {c : Color}

/-- **Colors are in range and can be stored.** Whatever expression has a color as its value, over
whatever constants, the channels of the color are in range, and it is written as a number sign with
six hexadecimal digits in lower case that write this color. A line that gives a constant this value
stores this text. A constant of this text, among any others, has the color as its value, and in
every expression it may be replaced by the color. -/
theorem colors_stored (h : Expr.valueOf constants expression = .ok (.color c)) :
    c.InRange ∧
    (∃ digits, c.css.toList = '#' :: digits ∧ digits.length = 6 ∧
      (∀ d ∈ digits, d ∈ lowerHexDigits) ∧ Color.ofHexDigits? digits = some c) ∧
    Expr.cssOf constants expression = .ok c.css ∧
    (∀ (s : State) (text name value : List Char) (line : Int), s.constants = constants →
      constantParts? text = some ⟨name, false, value⟩ → String.ofList value = expression →
      (defineConstant text line).outcome s =
        (.ok (), { s with constants := constants.set (String.ofList name) c.css })) ∧
    ∀ (others : Constants) (name : List Char), IsConstantName name →
      let stored := others.set (String.ofList name) c.css
      Expr.valueOf stored (String.ofList ('!' :: name)) = .ok (.color c) ∧
      ∀ e : Expr,
        e.evaluate stored = (e.replace (String.ofList name) (.color c)).evaluate stored := by
  have hrange : c.InRange := Expr.proper_of_valueOf h
  have hcss : Expr.cssOf constants expression = .ok c.css := bind_eq_ok_iff.mpr ⟨_, h, rfl⟩
  refine ⟨hrange, ⟨c.hexDigits, c.toList_css, c.length_hexDigits,
    Color.forall_mem_hexDigits Text.hexDigit_mem_lowerHexDigits,
    Color.ofHexDigits?_hexDigits hrange⟩, hcss, ?stored, ?referred⟩
  case stored =>
    rintro s text name value line rfl hparts rfl
    exact outcome_defineConstant line hparts hcss
  case referred =>
    intro others name hname stored
    have hread := Value.ofString_css_color hrange
    have hget : stored.get? (String.ofList name) = some c.css := Table.get?_set_self _ _ _
    refine ⟨?_, fun e => ?_⟩
    · rw [← hread]
      exact Expr.valueOf_of_constant (Expr.parse_reference hname) hget
    · rw [← hread]
      exact (Expr.evaluate_replace hget (by rw [hread]; rfl) e).symm

/-- A channel that grows beyond its range stays at the end of it. -/
theorem colors_stored_of_product :
    Expr.valueOf {} "#800102 * 3" = .ok (.color ⟨255, 3, 6⟩) ∧
    Expr.cssOf {} "#800102 * 3" = .ok "#ff0306" ∧
    Expr.valueOf (Table.set {} "c" "#ff0306") "!c" = .ok (.color ⟨255, 3, 6⟩) := by
  have htokens : Token.ofExpression "#800102 * 3" =
      .ok [.color ['8', '0', '0', '1', '0', '2'], .mark .times, .number ['3'] none none] := by cbv
  have hparse := (parse_of_ofExpression htokens).trans (Expr.ofTokens_eq_ok_iff.mpr
    (.list (.words (.sum (.times (.product (.single (.color rfl))) (.single (.number _ _ _)))))))
  have hproduct : Value.operate .times (.color ⟨128, 1, 2⟩)
      (.number (Number.ofDigits false ['3'] []) none) = .ok (.color ⟨255, 3, 6⟩) := rfl
  have hfactor : (Value.number (Number.ofDigits false ['3'] []) none).finite = .ok _ := rfl
  have hvalue : Expr.valueOf {} "#800102 * 3" = .ok (.color ⟨255, 3, 6⟩) :=
    Expr.valueOf_eq_ok_iff.mpr ⟨_, hparse, bind_eq_ok_iff.mpr ⟨_, rfl,
      bind_eq_ok_iff.mpr ⟨_, hfactor, bind_eq_ok_iff.mpr ⟨_, hproduct, rfl⟩⟩⟩⟩
  have hname : IsConstantName ['c'] := ⟨by decide, List.forall_mem_singleton.mpr (by decide)⟩
  obtain ⟨-, -, hcss, -, hstored⟩ := colors_stored hvalue
  exact ⟨hvalue, hcss, (hstored {} ['c'] hname).1⟩

end Stylesheet
