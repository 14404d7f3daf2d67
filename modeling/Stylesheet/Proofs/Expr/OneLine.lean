import Mathlib
import Stylesheet.Proofs.Expr.Colors
import Stylesheet.Proofs.Expr.Spacing
import Stylesheet.Proofs.Line.RoundTrip
import Stylesheet.Proofs.Number.Display

/-!
# Values on one line

Numbers with their units and colors are written without an end of line. Texts are those of an
expression or of a constant, or they are joined of such texts; so the value of an expression without
an end of line, over constants without one, is written on one line.

* `Value.oneLine_of_proper` : which values are written on one line.
* `Value.oneLine_ofString`, `Token.oneLine_of_denotes` : values that are read.
* `Value.oneLine_operate` : values that are made.
* `Expr.oneLine_cssOf` : the value of an expression.
-/

namespace Stylesheet

/-! ## Written forms -/

namespace Value

/-- The value is written without an end of line, if it can be written at all. -/
def OneLine (v : Value) : Prop :=
  ∀ text, v.css = .ok text → Stylesheet.OneLine text.toList

theorem css?_of_css {v : Value} {text : String} (h : v.css = .ok text) : v.css? = some text := by
  unfold css at h
  split at h
  · next found hfound =>
      cases h
      exact hfound
  · cases h

theorem oneLine_text_iff {t : String} : OneLine (.text t) ↔ Stylesheet.OneLine t.toList :=
  ⟨fun h => h t rfl, fun h _ htext => by cases htext; exact h⟩

theorem oneLine_unit {unit : List Char} (h : IsUnitText unit) : Stylesheet.OneLine unit := by
  refine oneLine_of_isBlank fun c hc => ?_
  rcases h with rfl | ⟨-, hletters⟩
  · rw [List.mem_singleton.mp hc]
    decide
  · by_contra hblank
    have hletter := Text.isAlpha_of_isBlank (Bool.eq_true_of_not_eq_false hblank)
    rw [show c.isAlpha = true from hletters c hc] at hletter
    cases hletter

end Value

/-- A number is written in digits, with a sign and a point. -/
theorem Number.Dyadic.oneLine_display (d : Dyadic) : OneLine d.display.toList := by
  have hdigits : ∀ digits : List Char, (∀ c ∈ digits, c.isDigit = true) → OneLine digits := by
    intro digits h
    refine oneLine_of_isBlank fun c hc => ?_
    by_contra hblank
    have hdigit := Text.isDigit_of_isBlank (Bool.eq_true_of_not_eq_false hblank)
    rw [Text.isDigit_of_isDigit (h c hc)] at hdigit
    cases hdigit
  rw [toList_display]
  refine oneLine_append ?_ (oneLine_append (hdigits _ fun _ => isDigit_of_mem_wholeDigits) ?_)
  · split <;> decide
  · split
    · decide
    · exact oneLine_cons_iff.mpr ⟨by decide, by decide, hdigits _ fun _ => isDigit_of_mem_placeDigits⟩

namespace Value

/-- A value with a unit that can be written is written on one line, unless it is a text that has an
end of line. -/
theorem oneLine_of_proper {v : Value} (hv : v.Proper)
    (htext : ∀ t, v = .text t → Stylesheet.OneLine t.toList) : v.OneLine := by
  intro text h
  cases v with
  | number x unit =>
      obtain ⟨shown, hshown, rfl⟩ := Option.map_eq_some_iff.mp (css?_of_css h)
      obtain ⟨d, -, rfl⟩ := Option.map_eq_some_iff.mp hshown
      rw [String.toList_append]
      refine oneLine_append d.oneLine_display ?_
      cases unit with
      | none => decide
      | some u => exact oneLine_unit (hv u rfl)
  | color c =>
      cases css?_of_css h
      rw [Color.toList_css]
      refine oneLine_cons_iff.mpr ⟨by decide, by decide, oneLine_of_isBlank ?_⟩
      exact Color.forall_mem_hexDigits Text.isBlank_hexDigit
  | text t =>
      cases css?_of_css h
      exact htext text rfl

/-! ## Values that are read -/

/-- A text that is read as neither a number nor a color loses the blanks around it. -/
theorem ofString_eq_text {text t : String} (h : ofString text = .text t) :
    t = String.ofList (Text.trim text.toList) := by
  unfold ofString at h
  dsimp only at h
  -- a number is tried first and then a color, and neither is a text
  cases hnumber : number? (Text.trim text.toList) with
  | some v =>
      rw [hnumber] at h
      obtain rfl : v = .text t := h
      unfold number? at hnumber
      dsimp only at hnumber
      split at hnumber
      · cases hnumber
      · split at hnumber <;> cases hnumber
  | none =>
      rw [hnumber] at h
      cases hcolor : color? (Text.trim text.toList) with
      | some v =>
          rw [hcolor] at h
          obtain rfl : v = .text t := h
          unfold color? at hcolor
          split at hcolor
          · obtain ⟨c, -, hc⟩ := Option.map_eq_some_iff.mp hcolor
            cases hc
          · cases hcolor
      | none =>
          rw [hcolor] at h
          cases h
          rfl

/-- A text without line breaks is read as a value without any. -/
theorem oneLine_ofString {text : String} (h : Stylesheet.OneLine text.toList) :
    (ofString text).OneLine := by
  refine oneLine_of_proper (proper_ofString text) fun t ht => ?_
  rw [ofString_eq_text ht, String.toList_ofList]
  exact h.subset (Text.trim_sublist _).subset

end Value

namespace Token

/-- A text that a token writes is made of its characters. -/
theorem oneLine_of_denotes {t : Token} (ht : OneLine t.chars) {v : Value} (hv : v.Proper)
    (h : t.Denotes (.literal v)) : v.OneLine := by
  refine Value.oneLine_of_proper hv fun text htext => ?_
  subst htext
  cases h with
  | quoted q body =>
      rw [String.toList_ofList]
      exact ht.subset fun c hc => List.mem_cons_of_mem _ (List.mem_append_left _ hc)
  | call w argument =>
      rw [Token.text, String.toList_ofList]
      exact ht
  | word w =>
      rw [String.toList_ofList]
      exact ht

/-- The characters of a token are some of its text. -/
theorem chars_subset_spread {pieces : List (Token × List Char)} {piece : Token × List Char}
    (h : piece ∈ pieces) : piece.1.chars ⊆ spread pieces := by
  induction pieces with
  | nil => cases h
  | cons first pieces ih =>
      obtain ⟨t, gap⟩ := first
      intro c hc
      rw [spread]
      rcases List.mem_cons.mp h with rfl | h
      · exact List.mem_append_left _ hc
      · exact List.mem_append_right _ (List.mem_append_right _ (ih h hc))

/-- A token has only characters of its expression. -/
theorem chars_subset_of_ofExpression {expression : String} {ts : List Token}
    (h : ofExpression expression = .ok ts) {t : Token} (ht : t ∈ ts) :
    t.chars ⊆ expression.toList := by
  obtain ⟨lead, pieces, -, -, htext, rfl⟩ := scanAll_eq_ok_iff.mp (ofExpression_eq_ok_iff.mp h)
  obtain ⟨piece, hpiece, rfl⟩ := List.mem_map.mp ht
  intro c hc
  rw [htext]
  exact List.mem_append_right _ (chars_subset_spread hpiece hc)

end Token

/-! ## Values that are made -/

namespace Value

variable {op : Operator} {left right v : Value}

theorem oneLine_join {separator : String} (hseparator : Stylesheet.OneLine separator.toList)
    (hleft : left.OneLine) (hright : right.OneLine) (h : join separator left right = .ok v) :
    v.OneLine := by
  obtain ⟨l, hl, h⟩ := bind_eq_ok_iff.mp h
  obtain ⟨r, hr, h⟩ := bind_eq_ok_iff.mp h
  cases h
  rw [oneLine_text_iff, String.toList_append, String.toList_append]
  exact oneLine_append (oneLine_append (hleft l hl) hseparator) (hright r hr)

theorem numbers_ne_text {a b : Float} {unit unit' : Option String} {t : String} :
    numbers op a unit b unit' ≠ .ok (.text t) := by
  intro h
  unfold numbers at h
  split at h
  · split at h
    · obtain ⟨x, -, h⟩ := bind_eq_ok_iff.mp h
      cases h
    · cases h
  · obtain ⟨x, -, h⟩ := bind_eq_ok_iff.mp h
    cases h

/-- Only joining gives texts. -/
theorem oneLine_operate (hleft : left.Proper ∧ left.OneLine) (hright : right.Proper ∧ right.OneLine)
    (h : operate op left right = .ok v) : v.OneLine := by
  have hjoin : ∀ {separator : String}, Stylesheet.OneLine separator.toList →
      join separator left right = .ok v → v.OneLine :=
    fun hseparator h => oneLine_join hseparator hleft.2 hright.2 h
  -- a color in range is written without a line feed
  have hchannels : ∀ {c : Color} {red green blue : Float},
      channels op c red green blue = .ok v → v.OneLine := by
    intro c red green blue h
    obtain ⟨r, -, h⟩ := bind_eq_ok_iff.mp h
    obtain ⟨g, -, h⟩ := bind_eq_ok_iff.mp h
    obtain ⟨b, -, h⟩ := bind_eq_ok_iff.mp h
    cases h
    exact oneLine_of_proper ⟨channel_le r, channel_le g, channel_le b⟩ (by simp)
  have hcombine : combine op left right = .ok v → v.OneLine := by
    intro h
    unfold combine at h
    split at h
    · refine oneLine_of_proper (proper_numbers hleft.1 hright.1 h) fun t ht => ?_
      subst ht
      exact absurd h numbers_ne_text
    · exact hchannels h
    · exact hchannels h
    · split at h
      · exact hchannels h
      · exact hchannels h
      · exact absurd h undefined_ne_ok
    · split at h
      · exact hjoin (by decide) h
      · exact hjoin (by decide) h
      · exact hjoin (by decide) h
      · exact absurd h undefined_ne_ok
  unfold operate at h
  split at h
  · exact hjoin (by decide) h
  · exact hjoin (by decide) h
  · exact hcombine h

theorem oneLine_negate (hproper : v.Proper) (hv : v.OneLine) {w : Value} (h : v.negate = .ok w) :
    w.OneLine := by
  refine oneLine_of_proper (proper_negate hproper h) fun t ht => ?_
  subst ht
  have hminus : ∀ {text : String}, v.css = .ok text → Stylesheet.OneLine ("-" ++ text).toList := by
    intro text htext
    rw [String.toList_append]
    exact oneLine_append (by decide) (hv text htext)
  cases v with
  | number x unit => cases h
  | color c =>
      obtain ⟨text, htext, h⟩ := bind_eq_ok_iff.mp h
      cases h
      exact hminus htext
  | text t =>
      obtain ⟨text, htext, h⟩ := bind_eq_ok_iff.mp h
      cases h
      exact hminus htext

end Value

/-! ## Expressions -/

namespace Expr

variable {constants : Constants}

/-- Evaluation puts no line break into a value. -/
theorem oneLine_of_evaluate (hconstants : constants.All fun text => OneLine text.toList) {e : Expr}
    (hliterals : ∀ v ∈ e.literals, v.Proper ∧ v.OneLine) {v : Value}
    (h : e.evaluate constants = .ok v) : v.OneLine := by
  have hproper : ∀ {e : Expr}, (∀ v ∈ e.literals, v.Proper ∧ v.OneLine) → ∀ {v : Value},
      e.evaluate constants = .ok v → v.Proper :=
    fun hliterals _ h => proper_of_evaluate (fun w hw => (hliterals w hw).1) h
  induction e generalizing v with
  | literal w =>
      rw [Value.eq_of_finite h]
      exact (hliterals w List.mem_cons_self).2
  | constant name =>
      rw [evaluate] at h
      split at h
      · next text htext =>
          cases h
          -- constants are kept as texts and read anew where they are used
          exact Value.oneLine_ofString (hconstants name text htext)
      · cases h
  | negate operand ih =>
      obtain ⟨w, hw, h⟩ := bind_eq_ok_iff.mp h
      have hoperand : ∀ u ∈ operand.literals, u.Proper ∧ u.OneLine := hliterals
      exact Value.oneLine_negate (hproper hoperand hw) (ih hoperand hw) h
  | binary op left right ihleft ihright =>
      obtain ⟨l, hl, h⟩ := bind_eq_ok_iff.mp h
      obtain ⟨r, hr, h⟩ := bind_eq_ok_iff.mp h
      obtain ⟨w, hw, h⟩ := bind_eq_ok_iff.mp h
      have hleft : ∀ u ∈ left.literals, u.Proper ∧ u.OneLine := fun u hu =>
        hliterals u (List.mem_append_left _ hu)
      have hright : ∀ u ∈ right.literals, u.Proper ∧ u.OneLine := fun u hu =>
        hliterals u (List.mem_append_right _ hu)
      rw [Value.eq_of_finite h]
      exact Value.oneLine_operate ⟨hproper hleft hl, ihleft hleft hl⟩
        ⟨hproper hright hr, ihright hright hr⟩ hw

/-- **The value of an expression on one line** is written on one line. -/
theorem oneLine_cssOf (hconstants : constants.All fun text => OneLine text.toList)
    {expression css : String} (hexpression : OneLine expression.toList)
    (h : cssOf constants expression = .ok css) : OneLine css.toList := by
  obtain ⟨v, hv, hcss⟩ := bind_eq_ok_iff.mp h
  obtain ⟨e, hparse, hv⟩ := valueOf_eq_ok_iff.mp hv
  obtain ⟨ts, htokens, hderives⟩ := bind_eq_ok_iff.mp hparse
  refine oneLine_of_evaluate hconstants (fun w hw => ?_) hv css hcss
  obtain ⟨t, ht, hdenotes⟩ := (ofTokens_eq_ok_iff.mp hderives).exists_token w hw
  have hproper : w.Proper :=
    Token.forall_mem_of_ofExpression (fun _ _ _ => Token.proper_of_scan) htokens t ht w hdenotes
  have hchars : OneLine t.chars := hexpression.subset (Token.chars_subset_of_ofExpression htokens ht)
  exact ⟨hproper, Token.oneLine_of_denotes hchars hproper hdenotes⟩

end Expr

end Stylesheet
