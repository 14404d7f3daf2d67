import Mathlib
import Stylesheet.Proofs.Expr.Scanning
import Stylesheet.Proofs.Text.Blank

/-!
# Blanks between tokens

The tokens of an expression and the blanks after them make up its text. The blanks may be others,
and there may be blanks where there were none: the tokens are the same, and so are the expression
and its value. What cannot be taken away are the last blanks between two tokens.

* `Token.Cut` : a text that is cut into tokens and blanks.
* `Token.scanAll_eq_ok_iff` : the tokens of a text are those that it is cut into.
* `Token.Cut.respaced` : what is cut stays cut when blanks are put in.
* `tokens_respaced` : the tokens, the expression and the value of a text with other blanks.
-/

namespace Stylesheet

namespace Token

variable {t : Token} {ts : List Token} {cs rest gap lead : List Char}
  {pieces pieces' : List (Token × List Char)}

/-! ## Tokens and blanks -/

def spread : List (Token × List Char) → List Char
  | [] => []
  | (t, gap) :: pieces => t.chars ++ (gap ++ spread pieces)

/-- Tokens with blanks after them, each of which ends where it should. -/
inductive Cut : List (Token × List Char) → Prop
  | nil : Cut []
  | cons {t : Token} {gap : List Char} {pieces : List (Token × List Char)} : t.Valid →
      gap.all Text.isBlank = true → t.EndsBefore (gap ++ spread pieces) → Cut pieces →
      Cut ((t, gap) :: pieces)

/-! ## What can stand after a token -/

theorem isWordPart_of_isBlank {c : Char} (h : Text.isBlank c = true) : isWordPart c = false := by
  have hne : c ≠ '-' := by
    rintro rfl
    cases h
  rw [isWordPart, Text.isWord_of_isBlank h, beq_eq_false_iff_ne.mpr hne]
  rfl

theorem isWordStart_of_isBlank {c : Char} (h : Text.isBlank c = true) : isWordStart c = false := by
  have hne : c ≠ '_' := by
    rintro rfl
    cases h
  rw [isWordStart, Text.isAlpha_of_isBlank h, beq_eq_false_iff_ne.mpr hne]
  rfl

/-- No token goes on with a blank. -/
theorem goesOn_of_isBlank {c : Char} (h : Text.isBlank c = true) : t.goesOn c = false := by
  have hne : ∀ d : Char, Text.isBlank d = false → c ≠ d := by
    rintro d hd rfl
    rw [h] at hd
    cases hd
  cases t with
  | quoted q body => rfl
  | color digits => exact Text.isAlphanum_of_isBlank h
  | number whole fraction unit =>
      have hletter : Value.isUnitLetter c = false := Text.isAlpha_of_isBlank h
      cases unit with
      | none =>
          have hpercent : (c == '%') = false := beq_eq_false_iff_ne.mpr (hne _ (by decide))
          have hpoint : (c == '.') = false := beq_eq_false_iff_ne.mpr (hne _ (by decide))
          rw [goesOn, Text.isDigit_of_isBlank h, hletter, hpercent, hpoint, Bool.and_false]
          rfl
      | some u => rw [goesOn, hletter, Bool.and_false]
  | constant name => exact Text.isWord_of_isBlank h
  | call w argument => rfl
  | word w => exact isWordPart_of_isBlank h
  | mark m =>
      cases m with
      | minus => exact isWordStart_of_isBlank h
      | _ => rfl

theorem endsBefore_of_isBlank (h : ∀ c ∈ rest.head?, Text.isBlank c = true) :
    t.EndsBefore rest where
  stops c hc := goesOn_of_isBlank (h c hc)
  uncalled _ _ hopening := by cases h '(' hopening

theorem endsBefore_of_gap (hgap : gap.all Text.isBlank = true) (hne : gap ≠ []) :
    t.EndsBefore (gap ++ rest) := by
  refine endsBefore_of_isBlank fun c hc => ?_
  rw [List.head?_append_of_ne_nil _ hne] at hc
  exact List.all_eq_true.mp hgap c (List.mem_of_mem_head? hc)

/-- Only the next character counts, and the parentheses that are closed later. -/
theorem EndsBefore.congr {rest' : List Char} (h : t.EndsBefore rest)
    (hhead : rest'.head? = rest.head?) (hclosing : ')' ∈ rest' → ')' ∈ rest) :
    t.EndsBefore rest' where
  stops c hc := h.stops c (hhead ▸ hc)
  uncalled w hw hopening hmem := h.uncalled w hw (hhead ▸ hopening) (hclosing hmem)

/-! ## Scanning what is cut -/

/-- A token starts with a character that is not blank. -/
theorem Valid.exists_head (h : t.Valid) :
    ∃ c cs, t.chars = c :: cs ∧ Text.isBlank c = false := by
  cases t with
  | quoted q body =>
      obtain ⟨rfl | rfl, -⟩ := h
      · exact ⟨_, _, rfl, by decide⟩
      · exact ⟨_, _, rfl, by decide⟩
  | color digits => exact ⟨_, _, rfl, by decide⟩
  | number whole fraction unit =>
      obtain ⟨c, cs, hchars, hc⟩ := exists_head_of_number h
      refine ⟨c, cs, hchars, Bool.eq_false_iff.mpr fun hblank => ?_⟩
      rcases hc with hdigit | rfl
      · rw [Text.isDigit_of_isBlank hblank] at hdigit
        cases hdigit
      · cases hblank
  | constant name => exact ⟨_, _, rfl, by decide⟩
  | call w argument =>
      obtain ⟨c, cs, rfl, hc⟩ := h.1.exists_head
      refine ⟨c, _, rfl, Bool.eq_false_iff.mpr fun hblank => ?_⟩
      rcases hc with hstart | rfl
      · rw [isWordStart_of_isBlank hblank] at hstart
        cases hstart
      · cases hblank
  | word w =>
      obtain ⟨c, cs, rfl, hc⟩ := IsWordText.exists_head h
      refine ⟨c, _, rfl, Bool.eq_false_iff.mpr fun hblank => ?_⟩
      rcases hc with hstart | rfl
      · rw [isWordStart_of_isBlank hblank] at hstart
        cases hstart
      · cases hblank
  | mark m => exact ⟨_, _, rfl, by cases m <;> decide⟩

/-- Blanks in front of an expression do not matter. -/
theorem scanAll_append_of_isBlank (hlead : lead.all Text.isBlank = true) (cs : List Char) :
    scanAll (lead ++ cs) = scanAll cs := by
  induction lead with
  | nil => rfl
  | cons c lead ih =>
      rw [List.all_cons, Bool.and_eq_true] at hlead
      rw [List.cons_append, scanAll, if_pos hlead.1, ih hlead.2]

/-- A valid token that ends where it should is scanned first. -/
theorem scanAll_append_of_valid (hvalid : t.Valid) (hends : t.EndsBefore rest) :
    scanAll (t.chars ++ rest) = (scanAll rest).map (t :: ·) := by
  have hscan := scan?_eq_some_iff.mpr ⟨rfl, hvalid, hends⟩
  obtain ⟨c, cs, hchars, hc⟩ := hvalid.exists_head
  rw [hchars, List.cons_append] at hscan ⊢
  rw [scanAll, if_neg (by simp [hc])]
  split
  · next hnone =>
      rw [hscan] at hnone
      cases hnone
  · next hsome =>
      rw [hscan] at hsome
      cases hsome
      rfl

/-- The pieces of a cut are scanned back in order. -/
theorem Cut.scanAll_eq (h : Cut pieces) : scanAll (spread pieces) = .ok (pieces.map Prod.fst) := by
  induction h with
  | nil =>
      rw [spread, scanAll]
      rfl
  | @cons t gap pieces hvalid hgap hends _ ih =>
      rw [spread, scanAll_append_of_valid hvalid hends, scanAll_append_of_isBlank hgap, ih]
      rfl

/-- A text that has tokens is cut into them. The induction is on the scanner's own recursion: what
is blank goes to the gap before it. -/
theorem exists_cut_of_scanAll (cs : List Char) :
    ∀ ts, scanAll cs = .ok ts → ∃ lead pieces, lead.all Text.isBlank = true ∧ Cut pieces ∧
      cs = lead ++ spread pieces ∧ ts = pieces.map Prod.fst := by
  induction cs using scanAll.induct with
  | case1 =>
      intro ts h
      rw [scanAll] at h
      cases h
      exact ⟨[], [], rfl, .nil, rfl, rfl⟩
  | case2 c rest hblank ih =>
      intro ts h
      rw [scanAll, if_pos hblank] at h
      obtain ⟨lead, pieces, hlead, hcut, rfl, rfl⟩ := ih ts h
      exact ⟨c :: lead, pieces, by rw [List.all_cons, hblank, hlead]; rfl, hcut, rfl, rfl⟩
  | case3 c rest hblank hnone =>
      -- where no token starts, the text has none
      intro ts h
      rw [scanAll, if_neg hblank] at h
      split at h
      · cases h
      · next hsome =>
          rw [hnone] at hsome
          cases hsome
  | case4 c rest hblank t after hscan ih =>
      intro ts h
      obtain ⟨hcs, hvalid, hends⟩ := scan?_eq_some_iff.mp hscan
      rw [hcs, scanAll_append_of_valid hvalid hends] at h
      cases hafter : scanAll after with
      | error bad =>
          rw [hafter] at h
          cases h
      | ok more =>
          rw [hafter] at h
          cases h
          obtain ⟨gap, pieces, hgap, hcut, rfl, rfl⟩ := ih more hafter
          exact ⟨[], (t, gap) :: pieces, rfl, .cons hvalid hgap hends hcut, hcs, rfl⟩

theorem Cut.forall_isBlank (h : Cut pieces) :
    ∀ piece ∈ pieces, piece.2.all Text.isBlank = true := by
  induction h with
  | nil => exact nofun
  | cons _ hgap _ _ ih => exact List.forall_mem_cons.mpr ⟨hgap, ih⟩

/-- The tokens of a text are those that it can be cut into, after the blanks at its start. -/
theorem scanAll_eq_ok_iff :
    scanAll cs = .ok ts ↔ ∃ lead pieces, lead.all Text.isBlank = true ∧ Cut pieces ∧
      cs = lead ++ spread pieces ∧ ts = pieces.map Prod.fst := by
  constructor
  · exact exists_cut_of_scanAll cs ts
  · rintro ⟨lead, pieces, hlead, hcut, rfl, rfl⟩
    rw [scanAll_append_of_isBlank hlead, hcut.scanAll_eq]

theorem ofExpression_eq_ok_iff {expression : String} :
    ofExpression expression = .ok ts ↔ scanAll expression.toList = .ok ts := by
  unfold ofExpression
  exact mapError_eq_ok_iff

/-! ## Other blanks -/

/-- The same tokens with other blanks after them. Two tokens that stand apart stay apart; what
stands after the last token does not matter. -/
inductive Respaced : List (Token × List Char) → List (Token × List Char) → Prop
  | nil : Respaced [] []
  | cons {t : Token} {gap gap' : List Char} {pieces pieces' : List (Token × List Char)} :
      gap'.all Text.isBlank = true → (gap' = [] → gap = [] ∨ pieces = []) →
      Respaced pieces pieces' → Respaced ((t, gap) :: pieces) ((t, gap') :: pieces')

theorem Respaced.map_fst (h : Respaced pieces pieces') :
    pieces'.map Prod.fst = pieces.map Prod.fst := by
  induction h with
  | nil => rfl
  | cons _ _ _ ih => rw [List.map_cons, List.map_cons, ih]

/-- No closing parenthesis is put in. -/
theorem Respaced.closing_mem (h : Respaced pieces pieces') (hmem : ')' ∈ spread pieces') :
    ')' ∈ spread pieces := by
  induction h with
  | nil => exact hmem
  | @cons t gap gap' pieces pieces' hgap' _ _ ih =>
      rcases List.mem_append.mp hmem with htoken | hmem
      · exact List.mem_append_left _ htoken
      · rcases List.mem_append.mp hmem with hblank | hmem
        · cases List.all_eq_true.mp hgap' _ hblank
        · exact List.mem_append_right _ (List.mem_append_right _ (ih hmem))

/-- The text starts as it did. -/
theorem Respaced.head?_spread (h : Respaced pieces pieces') (hcut : Cut pieces) :
    (spread pieces').head? = (spread pieces).head? := by
  cases h with
  | nil => rfl
  | cons =>
      cases hcut with
      | cons hvalid =>
          obtain ⟨c, cs, hchars, -⟩ := hvalid.exists_head
          rw [spread, spread, hchars]
          rfl

/-- What is cut stays cut. -/
theorem Cut.respaced (hcut : Cut pieces) (h : Respaced pieces pieces') : Cut pieces' := by
  induction h with
  | nil => exact .nil
  | @cons t gap gap' pieces pieces' hgap' happart hrest ih =>
      cases hcut with
      | cons hvalid hgap hends hcut =>
          refine .cons hvalid hgap' ?_ (ih hcut)
          by_cases hempty : gap' = []
          · subst hempty
            -- the next token stood beside this one already, or there is none
            rcases happart rfl with rfl | rfl
            · exact hends.congr (hrest.head?_spread hcut) hrest.closing_mem
            · cases hrest
              exact endsBefore_of_isBlank nofun
          · exact endsBefore_of_gap hgap' hempty

/-- Tokens that all stand apart, with any blanks between them. -/
structure Apart (pieces : List (Token × List Char)) : Prop where
  blank : ∀ piece ∈ pieces, piece.2.all Text.isBlank = true
  ne_nil : ∀ piece ∈ pieces.dropLast, piece.2 ≠ []

theorem apart_cons {piece next : Token × List Char} (hblank : piece.2.all Text.isBlank = true)
    (hne : piece.2 ≠ []) (h : Apart (next :: pieces)) : Apart (piece :: next :: pieces) where
  blank := List.forall_mem_cons.mpr ⟨hblank, h.blank⟩
  ne_nil := List.forall_mem_cons.mpr ⟨hne, h.ne_nil⟩

/-- Tokens that stand apart are a respacing of the same tokens however these stood. -/
theorem Apart.respaced (h : Apart pieces') (htokens : pieces'.map Prod.fst = pieces.map Prod.fst) :
    Respaced pieces pieces' := by
  induction pieces' generalizing pieces with
  | nil =>
      obtain rfl := List.map_eq_nil_iff.mp htokens.symm
      exact .nil
  | cons piece' later' ih =>
      cases pieces with
      | nil => cases htokens
      | cons piece later =>
          obtain ⟨t, gap⟩ := piece
          obtain ⟨t', gap'⟩ := piece'
          obtain ⟨rfl, hlater⟩ : t' = t ∧ later'.map Prod.fst = later.map Prod.fst :=
            List.cons.inj htokens
          obtain ⟨hgap', hblank⟩ := List.forall_mem_cons.mp h.blank
          cases later' with
          | nil =>
              obtain rfl := List.map_eq_nil_iff.mp hlater.symm
              exact .cons hgap' (fun _ => .inr rfl) .nil
          | cons next later' =>
              obtain ⟨hne, hapart⟩ := List.forall_mem_cons.mp h.ne_nil
              exact .cons hgap' (fun hempty => absurd hempty hne) (ih ⟨hblank, hapart⟩ hlater)

/-- One space between any two tokens sets them apart. -/
theorem exists_apart_spaced (ts : List Token) :
    ∃ pieces, pieces.map Prod.fst = ts ∧ Apart pieces ∧
      spread pieces = [' '].intercalate (ts.map chars) := by
  induction ts with
  | nil => exact ⟨[], rfl, ⟨nofun, nofun⟩, rfl⟩
  | cons t ts ih =>
      obtain ⟨pieces, rfl, hapart, hspread⟩ := ih
      cases pieces with
      | nil => exact ⟨[(t, [])], rfl, ⟨by simp, by simp⟩, by simp [spread]⟩
      | cons next pieces =>
          refine ⟨(t, [' ']) :: next :: pieces, rfl, apart_cons rfl (by simp) hapart, ?_⟩
          rw [spread, hspread, ← List.append_assoc]
          exact List.intercalate_cons_cons.symm

end Token

/-! ## Expressions and values -/

/-- What tokens make up does not depend on the text that they come from; the text is only quoted
where a token is refused after a whole expression. -/
theorem Expr.ofTokens_congr (expression other : String) (ts : List Token) :
    ofTokens other ts = ofTokens expression ts ∨
      ∃ t, ofTokens expression ts = .error (.unexpectedToken t expression) ∧
        ofTokens other ts = .error (.unexpectedToken t other) := by
  unfold ofTokens
  split
  · exact .inl rfl
  · rcases chain .list ts with fault | ⟨e, rest, hrest⟩
    · exact .inl rfl
    · cases rest with
      | nil => exact .inl rfl
      | cons t rest => exact .inr ⟨t.text, rfl, rfl⟩

/-- A text is read as the same tokens as another one. They make up the same expression, and that has
the same value over all constants; or a token is refused in both texts. -/
structure ReadAlike (expression other : String) (ts : List Token) : Prop where
  tokens : Token.ofExpression other = .ok ts
  value : (Expr.parse other = Expr.parse expression ∧ ∀ constants,
      Expr.valueOf constants other = Expr.valueOf constants expression ∧
      Expr.cssOf constants other = Expr.cssOf constants expression) ∨
    ∃ t, Expr.parse expression = .error (.unexpectedToken t expression) ∧
      Expr.parse other = .error (.unexpectedToken t other)

/-- Expressions of the same tokens are read alike. -/
theorem readAlike_of_ofExpression {expression other : String} {ts : List Token}
    (h : Token.ofExpression expression = .ok ts) (hother : Token.ofExpression other = .ok ts) :
    ReadAlike expression other ts := by
  refine ⟨hother, ?_⟩
  rcases Expr.ofTokens_congr expression other ts with heq | ⟨t, hrefused, hother'⟩
  · have hparse : Expr.parse other = Expr.parse expression := by
      rw [parse_of_ofExpression h, parse_of_ofExpression hother, heq]
    have hvalue : ∀ constants, Expr.valueOf constants other = Expr.valueOf constants expression :=
      fun constants => by rw [Expr.valueOf, Expr.valueOf, hparse]
    exact .inl ⟨hparse, fun constants =>
      ⟨hvalue constants, by rw [Expr.cssOf, Expr.cssOf, hvalue constants]⟩⟩
  · exact .inr ⟨t, (parse_of_ofExpression h).trans hrefused,
      (parse_of_ofExpression hother).trans hother'⟩

/-- A text that has tokens is made up of them and of blanks. The text is read alike when the blanks
are others, as long as no two tokens are moved together that stood apart; and it is read alike when
its tokens are set apart by any blanks, such as one space between any two of them. -/
theorem tokens_respaced {expression : String} {ts : List Token}
    (h : Token.ofExpression expression = .ok ts) :
    ∃ lead pieces, expression.toList = lead ++ Token.spread pieces ∧ pieces.map Prod.fst = ts ∧
      lead.all Text.isBlank = true ∧ (∀ piece ∈ pieces, piece.2.all Text.isBlank = true) ∧
      (∀ lead' pieces', lead'.all Text.isBlank = true → Token.Respaced pieces pieces' →
        ReadAlike expression (String.ofList (lead' ++ Token.spread pieces')) ts) ∧
      (∀ lead' pieces', lead'.all Text.isBlank = true → Token.Apart pieces' →
        pieces'.map Prod.fst = ts →
        ReadAlike expression (String.ofList (lead' ++ Token.spread pieces')) ts) ∧
      ReadAlike expression (" ".intercalate (ts.map Token.text)) ts := by
  obtain ⟨lead, pieces, hlead, hcut, htext, rfl⟩ :=
    Token.scanAll_eq_ok_iff.mp (Token.ofExpression_eq_ok_iff.mp h)
  -- other blanks leave the tokens as they are, and only the tokens are read
  have hrespaced : ∀ {other : String} {lead' pieces'}, other.toList = lead' ++ Token.spread pieces' →
      lead'.all Text.isBlank = true → Token.Respaced pieces pieces' →
      ReadAlike expression other (pieces.map Prod.fst) := by
    intro other lead' pieces' hother hlead' hrespaced
    refine readAlike_of_ofExpression h (Token.ofExpression_eq_ok_iff.mpr ?_)
    rw [hother, ← hrespaced.map_fst]
    exact Token.scanAll_eq_ok_iff.mpr ⟨lead', pieces', hlead', hcut.respaced hrespaced, rfl, rfl⟩
  refine ⟨lead, pieces, htext, rfl, hlead, hcut.forall_isBlank, ?others, ?apart, ?spaces⟩
  case others =>
    exact fun lead' pieces' hlead' h' => hrespaced String.toList_ofList hlead' h'
  case apart =>
    exact fun lead' pieces' hlead' hapart htokens =>
      hrespaced String.toList_ofList hlead' (hapart.respaced htokens)
  case spaces =>
    obtain ⟨pieces', htokens, hapart, hspread⟩ := Token.exists_apart_spaced (pieces.map Prod.fst)
    have htext' : (" ".intercalate ((pieces.map Prod.fst).map Token.text)).toList =
        [] ++ Token.spread pieces' := by
      rw [String.toList_intercalate, List.map_map, List.nil_append, hspread]
      congr 2
      exact funext fun t => String.toList_ofList
    exact hrespaced htext' rfl (hapart.respaced htokens)

/-- Tokens that stand together without a blank: a unit before a word with a hyphen, a percent sign
that is a unit before one that is not, and a call before a color. -/
theorem tokens_respaced_of_adjacent :
    Token.ofExpression "(5px-a.5%)%b(1)#abc-!c" = .ok
      [.mark .opening, .number ['5'] none (some ['p', 'x']), .word ['-', 'a'],
        .number [] (some ['5']) (some ['%']), .mark .closing, .mark .modulo, .call ['b'] ['1'],
        .color ['a', 'b', 'c'], .mark .minus, .constant ['c']] ∧
    ReadAlike "(5px-a.5%)%b(1)#abc-!c" "( 5px -a .5% ) % b(1) #abc - !c"
      [.mark .opening, .number ['5'] none (some ['p', 'x']), .word ['-', 'a'],
        .number [] (some ['5']) (some ['%']), .mark .closing, .mark .modulo, .call ['b'] ['1'],
        .color ['a', 'b', 'c'], .mark .minus, .constant ['c']] := by
  have htokens : Token.ofExpression "(5px-a.5%)%b(1)#abc-!c" = .ok
      [.mark .opening, .number ['5'] none (some ['p', 'x']), .word ['-', 'a'],
        .number [] (some ['5']) (some ['%']), .mark .closing, .mark .modulo, .call ['b'] ['1'],
        .color ['a', 'b', 'c'], .mark .minus, .constant ['c']] := by
    cbv
  obtain ⟨_, _, _, _, _, _, _, _, hspaces⟩ := tokens_respaced htokens
  exact ⟨htokens, hspaces⟩

end Stylesheet
