import Mathlib
import Stylesheet.Proofs.Expr.Numerals
import Stylesheet.Proofs.Expr.References

/-!
# Which tokens are scanned

At each place of an expression one of six scanners takes a token, and the first of them that fits is
the one that counts. What comes out can be said without the scanners and their order: a token is
taken if the text starts with its characters, if they are characters that such a token can have, and
if what follows does not continue the token.

* `Token.Valid` : the characters that a token can have.
* `Token.EndsBefore` : what can follow a token.
* `sound_of_scanQuoted?`, `scanQuoted?_eq_some` and their likes : each scanner by itself.
* `Token.scan?_eq_some_iff` : all scanners together.

That no earlier scanner fits is seen from the first character, but for a minus sign: it is a mark or
the start of a word by what follows it.
-/

namespace Stylesheet

namespace Text

theorem isAlphanum_of_isHexDigit {c : Char} (h : isHexDigit c = true) : c.isAlphanum = true := by
  unfold isHexDigit hexValue? at h
  simp only [Char.isAlphanum, Char.isAlpha, Char.isUpper, Char.isLower, Char.isDigit,
    Bool.or_eq_true, Bool.and_eq_true, decide_eq_true_eq, ge_iff_le]
  split at h
  · next hdigit => exact .inr hdigit
  · split at h
    · next hlower => exact .inl (.inr ⟨hlower.1, UInt32.le_trans hlower.2 (by decide)⟩)
    · split at h
      · next hupper => exact .inl (.inl ⟨hupper.1, UInt32.le_trans hupper.2 (by decide)⟩)
      · cases h

end Text

/-- A mark is recognized by its character. -/
theorem Mark.ofChar?_eq_some_iff {c : Char} {m : Mark} : Mark.ofChar? c = some m ↔ c = m.char := by
  constructor
  · intro h
    unfold Mark.ofChar? at h
    split at h <;> cases h <;> rfl
  · rintro rfl
    cases m <;> rfl

namespace Token

/-! ## What is scanned -/

/-- What can be written as a word, perhaps with a hyphen before it. -/
inductive IsWordText : List Char → Prop
  | plain {c : Char} {cs : List Char} : isWordStart c = true → (∀ d ∈ cs, isWordPart d = true) →
      IsWordText (c :: cs)
  | hyphen {c : Char} {cs : List Char} : isWordStart c = true → (∀ d ∈ cs, isWordPart d = true) →
      IsWordText ('-' :: c :: cs)

/-- A token has characters that a token of its kind can have. -/
def Valid : Token → Prop
  | quoted q body => (q = '"' ∨ q = '\'') ∧ q ∉ body
  | color digits =>
    (∀ c ∈ digits, Text.isHexDigit c = true) ∧ (digits.length = 3 ∨ digits.length = 6)
  | number whole fraction unit =>
    (∀ c ∈ whole ++ fraction.getD [], Text.isDigit c = true) ∧ whole ++ fraction.getD [] ≠ [] ∧
      ∀ u ∈ unit, IsUnitText u
  | constant name => IsConstantName name
  | call w argument => IsWordText w ∧ ')' ∉ argument
  | word w => IsWordText w
  | mark _ => True

/-- Whether a character after a token would belong to it. -/
def goesOn : Token → Char → Bool
  | color _, c => c.isAlphanum
  | number _ fraction none, c =>
    Text.isDigit c || Value.isUnitLetter c || c == '%' || (fraction.isNone && c == '.')
  | number _ _ (some unit), c => unit != ['%'] && Value.isUnitLetter c
  | constant _, c => Text.isWord c
  | word _, c => isWordPart c
  | mark .minus, c => isWordStart c
  | _, _ => false

/-- A token ends before a text: the next character does not belong to it, and no parentheses after
it make it a call. -/
structure EndsBefore (t : Token) (rest : List Char) : Prop where
  stops : ∀ c ∈ rest.head?, t.goesOn c = false
  uncalled : ∀ w, t = word w → rest.head? = some '(' → ')' ∉ rest

variable {cs rest : List Char} {t : Token}

/-- Any token but a word ends before a character that does not continue it. -/
theorem endsBefore_of_stops (hword : ∀ w, t ≠ word w)
    (h : ∀ c ∈ rest.head?, t.goesOn c = false) : t.EndsBefore rest :=
  ⟨h, fun w hw => absurd hw (hword w)⟩

/-! ## Quoted texts -/

/-- A scanned quoted text is written as it stood, and is valid. -/
theorem sound_of_scanQuoted? (h : scanQuoted? cs = some (t, rest)) :
    cs = t.chars ++ rest ∧ t.Valid ∧ t.EndsBefore rest := by
  unfold scanQuoted? at h
  split at h
  · next q cs =>
      split at h
      · next hq =>
          split at h
          · next c after hafter =>
              cases h
              have hcut := List.takeWhile_append_dropWhile (p := (· != q)) (l := cs)
              have hrun := isRun_takeWhile (· != q) cs
              rw [hafter] at hcut hrun
              obtain rfl : c = q := by simpa using hrun.stops c rfl
              refine ⟨by simpa [chars] using hcut.symm, ⟨hq, fun hmem => ?_⟩,
                endsBefore_of_stops nofun fun _ _ => rfl⟩
              simpa using hrun.all c hmem
          · cases h
      · cases h
  · cases h

/-- A valid quoted text is scanned back, whatever follows it. -/
theorem scanQuoted?_eq_some {q : Char} {body : List Char} (h : (quoted q body).Valid)
    (rest : List Char) :
    scanQuoted? ((quoted q body).chars ++ rest) = some (quoted q body, rest) := by
  have hrun : IsRun (· != q) body (q :: rest) := by
    refine ⟨fun c hc => bne_iff_ne.mpr fun hq => h.2 (hq ▸ hc), fun c hc => ?_⟩
    cases hc
    exact bne_self_eq_false q
  have hchars : (quoted q body).chars ++ rest = q :: (body ++ q :: rest) := by simp [chars]
  rw [hchars, scanQuoted?, if_pos h.1, hrun.takeWhile_eq, hrun.dropWhile_eq]

theorem scanQuoted?_eq_none {c : Char} (h : c ≠ '"' ∧ c ≠ '\'') (cs : List Char) :
    scanQuoted? (c :: cs) = none :=
  if_neg (not_or.mpr h)

/-! ## Colors -/

/-- A scanned color is written as it stood, is valid and ends there. -/
theorem sound_of_scanColor? (h : scanColor? cs = some (t, rest)) :
    cs = t.chars ++ rest ∧ t.Valid ∧ t.EndsBefore rest := by
  unfold scanColor? at h
  split at h
  · next cs =>
      dsimp only at h
      split at h
      · next hdigits =>
          cases h
          simp only [Bool.and_eq_true, List.all_eq_true, Bool.or_eq_true, beq_iff_eq] at hdigits
          refine ⟨?_, hdigits, endsBefore_of_stops nofun (isRun_takeWhile _ cs).stops⟩
          rw [chars, List.cons_append, List.takeWhile_append_dropWhile]
      · cases h
  · cases h

theorem scanColor?_eq_some {digits : List Char} (h : (color digits).Valid)
    (hends : (color digits).EndsBefore rest) :
    scanColor? ((color digits).chars ++ rest) = some (color digits, rest) := by
  have hrun : IsRun Char.isAlphanum digits rest :=
    ⟨fun c hc => Text.isAlphanum_of_isHexDigit (h.1 c hc), hends.stops⟩
  have hdigits :
      (digits.all Text.isHexDigit && (digits.length == 3 || digits.length == 6)) = true := by
    simp only [Bool.and_eq_true, List.all_eq_true, Bool.or_eq_true, beq_iff_eq]
    exact h
  rw [chars, List.cons_append, scanColor?, hrun.takeWhile_eq, hrun.dropWhile_eq]
  exact if_pos hdigits

theorem scanColor?_eq_none {c : Char} (h : c ≠ '#') (cs : List Char) :
    scanColor? (c :: cs) = none := by
  unfold scanColor?
  split
  · next hc => exact absurd (List.cons.inj hc).1 h
  · rfl

/-! ## Numbers -/

/-- A scanned numeral is written as it stood and has a digit. -/
theorem sound_of_scanNumeral? {whole : List Char} {fraction : Option (List Char)}
    (h : Value.scanNumeral? cs = some (whole, fraction, rest)) :
    cs = (number whole fraction none).chars ++ rest ∧
      (∀ c ∈ whole ++ fraction.getD [], Text.isDigit c = true) ∧ whole ++ fraction.getD [] ≠ [] ∧
      ∀ c ∈ rest.head?, Text.isDigit c = false ∧ (fraction = none → c ≠ '.') := by
  have hcut := List.takeWhile_append_dropWhile (p := Text.isDigit) (l := cs)
  have hrun := isRun_takeWhile Text.isDigit cs
  unfold Value.scanNumeral? at h
  dsimp only at h
  split at h
  · next after hafter =>
      split at h
      · cases h
      · next hne =>
          cases h
          -- a point, and the places after it
          have hplaces := isRun_takeWhile Text.isDigit after
          rw [hafter] at hcut
          refine ⟨hcut.symm.trans (by simp [chars]), List.forall_mem_append.mpr
            ⟨hrun.all, hplaces.all⟩, by simpa using hne, fun c hc => ⟨hplaces.stops c hc, nofun⟩⟩
  · next hpoint =>
      split at h
      · cases h
      · next hne =>
          cases h
          refine ⟨hcut.symm.trans (by simp [chars]), by simpa using hrun.all, by simpa using hne,
            fun c hc => ⟨hrun.stops c hc, ?_⟩⟩
          -- a point after the digits would have been taken with them
          rintro - rfl
          obtain ⟨after, hafter⟩ := List.head?_eq_some_iff.mp hc
          exact hpoint after hafter

theorem sound_of_scanUnit {unit : Option (List Char)} (h : Value.scanUnit cs = (unit, rest)) :
    cs = unit.getD [] ++ rest ∧ (∀ u ∈ unit, IsUnitText u) ∧
      ∀ c ∈ rest.head?, match unit with
        | none => Value.isUnitLetter c = false ∧ c ≠ '%'
        | some u => u ≠ ['%'] → Value.isUnitLetter c = false := by
  have hcut := List.takeWhile_append_dropWhile (p := Value.isUnitLetter) (l := cs)
  have hrun := isRun_takeWhile Value.isUnitLetter cs
  have hunit : ∀ u ∈ unit, IsUnitText u := by
    rintro u rfl
    exact Value.isUnitText_of_scanUnit h
  unfold Value.scanUnit at h
  split at h
  · cases h
    exact ⟨rfl, hunit, fun c hc hne => absurd rfl hne⟩
  · next hpercent =>
      dsimp only at h
      split at h
      · next hempty =>
          cases h
          rw [List.isEmpty_iff.mp hempty] at hcut
          refine ⟨rfl, hunit, fun c hc => ⟨hrun.stops c (by rwa [← hcut] at hc), ?_⟩⟩
          -- a percent sign would have been the unit
          rintro rfl
          obtain ⟨after, hafter⟩ := List.head?_eq_some_iff.mp hc
          exact hpercent after hafter
      · cases h
        exact ⟨hcut.symm, hunit, fun c hc _ => hrun.stops c hc⟩

/-- A scanned number is written as it stood, is valid and ends there. -/
theorem sound_of_scanNumber? (h : scanNumber? cs = some (t, rest)) :
    cs = t.chars ++ rest ∧ t.Valid ∧ t.EndsBefore rest := by
  obtain ⟨⟨whole, fraction, after⟩, hnumeral, h⟩ := Option.map_eq_some_iff.mp h
  obtain ⟨hcs, hdigits, hne, hpoint⟩ := sound_of_scanNumeral? hnumeral
  cases hscan : Value.scanUnit after with
  | mk unit left =>
      dsimp only at h
      rw [hscan] at h
      cases h
      obtain ⟨rfl, hunit, hstops⟩ := sound_of_scanUnit hscan
      refine ⟨by simpa [chars] using hcs, ⟨hdigits, hne, hunit⟩,
        endsBefore_of_stops nofun fun c hc => ?_⟩
      cases unit with
      | none =>
          obtain ⟨hdigit, hdot⟩ := hpoint c hc
          obtain ⟨hletter, hpercent⟩ := hstops c hc
          cases fraction <;> simp_all [goesOn]
      | some u =>
          have := hstops c hc
          simp only [goesOn, Bool.and_eq_false_iff, bne_eq_false_iff_eq]
          exact or_iff_not_imp_left.mpr this

/-- What follows the digits of a number does not continue them. -/
theorem stops_of_number {whole : List Char} {fraction unit : Option (List Char)}
    (hunit : ∀ u ∈ unit, IsUnitText u) (hends : (number whole fraction unit).EndsBefore rest) :
    ∀ c ∈ (unit.getD [] ++ rest).head?,
      Text.isDigit c = false ∧ (fraction = none → c ≠ '.') := by
  intro c hc
  cases unit with
  | none =>
      have hstops := hends.stops c hc
      simp only [goesOn, Bool.or_eq_false_iff, Bool.and_eq_false_iff] at hstops
      refine ⟨hstops.1.1.1, fun hfraction => ?_⟩
      simpa [hfraction] using hstops.2
  | some u =>
      have hu := hunit u rfl
      have hne : u ≠ [] := by
        rcases hu with rfl | ⟨hne, -⟩
        · simp
        · exact hne
      rw [Option.getD_some, List.head?_append_of_ne_nil _ hne] at hc
      exact ⟨(Value.head_of_isUnitText hu hc).1, fun _ => (Value.head_of_isUnitText hu hc).2⟩

theorem scanUnit_eq {whole : List Char} {fraction unit : Option (List Char)}
    (hunit : ∀ u ∈ unit, IsUnitText u) (hends : (number whole fraction unit).EndsBefore rest) :
    Value.scanUnit (unit.getD [] ++ rest) = (unit, rest) := by
  cases unit with
  | none =>
      refine Value.scanUnit_of_stops fun c hc => ?_
      have hstops := hends.stops c hc
      simp only [goesOn, Bool.or_eq_false_iff, beq_eq_false_iff_ne] at hstops
      exact ⟨hstops.1.1.2, hstops.1.2⟩
  | some u =>
      refine Value.scanUnit_append (hunit u rfl) fun hne c hc => ?_
      have hstops := hends.stops c hc
      simp only [goesOn, Bool.and_eq_false_iff, bne_eq_false_iff_eq] at hstops
      exact hstops.resolve_left hne

theorem scanNumber?_eq_some {whole : List Char} {fraction unit : Option (List Char)}
    (h : (number whole fraction unit).Valid) (hends : (number whole fraction unit).EndsBefore rest) :
    scanNumber? ((number whole fraction unit).chars ++ rest) =
      some (number whole fraction unit, rest) := by
  obtain ⟨hdigits, hne, hunit⟩ := h
  have hstops := stops_of_number hunit hends
  have hnumeral : Value.scanNumeral? ((number whole fraction unit).chars ++ rest) =
      some (whole, fraction, unit.getD [] ++ rest) := by
    cases fraction with
    | none =>
        have hwhole : IsRun Text.isDigit whole (unit.getD [] ++ rest) :=
          ⟨by simpa using hdigits, fun c hc => (hstops c hc).1⟩
        have hscan := Value.scanNumeral?_whole hwhole (by simpa using hne)
          fun hpoint => (hstops '.' hpoint).2 rfl rfl
        simpa [chars] using hscan
    | some places =>
        obtain ⟨hwhole, hplaces⟩ := List.forall_mem_append.mp hdigits
        have hscan := Value.scanNumeral?_point hwhole
          ⟨hplaces, fun c hc => (hstops c hc).1⟩ hne
        simpa [chars] using hscan
  rw [scanNumber?, hnumeral, Option.map_some]
  dsimp only
  rw [scanUnit_eq hunit hends]

theorem scanNumber?_eq_none {c : Char} (hdigit : Text.isDigit c = false) (hpoint : c ≠ '.')
    (cs : List Char) : scanNumber? (c :: cs) = none := by
  have hnumeral : Value.scanNumeral? (c :: cs) = none := by
    unfold Value.scanNumeral?
    rw [List.dropWhile_cons_of_neg (by simp [hdigit]), List.takeWhile_cons_of_neg (by simp [hdigit])]
    split
    · next hc => exact absurd (List.cons.inj hc).1 hpoint
    · rfl
  rw [scanNumber?, hnumeral]
  rfl

/-- A number starts with a digit or a point. -/
theorem exists_head_of_number {whole : List Char} {fraction unit : Option (List Char)}
    (h : (number whole fraction unit).Valid) :
    ∃ c cs, (number whole fraction unit).chars = c :: cs ∧ (Text.isDigit c = true ∨ c = '.') := by
  obtain ⟨hdigits, hne, -⟩ := h
  cases whole with
  | cons c whole => exact ⟨c, _, rfl, .inl (hdigits c List.mem_cons_self)⟩
  | nil =>
      cases fraction with
      | none => exact absurd rfl hne
      | some places => exact ⟨'.', _, rfl, .inr rfl⟩

/-! ## Names of constants -/

/-- A scanned reference is written as it stood, is valid and ends there. -/
theorem sound_of_scanConstant? (h : scanConstant? cs = some (t, rest)) :
    cs = t.chars ++ rest ∧ t.Valid ∧ t.EndsBefore rest := by
  unfold scanConstant? at h
  split at h
  · next cs =>
      dsimp only at h
      split at h
      · cases h
      · next hne =>
          cases h
          have hrun := isRun_takeWhile Text.isWord cs
          refine ⟨?_, ⟨mt List.isEmpty_iff.mpr hne, hrun.all⟩,
            endsBefore_of_stops nofun hrun.stops⟩
          rw [chars, List.cons_append, List.takeWhile_append_dropWhile]
  · cases h

theorem scanConstant?_eq_some {name : List Char} (h : (constant name).Valid)
    (hends : (constant name).EndsBefore rest) :
    scanConstant? ((constant name).chars ++ rest) = some (constant name, rest) := by
  have hrun : IsRun Text.isWord name rest := ⟨h.word, hends.stops⟩
  rw [chars, List.cons_append, scanConstant?, hrun.takeWhile_eq, hrun.dropWhile_eq]
  exact if_neg (mt List.isEmpty_iff.mp h.ne_nil)

theorem scanConstant?_eq_none {c : Char} (h : c ≠ '!') (cs : List Char) :
    scanConstant? (c :: cs) = none := by
  unfold scanConstant?
  split
  · next hc => exact absurd (List.cons.inj hc).1 h
  · rfl

/-! ## Words and calls -/

theorem spanWord?_cons {c : Char} (h : isWordStart c = true) (cs : List Char) :
    spanWord? (c :: cs) = some (c :: cs.takeWhile isWordPart, cs.dropWhile isWordPart) := by
  unfold spanWord?
  split
  · next hc =>
      cases (List.cons.inj hc).1
      cases h
  · next hc =>
      cases hc
      exact if_pos h
  · next hc => cases hc

/-- A word reaches as far as its characters go. -/
theorem spanWord?_eq_some_iff {w : List Char} :
    spanWord? cs = some (w, rest) ↔
      cs = w ++ rest ∧ IsWordText w ∧ ∀ c ∈ rest.head?, isWordPart c = false := by
  constructor
  · intro h
    unfold spanWord? at h
    split at h
    · next c cs =>
        split at h
        · next hc =>
            cases h
            have hrun := isRun_takeWhile isWordPart cs
            exact ⟨by simp, .hyphen hc hrun.all, hrun.stops⟩
        · cases h
    · next c cs _ =>
        split at h
        · next hc =>
            cases h
            have hrun := isRun_takeWhile isWordPart cs
            exact ⟨by simp, .plain hc hrun.all, hrun.stops⟩
        · cases h
    · cases h
  · rintro ⟨rfl, hw, hstops⟩
    cases hw with
    | plain hc hcs =>
        have hrun : IsRun isWordPart _ rest := ⟨hcs, hstops⟩
        rw [List.cons_append, spanWord?_cons hc, hrun.takeWhile_eq, hrun.dropWhile_eq]
    | hyphen hc hcs =>
        have hrun : IsRun isWordPart _ rest := ⟨hcs, hstops⟩
        rw [List.cons_append, List.cons_append, spanWord?, if_pos hc, hrun.takeWhile_eq,
          hrun.dropWhile_eq]

/-- A scanned word or call is written as it stood, is valid and ends there. -/
theorem sound_of_scanWord? (h : scanWord? cs = some (t, rest)) :
    cs = t.chars ++ rest ∧ t.Valid ∧ t.EndsBefore rest := by
  unfold scanWord? at h
  split at h
  · cases h
  · next w after hspan =>
      obtain ⟨rfl, hw, hstops⟩ := spanWord?_eq_some_iff.mp hspan
      have hcut := List.takeWhile_append_dropWhile (p := (· != ')')) (l := after)
      have hrun := isRun_takeWhile (· != ')') after
      split at h
      · next c left hleft =>
          cases h
          rw [hleft] at hcut hrun
          obtain rfl : c = ')' := by simpa using hrun.stops c rfl
          refine ⟨?_, ⟨hw, fun hmem => ?_⟩, endsBefore_of_stops nofun fun _ _ => rfl⟩
          · simpa [chars] using hcut.symm
          · simpa using hrun.all ')' hmem
      · next hleft =>
          cases h
          refine ⟨rfl, hw, hstops, fun _ _ _ hmem => ?_⟩
          -- a word before a parenthesis that is never closed is no call
          have hopen := List.dropWhile_eq_nil_iff.mp hleft
          simpa using hopen ')' (by simpa using hmem)
  · next w after hopen hspan =>
      cases h
      obtain ⟨rfl, hw, hstops⟩ := spanWord?_eq_some_iff.mp hspan
      refine ⟨rfl, hw, hstops, fun _ _ hhead => ?_⟩
      obtain ⟨left, rfl⟩ := List.head?_eq_some_iff.mp hhead
      exact absurd rfl (hopen left)

theorem isWordPart_opening : isWordPart '(' = false := by
  decide +kernel

/-- A valid call is scanned back, whatever follows it. -/
theorem scanWord?_call_eq_some {w argument : List Char} (h : (call w argument).Valid)
    (rest : List Char) :
    scanWord? ((call w argument).chars ++ rest) = some (call w argument, rest) := by
  have hchars : (call w argument).chars ++ rest = w ++ '(' :: (argument ++ ')' :: rest) := by
    simp [chars]
  have hspan : spanWord? (w ++ '(' :: (argument ++ ')' :: rest)) =
      some (w, '(' :: (argument ++ ')' :: rest)) := by
    refine spanWord?_eq_some_iff.mpr ⟨rfl, h.1, fun c hc => ?_⟩
    cases hc
    exact isWordPart_opening
  have hrun : IsRun (· != ')') argument (')' :: rest) := by
    refine ⟨fun c hc => bne_iff_ne.mpr fun hclosing => h.2 (hclosing ▸ hc), fun c hc => ?_⟩
    cases hc
    rfl
  rw [hchars, scanWord?, hspan]
  split
  · next hnone => cases hnone
  · next hsome =>
      cases hsome
      rw [hrun.dropWhile_eq, hrun.takeWhile_eq]
  · next hopen hsome =>
      cases hsome
      exact absurd rfl (hopen _)

/-- A valid word is scanned back where it ends. -/
theorem scanWord?_word_eq_some {w : List Char} (h : (word w).Valid)
    (hends : (word w).EndsBefore rest) :
    scanWord? ((word w).chars ++ rest) = some (word w, rest) := by
  have hspan : spanWord? (w ++ rest) = some (w, rest) :=
    spanWord?_eq_some_iff.mpr ⟨rfl, h, hends.stops⟩
  rw [chars, scanWord?, hspan]
  split
  · next hnone => cases hnone
  · next w' after hsome =>
      cases hsome
      -- a parenthesis that is never closed
      have hopen : after.dropWhile (· != ')') = [] := by
        refine List.dropWhile_eq_nil_iff.mpr fun c hc => bne_iff_ne.mpr ?_
        rintro rfl
        exact hends.uncalled w rfl rfl (List.mem_cons_of_mem _ hc)
      rw [hopen]
  · next hsome =>
      cases hsome
      rfl

/-- A word starts with a letter, an underscore or a hyphen. -/
theorem IsWordText.exists_head {w : List Char} (h : IsWordText w) :
    ∃ c cs, w = c :: cs ∧ (isWordStart c = true ∨ c = '-') := by
  cases h with
  | plain hc => exact ⟨_, _, rfl, .inl hc⟩
  | hyphen => exact ⟨_, _, rfl, .inr rfl⟩

/-! ## Marks -/

/-- A mark is scanned exactly where its character stands. -/
theorem scanMark?_eq_some_iff :
    scanMark? cs = some (t, rest) ↔ ∃ m, t = mark m ∧ cs = m.char :: rest := by
  constructor
  · intro h
    unfold scanMark? at h
    split at h
    · obtain ⟨m, hm, h⟩ := Option.map_eq_some_iff.mp h
      cases h
      exact ⟨m, rfl, by rw [Mark.ofChar?_eq_some_iff.mp hm]⟩
    · cases h
  · rintro ⟨m, rfl, rfl⟩
    rw [scanMark?, Mark.ofChar?_eq_some_iff.mpr rfl]
    rfl

theorem isWordStart_of_mark (m : Mark) : isWordStart m.char = false := by
  cases m <;> decide

/-- A word starts at a mark if and only if the mark is a hyphen that goes on. -/
theorem scanWord?_mark_eq_none_iff (m : Mark) :
    scanWord? (m.char :: rest) = none ↔ ∀ c ∈ rest.head?, (mark m).goesOn c = false := by
  have hnone : scanWord? (m.char :: rest) = none ↔ spanWord? (m.char :: rest) = none := by
    unfold scanWord?
    split
    · simp [*]
    · next hspan =>
        rw [hspan]
        split <;> simp
    · next hspan => simp [hspan]
  rw [hnone]
  -- no word starts with any other mark
  by_cases hm : m = .minus
  · subst hm
    cases rest with
    | nil => simp [spanWord?, Mark.char, isWordStart]
    | cons c rest =>
        simp only [spanWord?, Mark.char, goesOn, List.head?_cons, Option.mem_some_iff, forall_eq']
        split <;> simp_all
  · have hgoes : ∀ c, (mark m).goesOn c = false := by
      cases m with
      | minus => exact absurd rfl hm
      | _ => exact fun _ => rfl
    simp only [hgoes, implies_true, iff_true]
    unfold spanWord?
    split
    · next hc =>
        cases m <;> first | exact absurd rfl hm | cases (List.cons.inj hc).1
    · next hc =>
        cases hc
        exact if_neg (by simp [isWordStart_of_mark])
    · rfl

/-! ## All kinds of tokens -/

/-- A token is the first of its kinds that can be scanned. -/
theorem scan?_eq_or (cs : List Char) :
    scan? cs = (scanQuoted? cs).or ((scanColor? cs).or ((scanNumber? cs).or
      ((scanConstant? cs).or ((scanWord? cs).or (scanMark? cs))))) := by
  simp only [scan?, Option.orElse_eq_orElse, Option.orElse_eq_or]

/-- A text that starts with no quotation mark and no number sign. -/
theorem scan?_of_plain {c : Char} (hquote : c ≠ '"' ∧ c ≠ '\'') (hsharp : c ≠ '#')
    (cs : List Char) :
    scan? (c :: cs) = (scanNumber? (c :: cs)).or
      ((scanConstant? (c :: cs)).or ((scanWord? (c :: cs)).or (scanMark? (c :: cs)))) := by
  rw [scan?_eq_or, scanQuoted?_eq_none hquote, scanColor?_eq_none hsharp, Option.none_or,
    Option.none_or]

/-- A text that starts with a character of words or a mark. -/
theorem scan?_of_word {c : Char} (hquote : c ≠ '"' ∧ c ≠ '\'') (hsharp : c ≠ '#')
    (hdigit : Text.isDigit c = false) (hpoint : c ≠ '.') (hconstant : c ≠ '!') (cs : List Char) :
    scan? (c :: cs) = (scanWord? (c :: cs)).or (scanMark? (c :: cs)) := by
  rw [scan?_of_plain hquote hsharp, scanNumber?_eq_none hdigit hpoint,
    scanConstant?_eq_none hconstant, Option.none_or, Option.none_or]

theorem scan?_of_scanWord? {w : List Char} (hw : IsWordText w) {more : List Char}
    (h : scanWord? (w ++ more) = some (t, rest)) : scan? (w ++ more) = some (t, rest) := by
  obtain ⟨c, cs, rfl, hc⟩ := hw.exists_head
  have hchar : ∀ d : Char, isWordStart d = false → d ≠ '-' → c ≠ d := by
    rintro d hd hne rfl
    rcases hc with hc | hc
    · rw [hd] at hc
      cases hc
    · exact hne hc
  have hdigit : Text.isDigit c = false := by
    rcases hc with hc | rfl
    · rcases Bool.or_eq_true_iff.mp hc with hletter | hmark
      · exact Text.isDigit_of_isAlpha hletter
      · rw [beq_iff_eq.mp hmark]
        decide
    · decide
  rw [List.cons_append] at h ⊢
  rw [scan?_of_word ⟨hchar _ (by decide) (by decide), hchar _ (by decide) (by decide)⟩
    (hchar _ (by decide) (by decide)) hdigit (hchar _ (by decide) (by decide))
    (hchar _ (by decide) (by decide)), h, Option.some_or]

/-- A mark that ends where it should is scanned. -/
theorem scan?_of_mark (m : Mark) (h : (mark m).EndsBefore rest) :
    scan? (m.char :: rest) = some (mark m, rest) := by
  have hword := (scanWord?_mark_eq_none_iff m).mpr h.stops
  have hmark : scanMark? (m.char :: rest) = some (mark m, rest) :=
    scanMark?_eq_some_iff.mpr ⟨m, rfl, rfl⟩
  have hdigit : Text.isDigit m.char = false := by
    cases m <;> decide
  rw [scan?_of_word (by cases m <;> decide) (by cases m <;> decide) hdigit
    (by cases m <;> decide) (by cases m <;> decide), hword, hmark, Option.none_or]

/-- A token is taken from a text if and only if the text starts with its characters, the token can
have these characters, and it ends before the rest. -/
theorem scan?_eq_some_iff :
    scan? cs = some (t, rest) ↔ cs = t.chars ++ rest ∧ t.Valid ∧ t.EndsBefore rest := by
  constructor
  · intro h
    rw [scan?_eq_or] at h
    simp only [Option.or_eq_some_iff] at h
    rcases h with h | ⟨-, h | ⟨-, h | ⟨-, h | ⟨-, h | ⟨hword, h⟩⟩⟩⟩⟩
    · exact sound_of_scanQuoted? h
    · exact sound_of_scanColor? h
    · exact sound_of_scanNumber? h
    · exact sound_of_scanConstant? h
    · exact sound_of_scanWord? h
    · obtain ⟨m, rfl, rfl⟩ := scanMark?_eq_some_iff.mp h
      exact ⟨rfl, trivial, endsBefore_of_stops nofun ((scanWord?_mark_eq_none_iff m).mp hword)⟩
  · rintro ⟨rfl, hvalid, hends⟩
    -- the scanners before the one that fits are passed by the first character
    cases t with
    | quoted q body => rw [scan?_eq_or, scanQuoted?_eq_some hvalid, Option.some_or]
    | color digits =>
        have hscan := scanColor?_eq_some hvalid hends
        rw [chars, List.cons_append] at hscan ⊢
        rw [scan?_eq_or, scanQuoted?_eq_none (by decide), hscan, Option.none_or, Option.some_or]
    | number whole fraction unit =>
        have hscan := scanNumber?_eq_some hvalid hends
        obtain ⟨c, cs, hchars, hc⟩ := exists_head_of_number hvalid
        have hchar : ∀ d : Char, Text.isDigit d = false → d ≠ '.' → c ≠ d := by
          rintro d hd hne rfl
          rcases hc with hc | hc
          · rw [hd] at hc
            cases hc
          · exact hne hc
        rw [hchars, List.cons_append] at hscan ⊢
        rw [scan?_of_plain ⟨hchar _ (by decide) (by decide), hchar _ (by decide) (by decide)⟩
          (hchar _ (by decide) (by decide)), hscan, Option.some_or]
    | constant name =>
        have hscan := scanConstant?_eq_some hvalid hends
        rw [chars, List.cons_append] at hscan ⊢
        rw [scan?_of_plain (by decide) (by decide), scanNumber?_eq_none (by decide) (by decide),
          hscan, Option.none_or, Option.some_or]
    | call w argument =>
        have hscan := scanWord?_call_eq_some hvalid rest
        rw [chars, List.append_assoc, List.append_assoc] at hscan ⊢
        exact scan?_of_scanWord? hvalid.1 hscan
    | word w => exact scan?_of_scanWord? hvalid (scanWord?_word_eq_some hvalid hends)
    | mark m => exact scan?_of_mark m hends

end Token

end Stylesheet
