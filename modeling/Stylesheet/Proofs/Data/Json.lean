import Mathlib
import Stylesheet.Data.Json

/-!
# Data through JSON

Data that JSON has a form for is read back from what is written, up to the order of entries: the
format sorts them by their keys. Characters that are escaped, in one half or in two, come back as
they were, and so do integers, within the limit on their length if there is one.

Reading takes a value from the start of a text and leaves the rest, so what is proved of a written
value has to hold with anything that may stand after it. `Reads` is that statement. Atoms, lists and
maps each have a lemma that builds it, and `Plain.reads` only puts them together, by induction on the
data.

* `scanText?_flatMap_escaped` : texts.
* `scanNumber_toString` : integers.
* `scanItems_intercalate`, `scanEntries_intercalate` : what stands between brackets.
* `parseWith_render` : plain data is read back, with the entries of its maps sorted.
-/

namespace Stylesheet

/-! ## Hexadecimal -/

namespace Text

theorem hexValue?_hexDigit (upper : Bool) : ∀ d < 16, hexValue? (hexDigit upper d) = some d := by
  cases upper <;> decide

/-- A number that fits the width is read back from its hexadecimal digits. -/
theorem ofHex?_hex {upper : Bool} {width n : Nat} (h : n < 16 ^ width) :
    ofHex? (hex upper width n) = some n := by
  induction width generalizing n with
  | zero =>
      obtain rfl : n = 0 := by simpa using h
      rfl
  | succ width ih =>
      have hn : n / 16 < 16 ^ width := by
        rw [Nat.pow_succ] at h
        omega
      have hdigit := hexValue?_hexDigit upper (n % 16) (Nat.mod_lt _ (by decide))
      have hfront := ih hn
      unfold ofHex? at hfront ⊢
      rw [hex, List.foldlM_append, hfront]
      simp [hdigit]
      omega

end Text

namespace Data.Json

variable {limited : Bool} {cs rest : List Char}

/-! ## Texts -/

/-- The four digits of an escape are read as the number that they write. -/
theorem ofHex?_four {n : Nat} (h : n < 0x10000) :
    ∃ a b c d, Text.hex false 4 n = [a, b, c, d] ∧ Text.ofHex? [a, b, c, d] = some n :=
  ⟨_, _, _, _, rfl, Text.ofHex?_hex (show n < 16 ^ 4 from h)⟩

/-- A unicode escape that is no high surrogate is read as its code. -/
theorem scanText?_unicodeEscape {n : Nat} (h : n < 0x10000) (hhigh : ¬(0xD800 ≤ n ∧ n < 0xDC00))
    (cs : List Char) :
    scanText? (unicodeEscape n ++ cs) = (scanText? cs).map fun (ns, rest) => (n :: ns, rest) := by
  obtain ⟨a, b, c, d, hhex, hvalue⟩ := ofHex?_four h
  rw [unicodeEscape, hhex]
  show scanText? ('\\' :: 'u' :: a :: b :: c :: d :: cs) = _
  rw [scanText?, hvalue]
  simp only [if_neg hhigh]

/-- What lies beyond the first 65536 code points is written as two halves, which are read as one. -/
theorem scanText?_halves {n : Nat} (h : 0x10000 ≤ n) (h' : n < 0x110000) (cs : List Char) :
    scanText? (unicodeEscape (0xD800 + (n - 0x10000) / 0x400) ++
        unicodeEscape (0xDC00 + (n - 0x10000) % 0x400) ++ cs) =
      (scanText? cs).map fun (ns, rest) => (n :: ns, rest) := by
  obtain ⟨high, hhigh⟩ : ∃ high, high = 0xD800 + (n - 0x10000) / 0x400 := ⟨_, rfl⟩
  obtain ⟨low, hlow⟩ : ∃ low, low = 0xDC00 + (n - 0x10000) % 0x400 := ⟨_, rfl⟩
  have hn : 0x10000 + (high - 0xD800) * 0x400 + (low - 0xDC00) = n := by omega
  have hfirst : 0xD800 ≤ high ∧ high < 0xDC00 := by omega
  have hsecond : 0xDC00 ≤ low ∧ low < 0xE000 := by omega
  obtain ⟨a, b, c, d, hhex, hvalue⟩ := ofHex?_four (show high < 0x10000 by omega)
  obtain ⟨e, f, g, h, hhex', hvalue'⟩ := ofHex?_four (show low < 0x10000 by omega)
  rw [← hhigh, ← hlow, unicodeEscape, unicodeEscape, hhex, hhex']
  show scanText? ('\\' :: 'u' :: a :: b :: c :: d :: '\\' :: 'u' :: e :: f :: g :: h :: cs) = _
  rw [scanText?, hvalue]
  simp only [if_pos hfirst, hvalue', if_pos hsecond, hn]

/-- An escaped character is read back. -/
theorem scanText?_escaped (c : Char) (cs : List Char) :
    scanText? (escaped c ++ cs) = (scanText? cs).map fun (ns, rest) => (c.toNat :: ns, rest) := by
  have hvalid : c.toNat < 0xD800 ∨ 0xDFFF < c.toNat ∧ c.toNat < 0x110000 := c.valid
  by_cases hletter : c ∈ ['"', '\\', '\n', '\r', '\t', '\x08', '\x0c']
  · simp only [List.mem_cons, List.not_mem_nil, or_false] at hletter
    rcases hletter with rfl | rfl | rfl | rfl | rfl | rfl | rfl <;>
      simp [escaped, scanText?, simpleEscape?]
  simp only [List.mem_cons, List.not_mem_nil, or_false, not_or] at hletter
  obtain ⟨hquote, hbackslash, hnewline, hreturn, htab, hbackspace, hfeed⟩ := hletter
  have hbackspace' : c.toNat ≠ 8 := fun h => hbackspace (Char.toNat_inj.mp h)
  have hfeed' : c.toNat ≠ 12 := fun h => hfeed (Char.toNat_inj.mp h)
  simp only [escaped, hquote, hbackslash, hnewline, hreturn, htab, hbackspace', hfeed', if_false]
  split
  · next hplain =>
    show scanText? (c :: cs) = _
    have hshown : ¬(c.toNat < 0x20 ∨ c = '\\') := by
      rintro (hlt | heq)
      · omega
      · exact hbackslash heq
    rw [scanText?, if_neg hshown]
    all_goals simp_all
  split
  · next hsmall => exact scanText?_unicodeEscape hsmall (by omega) cs
  · -- beyond four hexadecimal digits a character is written in two halves
    next hlarge => exact scanText?_halves (by omega) (by omega) cs

/-- A text is read back, and reading stops after its closing mark. -/
theorem scanText?_flatMap_escaped (cs rest : List Char) :
    scanText? (cs.flatMap escaped ++ '"' :: rest) = some (cs.map Char.toNat, rest) := by
  induction cs with
  | nil => rfl
  | cons c cs ih =>
      rw [List.flatMap_cons, List.append_assoc, scanText?_escaped, ih]
      rfl

theorem ofCodes_map_toNat (s : String) : Atom.ofCodes (s.toList.map Char.toNat) = .text s := by
  have hvalid : ((s.toList.map Char.toNat).all fun n => n.isValidChar) = true := by
    simp only [List.all_map, List.all_eq_true, Function.comp_apply, decide_eq_true_eq]
    exact fun c _ => c.valid
  have hchars : (s.toList.map Char.toNat).map Char.ofNat = s.toList := by
    simp [Function.comp_def]
  rw [Atom.ofCodes, if_pos hvalid, hchars, String.ofList_toList]

theorem scanAtomText_renderText (s : String) (rest : List Char) :
    scanAtomText (s.toList.flatMap escaped ++ ['"'] ++ rest) = .ok (.text s, rest) := by
  rw [List.append_assoc, scanAtomText, List.singleton_append, scanText?_flatMap_escaped]
  simp only [ofCodes_map_toNat]

/-! ## Integers -/

/-- What may stand after a value: nothing, the separator, or a line break. -/
inductive Follows : List Char → Prop
  | nil : Follows []
  | comma (cs : List Char) : Follows (',' :: cs)
  | lineBreak (cs : List Char) : Follows ('\n' :: cs)

theorem scanFraction_of_follows (h : Follows rest) : scanFraction rest = ([], rest) := by
  cases h <;> rfl

theorem scanExponent_of_follows (h : Follows rest) : scanExponent rest = (none, rest) := by
  cases h <;> rfl

theorem takeWhile_isDigit_append {digits : List Char} (hdigits : ∀ c ∈ digits, c.isDigit = true)
    (h : Follows rest) : (digits ++ rest).takeWhile Char.isDigit = digits := by
  have hrest : rest.takeWhile Char.isDigit = [] := by
    cases h <;> rfl
  rw [List.takeWhile_append_of_pos hdigits, hrest, List.append_nil]

/-- Only zero is written with a zero in front. -/
theorem head?_toDigits {n : Nat} (h : 0 < n) : (Nat.toDigits 10 n).head? ≠ some '0' := by
  induction n using Nat.strongRecOn with
  | ind n ih =>
      by_cases hlt : n < 10
      · rw [Nat.toDigits_of_lt_base hlt]
        simpa [Nat.digitChar_eq_zero] using h.ne'
      · have hfront := ih (n / 10) (by omega) (by omega)
        rw [Nat.toDigits_of_base_le (by decide) (by omega), List.head?_append]
        cases hdigits : Nat.toDigits 10 (n / 10) with
        | nil => exact absurd hdigits Nat.toDigits_ne_nil
        | cons c cs => simpa [hdigits] using hfront

theorem toList_toString (n : Int) :
    (toString n).toList = if n < 0 then '-' :: Nat.toDigits 10 n.natAbs
      else Nat.toDigits 10 n.natAbs := by
  cases n with
  | ofNat m =>
      show (Nat.repr m).toList = _
      simp [Nat.repr_eq_ofList_toDigits]
  | negSucc m =>
      show ("-" ++ Nat.repr (m + 1)).toList = _
      simp [Nat.repr_eq_ofList_toDigits, Int.negSucc_lt_zero]

theorem wholeDigits_toDigits (n : Nat) (h : Follows rest) :
    wholeDigits (Nat.toDigits 10 n ++ rest) = Nat.toDigits 10 n := by
  have hdigits : ∀ c ∈ Nat.toDigits 10 n, c.isDigit = true := fun c hc =>
    Nat.isDigit_of_mem_toDigits (by decide) (by decide) hc
  unfold wholeDigits
  split
  · next hzero =>
    by_cases hn : 0 < n
    · have hhead := head?_toDigits hn
      cases hcs : Nat.toDigits 10 n with
      | nil => exact absurd hcs Nat.toDigits_ne_nil
      | cons c cs =>
          rw [hcs] at hzero hhead
          cases hzero
          exact absurd rfl hhead
    · obtain rfl : n = 0 := by omega
      rfl
  · exact takeWhile_isDigit_append hdigits h

/-- An integer that is within the limit on the number of digits, if there is one. -/
def Fits (limited : Bool) (n : Int) : Prop :=
  limited = true → (toString n.natAbs).length ≤ Number.maxDigits

theorem scanUnsigned_toDigits {negative : Bool} {n : Nat} (hn : Fits limited n)
    (h : Follows rest) :
    scanUnsigned limited negative (Nat.toDigits 10 n ++ rest) =
      .ok (.int (if negative then -n else n), rest) := by
  have hlength : ¬(limited = true ∧ Number.maxDigits < (Nat.toDigits 10 n).length) := by
    rintro ⟨hlimited, hlt⟩
    have hle := hn hlimited
    rw [Int.natAbs_natCast, Nat.toString_eq_ofList_toDigits, String.length_ofList] at hle
    omega
  have hempty : (Nat.toDigits 10 n).isEmpty = false := by
    simp [Nat.toDigits_ne_nil]
  have hdrop : (Nat.toDigits 10 n ++ rest).drop (Nat.toDigits 10 n).length = rest :=
    List.drop_left
  rw [scanUnsigned, wholeDigits_toDigits n h, hdrop]
  simp only [hempty, scanFraction_of_follows h, scanExponent_of_follows h, hlength,
    Nat.ofDigitChars_ten_toDigits]
  rfl

/-- The first digit of a number is no sign. -/
theorem toDigits_eq_cons (n : Nat) :
    ∃ c cs, Nat.toDigits 10 n = c :: cs ∧ c.isDigit = true := by
  cases hcs : Nat.toDigits 10 n with
  | nil => exact absurd hcs Nat.toDigits_ne_nil
  | cons c cs =>
      have hmem : c ∈ Nat.toDigits 10 n := by
        rw [hcs]
        exact List.mem_cons_self
      exact ⟨c, cs, rfl, Nat.isDigit_of_mem_toDigits (by decide) (by decide) hmem⟩

theorem scanNumber_toString {n : Int} (hn : Fits limited n) (h : Follows rest) :
    scanNumber limited ((toString n).toList ++ rest) = .ok (.int n, rest) := by
  have hfits : Fits limited (n.natAbs : Int) := hn
  rw [toList_toString]
  split
  · next hneg =>
    show scanUnsigned limited true (Nat.toDigits 10 n.natAbs ++ rest) = _
    rw [scanUnsigned_toDigits hfits h]
    congr 3
    show -(n.natAbs : Int) = n
    omega
  · next hneg =>
    have hsigned : scanNumber limited (Nat.toDigits 10 n.natAbs ++ rest) =
        scanUnsigned limited false (Nat.toDigits 10 n.natAbs ++ rest) := by
      obtain ⟨c, cs, hcs, hc⟩ := toDigits_eq_cons n.natAbs
      rw [hcs]
      unfold scanNumber
      split
      · next heq =>
        cases heq
        cases hc
      · rfl
    rw [hsigned, scanUnsigned_toDigits hfits h]
    congr 3
    show (n.natAbs : Int) = n
    omega

/-! ## Atoms -/

theorem after?_append (word : String) (rest : List Char) :
    after? word (word.toList ++ rest) = some rest := by
  have hprefix : word.toList.isPrefixOf (word.toList ++ rest) = true := by
    rw [List.isPrefixOf_iff_prefix]
    exact List.prefix_append _ _
  rw [after?, if_pos hprefix, ← String.length_toList, List.drop_left]

/-- Neither a digit nor a sign in front of a digit starts a word. -/
theorem scanAtom_of_digit {c : Char} (hc : c.isDigit = true) (cs : List Char) :
    scanAtom limited (c :: cs) = scanNumber limited (c :: cs) ∧
      scanAtom limited ('-' :: c :: cs) = scanNumber limited ('-' :: c :: cs) := by
  have hne : 'n' ≠ c ∧ 't' ≠ c ∧ 'f' ≠ c ∧ 'N' ≠ c ∧ 'I' ≠ c ∧ '-' ≠ c := by
    refine ⟨?_, ?_, ?_, ?_, ?_, ?_⟩ <;> (rintro rfl; cases hc)
  constructor
  · simp [scanAtom, after?, hne]
  · simp [scanAtom, after?, hne]

/-- An integer within the limit is read back as an atom. -/
theorem scanAtom_toString {n : Int} (hn : Fits limited n) (h : Follows rest) :
    scanAtom limited ((toString n).toList ++ rest) = .ok (.int n, rest) := by
  rw [← scanNumber_toString hn h]
  obtain ⟨c, cs, hcs, hc⟩ := toDigits_eq_cons n.natAbs
  rw [toList_toString, hcs]
  split
  · exact (scanAtom_of_digit hc (cs ++ rest)).2
  · exact (scanAtom_of_digit hc (cs ++ rest)).1

theorem scanAtom_null (rest : List Char) :
    scanAtom limited ("null".toList ++ rest) = .ok (.null, rest) := by
  rw [scanAtom, after?_append]
  rfl

theorem scanAtom_bool (b : Bool) (rest : List Char) :
    scanAtom limited (renderAtom (.bool b) ++ rest) = .ok (.bool b, rest) := by
  cases b with
  | true =>
      show scanAtom limited ("true".toList ++ rest) = _
      have hnull : after? "null" ("true".toList ++ rest) = none := by simp [after?]
      rw [scanAtom, hnull, after?_append]
      rfl
  | false =>
      show scanAtom limited ("false".toList ++ rest) = _
      have hnull : after? "null" ("false".toList ++ rest) = none := by simp [after?]
      have htrue : after? "true" ("false".toList ++ rest) = none := by simp [after?]
      rw [scanAtom, hnull, htrue, after?_append]
      rfl

/-- An integer starts with a digit or with its sign. -/
theorem toString_eq_cons (n : Int) :
    ∃ c cs, (toString n).toList = c :: cs ∧
      c ∉ [' ', '\n', '\r', '\t', ']', '}', '"', '[', '{'] := by
  obtain ⟨c, cs, hcs, hc⟩ := toDigits_eq_cons n.natAbs
  rw [toList_toString, hcs]
  split
  · exact ⟨'-', c :: cs, rfl, by decide⟩
  · refine ⟨c, cs, rfl, fun hmem => ?_⟩
    simp only [List.mem_cons, List.not_mem_nil, or_false] at hmem
    rcases hmem with rfl | rfl | rfl | rfl | rfl | rfl | rfl | rfl | rfl <;> cases hc

/-! ## Values

Reading is only ever asked for the rest of a text, so what is said of a written value is said with
whatever may stand after it. -/

/-- A text that does not start with a blank or with a closing bracket. -/
def Starts (text : List Char) : Prop :=
  ∃ c cs, text = c :: cs ∧ c ∉ [' ', '\n', '\r', '\t', ']', '}']

/-- A text that is read as a value, wherever it stands. -/
structure Reads (limited : Bool) (text : List Char) (d : Data) : Prop where
  starts : Starts text
  scan : ∀ {fuel rest}, Follows rest → text.length ≤ fuel →
    scanValue limited fuel (text ++ rest) = .ok (d, rest)

theorem follows_newline (level : Nat) (cs : List Char) : Follows (newline level ++ cs) :=
  .lineBreak _

theorem skip_newline (level : Nat) (cs : List Char) : skip (newline level ++ cs) = skip cs := by
  refine List.dropWhile_append_of_pos fun c hc => ?_
  rcases List.mem_cons.mp hc with rfl | hc
  · rfl
  · rw [List.eq_of_mem_replicate hc]
    rfl

theorem skip_of_starts {text : List Char} (h : Starts text) (rest : List Char) :
    skip (text ++ rest) = text ++ rest := by
  obtain ⟨c, cs, rfl, hc⟩ := h
  simp only [List.mem_cons, List.not_mem_nil, or_false, not_or] at hc
  simp [skip, hc]

namespace Reads

/-- A value takes one unit of fuel for its first character. -/
theorem of_cons {c : Char} {d : Data} (hc : c ∉ [' ', '\n', '\r', '\t', ']', '}'])
    (h : ∀ {fuel rest}, Follows rest → cs.length ≤ fuel →
      scanValue limited (fuel + 1) (c :: (cs ++ rest)) = .ok (d, rest)) :
    Reads limited (c :: cs) d := by
  refine ⟨⟨c, cs, rfl, hc⟩, fun {fuel rest} hrest hfuel => ?_⟩
  cases fuel with
  | zero => simp at hfuel
  | succ fuel => exact h hrest (Nat.le_of_succ_le_succ hfuel)

/-- A value that is one word or number. -/
theorem of_atom {a : Atom} {c : Char} (hc : c ∉ [' ', '\n', '\r', '\t', ']', '}', '"', '[', '{'])
    (h : ∀ {rest}, Follows rest → scanAtom limited (c :: (cs ++ rest)) = .ok (a, rest)) :
    Reads limited (c :: cs) (.atom a) := by
  simp only [List.mem_cons, List.not_mem_nil, or_false, not_or] at hc
  refine of_cons (by simp [hc]) fun hrest _ => ?_
  rw [scanValue]
  · rw [h hrest]
    rfl
  all_goals simp [hc]

theorem text (s : String) : Reads limited (renderText s) (.text s) := by
  show Reads limited ('"' :: (s.toList.flatMap escaped ++ ['"'])) (.text s)
  refine of_cons (by decide) fun _ _ => ?_
  rw [scanValue, scanAtomText_renderText]
  rfl

theorem null : Reads limited "null".toList .null :=
  of_atom (by decide) fun _ => scanAtom_null _

theorem bool (b : Bool) : Reads limited (renderAtom (.bool b)) (.bool b) := by
  cases b with
  | true => exact of_atom (by decide) fun _ => scanAtom_bool true _
  | false => exact of_atom (by decide) fun _ => scanAtom_bool false _

theorem int {n : Int} (hn : Fits limited n) : Reads limited (toString n).toList (.int n) := by
  obtain ⟨c, cs, hcs, hc⟩ := toString_eq_cons n
  rw [hcs]
  refine of_atom hc fun {rest} hrest => ?_
  rw [← List.cons_append, ← hcs]
  exact scanAtom_toString hn hrest

end Reads

/-! ## Lists -/

theorem Starts.append {text : List Char} (h : Starts text) (more : List Char) :
    Starts (text ++ more) := by
  obtain ⟨c, cs, rfl, hc⟩ := h
  exact ⟨c, cs ++ more, rfl, hc⟩

theorem Starts.intercalate {text : List Char} (h : Starts text) (separator : List Char)
    (texts : List (List Char)) : Starts (List.intercalate separator (text :: texts)) := by
  cases texts with
  | nil => rwa [List.intercalate_singleton]
  | cons text' texts =>
      rw [List.intercalate_cons_cons, List.append_assoc]
      exact h.append _

/-- Reading goes on after an item as the character after it says. -/
theorem scanItems_item {fuel : Nat} {text : List Char} {d : Data} (h : Reads limited text d)
    (hrest : Follows rest) (hfuel : text.length ≤ fuel) :
    scanItems limited (fuel + 1) (text ++ rest) = match skip rest with
      | ']' :: rest => pure ([d], rest)
      | ',' :: rest => do
        let (items, rest) ← scanItems limited fuel (skip rest)
        pure (d :: items, rest)
      | _ => throw .malformed := by
  rw [scanItems, h.scan hrest hfuel]
  rfl

/-- What stands between the brackets of a list that is not empty is read item by item. -/
theorem scanItems_intercalate (level outer : Nat) {texts : List (List Char)} {ds : List Data}
    (h : List.Forall₂ (Reads limited) texts ds) (hne : texts ≠ []) {fuel : Nat}
    (hfuel : (List.intercalate (',' :: newline level) texts).length < fuel) (rest : List Char) :
    scanItems limited fuel (List.intercalate (',' :: newline level) texts ++
        (newline outer ++ ']' :: rest)) = .ok (ds, rest) := by
  induction h generalizing fuel with
  | nil => exact absurd rfl hne
  | @cons text d texts ds hread hmore ih =>
      obtain ⟨fuel, rfl⟩ : ∃ n, fuel = n + 1 := Nat.exists_eq_succ_of_ne_zero (by omega)
      cases hmore with
      | nil =>
          rw [List.intercalate_singleton] at hfuel ⊢
          rw [scanItems_item hread (follows_newline _ _) (by omega), skip_newline]
          rfl
      | @cons text' d' texts ds hread' hmore =>
          have hstarts := hread'.starts.intercalate (',' :: newline level) texts
          rw [List.intercalate_cons_cons] at hfuel ⊢
          simp only [List.length_append, List.length_cons] at hfuel
          rw [List.append_assoc, List.append_assoc, List.cons_append,
            scanItems_item hread (.comma _) (by omega)]
          show (scanItems limited fuel (skip (newline level ++ _)) >>= _) = _
          rw [skip_newline, skip_of_starts hstarts, ih (List.cons_ne_nil _ _) (by omega)]
          rfl

/-- A bracket that is not empty puts each part on a line of its own. -/
theorem bracketed_eq {opening closing : Char} {level : Nat} {texts : List (List Char)}
    (h : texts ≠ []) : bracketed opening closing level texts =
      opening :: (newline (level + 1) ++ (List.intercalate (',' :: newline (level + 1)) texts ++
        (newline level ++ [closing]))) := by
  simp [bracketed, h]

/-- A list is read item by item after its bracket. -/
theorem scanValue_list {level fuel : Nat} {text : List Char} (h : Starts text)
    (rest : List Char) : scanValue limited (fuel + 1) ('[' :: (newline level ++ (text ++ rest))) =
      (scanItems limited fuel (text ++ rest)).map fun (items, rest) => (.list items, rest) := by
  rw [scanValue, skip_newline, skip_of_starts h]
  obtain ⟨c, cs, rfl, hc⟩ := h
  split
  · next heq =>
    cases heq
    exact absurd (by decide) hc
  · rfl

/-- A list is read back when each of its items is. -/
theorem Reads.list {level : Nat} {texts : List (List Char)} {ds : List Data}
    (h : List.Forall₂ (Reads limited) texts ds) :
    Reads limited (bracketed '[' ']' level texts) (.list ds) := by
  cases h with
  | nil => exact of_cons (by decide) fun _ _ => rfl
  | @cons text d texts ds hread hmore =>
      have hstarts := hread.starts.intercalate (',' :: newline (level + 1)) texts
      rw [bracketed_eq (List.cons_ne_nil _ _)]
      refine of_cons (by decide) fun {fuel rest} _ hfuel => ?_
      simp only [List.length_append, List.length_cons] at hfuel
      have hlength :
          (List.intercalate (',' :: newline (level + 1)) (text :: texts)).length < fuel := by
        simp only [newline, List.length_cons] at hfuel ⊢
        omega
      simp only [List.append_assoc]
      rw [scanValue_list hstarts]
      have hitems := scanItems_intercalate (level + 1) level (.cons hread hmore)
        (List.cons_ne_nil _ _) hlength rest
      rw [List.singleton_append, hitems]
      rfl

/-! ## Maps -/

theorem starts_renderEntry (entry : String × List Char) : Starts (renderEntry entry) :=
  ⟨'"', _, rfl, by decide⟩

/-- Reading goes on after an entry as the character after it says. -/
theorem scanEntries_entry {fuel : Nat} {key : String} {value : List Char} {d : Data}
    (h : Reads limited value d) (hrest : Follows rest) (hfuel : value.length ≤ fuel) :
    scanEntries limited (fuel + 1) (renderEntry (key, value) ++ rest) = match skip rest with
      | '}' :: rest => pure ([(.text key, d)], rest)
      | ',' :: rest => do
        let (entries, rest) ← scanEntries limited fuel (skip rest)
        pure ((.text key, d) :: entries, rest)
      | _ => throw .malformed := by
  have htext : renderEntry (key, value) ++ rest =
      '"' :: (key.toList.flatMap escaped ++ ['"'] ++ (':' :: ' ' :: (value ++ rest))) := by
    simp [renderEntry, renderText]
  have hvalue : skip (' ' :: (value ++ rest)) = value ++ rest := skip_of_starts h.starts rest
  rw [htext, scanEntries, scanAtomText_renderText]
  show (scanValue limited fuel (skip (' ' :: (value ++ rest))) >>= _) = _
  rw [hvalue, h.scan hrest hfuel]
  rfl

/-- What stands between the braces of a map that is not empty is read entry by entry. -/
theorem scanEntries_intercalate (level outer : Nat) {entries : List (String × List Char)}
    {fields : List (String × Data)}
    (h : List.Forall₂ (fun entry field => entry.1 = field.1 ∧ Reads limited entry.2 field.2)
      entries fields) (hne : entries ≠ []) {fuel : Nat}
    (hfuel : (List.intercalate (',' :: newline level) (entries.map renderEntry)).length < fuel)
    (rest : List Char) :
    scanEntries limited fuel (List.intercalate (',' :: newline level) (entries.map renderEntry) ++
        (newline outer ++ '}' :: rest)) =
      .ok (fields.map fun field => (.text field.1, field.2), rest) := by
  induction h generalizing fuel with
  | nil => exact absurd rfl hne
  | @cons entry field entries fields hread hmore ih =>
      obtain ⟨key, value⟩ := entry
      obtain ⟨rfl, hread⟩ : key = field.1 ∧ Reads limited value field.2 := hread
      have hlength : value.length ≤ (renderEntry (field.1, value)).length := by
        simp only [renderEntry, List.length_append]
        omega
      obtain ⟨fuel, rfl⟩ : ∃ n, fuel = n + 1 := Nat.exists_eq_succ_of_ne_zero (by omega)
      cases hmore with
      | nil =>
          rw [List.map_singleton, List.intercalate_singleton] at hfuel ⊢
          rw [scanEntries_entry hread (follows_newline _ _) (by omega), skip_newline]
          rfl
      | @cons entry' field' entries fields hread' hmore =>
          have hstarts := (starts_renderEntry entry').intercalate (',' :: newline level)
            (entries.map renderEntry)
          rw [List.map_cons, List.map_cons] at ih hfuel ⊢
          rw [List.intercalate_cons_cons] at hfuel ⊢
          simp only [List.length_append, List.length_cons] at hfuel
          rw [List.append_assoc, List.append_assoc, List.cons_append,
            scanEntries_entry hread (.comma _) (by omega)]
          show (scanEntries limited fuel (skip (newline level ++ _)) >>= _) = _
          rw [skip_newline, skip_of_starts hstarts, ih (List.cons_ne_nil _ _) (by omega)]
          rfl

/-- A key that is new is added at the end. -/
theorem setEntry_of_not_mem {α : Type} {key : String} (value : α) {fields : List (String × α)}
    (h : key ∉ fields.map (·.1)) :
    setEntry (.text key) value (fields.map fun field => (.text field.1, field.2)) =
      (fields ++ [(key, value)]).map fun field => (.text field.1, field.2) := by
  induction fields with
  | nil => rfl
  | cons field fields ih =>
      simp only [List.map_cons, List.mem_cons, not_or] at h
      have hne : (Atom.text field.1).sameKey (.text key) = false := by
        simpa [Atom.sameKey] using Ne.symm h.1
      rw [List.map_cons, setEntry, if_neg (by simp [hne]), ih h.2]
      rfl

/-- Entries with keys that are all different stay as they are. -/
theorem settle_of_nodup {α : Type} {fields : List (String × α)}
    (h : (fields.map (·.1)).Nodup) :
    settle (fields.map fun field => (.text field.1, field.2)) =
      fields.map fun field => (Atom.text field.1, field.2) := by
  have hgo : ∀ settled fields : List (String × α), ((settled ++ fields).map (·.1)).Nodup →
      (fields.map fun field => (Atom.text field.1, field.2)).foldl
          (fun settled entry => setEntry entry.1 entry.2 settled)
          (settled.map fun field => (.text field.1, field.2)) =
        (settled ++ fields).map fun field => (Atom.text field.1, field.2) := by
    intro settled fields hnodup
    induction fields generalizing settled with
    | nil => simp
    | cons field fields ih =>
        have hnext : settled ++ field :: fields = (settled ++ [field]) ++ fields := by simp
        have hnew : field.1 ∉ settled.map (·.1) := by
          rw [List.map_append, List.map_cons, List.nodup_append] at hnodup
          intro hmem
          exact hnodup.2.2 _ hmem _ List.mem_cons_self rfl
        rw [List.map_cons, List.foldl_cons, setEntry_of_not_mem field.2 hnew]
        rw [hnext] at hnodup ⊢
        exact ih _ hnodup
  exact hgo [] fields h

/-- Among different keys the one that is looked for is found. -/
theorem lookup?_of_mem {α : Type} {fields : List (String × α)}
    (hnodup : (fields.map (·.1)).Nodup) {field : String × α} (h : field ∈ fields) :
    lookup? (fields.map fun field => (.text field.1, field.2)) field.1 = some field.2 := by
  induction fields with
  | nil => cases h
  | cons other fields ih =>
      rw [List.map_cons, List.nodup_cons] at hnodup
      rcases List.mem_cons.mp h with rfl | h
      · simp [lookup?]
      · have hne : other.1 ≠ field.1 := by
          intro heq
          exact hnodup.1 (heq ▸ List.mem_map_of_mem h)
        have hrest := ih hnodup.2 h
        simpa [lookup?, hne] using hrest

/-- A map is read entry by entry after its brace, and settled. -/
theorem scanValue_map {level fuel : Nat} {text : List Char} (h : Starts text)
    (rest : List Char) : scanValue limited (fuel + 1) ('{' :: (newline level ++ (text ++ rest))) =
      (scanEntries limited fuel (text ++ rest)).map fun (entries, rest) =>
        (.map (settle entries), rest) := by
  rw [scanValue, skip_newline, skip_of_starts h]
  obtain ⟨c, cs, rfl, hc⟩ := h
  split
  · next heq =>
    cases heq
    exact absurd (by decide) hc
  · rfl

/-- A map of distinct keys is read back when each of its values is. -/
theorem Reads.map {level : Nat} {entries : List (String × List Char)}
    {fields : List (String × Data)}
    (h : List.Forall₂ (fun entry field => entry.1 = field.1 ∧ Reads limited entry.2 field.2)
      entries fields) (hnodup : (fields.map (·.1)).Nodup) :
    Reads limited (bracketed '{' '}' level (entries.map renderEntry)) (.ofFields fields) := by
  cases entries with
  | nil =>
      cases h
      exact of_cons (by decide) fun _ _ => rfl
  | cons entry entries =>
      have hne : (entry :: entries).map renderEntry ≠ [] := List.cons_ne_nil _ _
      have hstarts : Starts (List.intercalate (',' :: newline (level + 1))
          ((entry :: entries).map renderEntry)) := (starts_renderEntry entry).intercalate _ _
      rw [bracketed_eq hne]
      refine of_cons (by decide) fun {fuel rest} _ hfuel => ?_
      have hlength : (List.intercalate (',' :: newline (level + 1))
          ((entry :: entries).map renderEntry)).length < fuel := by
        simp only [newline, List.length_append, List.length_cons] at hfuel ⊢
        omega
      simp only [List.append_assoc]
      rw [scanValue_map hstarts]
      have hentries :=
        scanEntries_intercalate (level + 1) level h (List.cons_ne_nil _ _) hlength rest
      rw [List.singleton_append, hentries]
      show Except.ok (Data.map (settle _), rest) = _
      rw [settle_of_nodup hnodup]
      rfl

/-! ## Sorting -/

theorem insertSorted_map {α β : Type} (f : α → β) (entry : String × α)
    (entries : List (String × α)) :
    insertSorted (entry.1, f entry.2) (entries.map fun e => (e.1, f e.2)) =
      (insertSorted entry entries).map fun e => (e.1, f e.2) := by
  induction entries with
  | nil => rfl
  | cons e entries ih =>
      rw [List.map_cons, insertSorted, insertSorted]
      split
      · rfl
      · rw [ih]
        rfl

/-- Sorting minds the keys only. -/
theorem sortEntries_map {α β : Type} (f : α → β) (entries : List (String × α)) :
    sortEntries (entries.map fun e => (e.1, f e.2)) =
      (sortEntries entries).map fun e => (e.1, f e.2) := by
  have hgo : ∀ sorted : List (String × α),
      (entries.map fun e => (e.1, f e.2)).foldl (fun sorted e => insertSorted e sorted)
          (sorted.map fun e => (e.1, f e.2)) =
        (entries.foldl (fun sorted e => insertSorted e sorted) sorted).map
          fun e => (e.1, f e.2) := by
    induction entries with
    | nil => exact fun _ => rfl
    | cons e entries ih =>
        intro sorted
        rw [List.map_cons, List.foldl_cons, List.foldl_cons, insertSorted_map, ih]
  exact hgo []

theorem insertSorted_perm {α : Type} (entry : String × α) (entries : List (String × α)) :
    (insertSorted entry entries).Perm (entry :: entries) := by
  induction entries with
  | nil => exact .refl _
  | cons e entries ih =>
      rw [insertSorted]
      split
      · exact .refl _
      · exact (ih.cons e).trans (.swap entry e entries)

/-- Sorting keeps the entries. -/
theorem sortEntries_perm {α : Type} (entries : List (String × α)) :
    (sortEntries entries).Perm entries := by
  have hgo : ∀ sorted : List (String × α),
      (entries.foldl (fun sorted e => insertSorted e sorted) sorted).Perm (sorted ++ entries) := by
    induction entries with
    | nil => simp
    | cons e entries ih =>
        intro sorted
        refine (ih _).trans ?_
        have hinsert := (insertSorted_perm e sorted).append_right entries
        exact hinsert.trans List.perm_middle.symm
  exact hgo []

/-! ## Plain data -/

/-- Data that JSON has a form for, with texts as keys, and those of a map all different. -/
inductive Plain (limited : Bool) : Data → Prop
  | null : Plain limited .null
  | bool (b : Bool) : Plain limited (.bool b)
  | int {n : Int} (h : Fits limited n) : Plain limited (.int n)
  | text (s : String) : Plain limited (.text s)
  | list {items : List Data} (h : ∀ d ∈ items, Plain limited d) : Plain limited (.list items)
  | map {fields : List (String × Data)} (distinct : (fields.map (·.1)).Nodup)
      (h : ∀ field ∈ fields, Plain limited field.2) : Plain limited (.ofFields fields)

def byKey (entries : List (Atom × Data)) : List (Atom × Data) :=
  (sortEntries (entries.map fun entry => (keyText entry.1, entry.2))).map fun entry =>
    (.text entry.1, entry.2)

mutual

/-- Data with the entries of every map in the order of their keys. -/
def sorted : Data → Data
  | atom a => atom a
  | list items => list (sortedAll items)
  | map entries => map (byKey (sortedEntries entries))

def sortedAll : List Data → List Data
  | [] => []
  | d :: ds => sorted d :: sortedAll ds

def sortedEntries : List (Atom × Data) → List (Atom × Data)
  | [] => []
  | (k, v) :: rest => (k, sorted v) :: sortedEntries rest

end

theorem sorted_list (items : List Data) : sorted (.list items) = .list (items.map sorted) := by
  have hall : sortedAll items = items.map sorted := by
    induction items with
    | nil => rfl
    | cons d ds ih => rw [sortedAll, ih, List.map_cons]
  rw [sorted, hall]

/-- A map is sorted by its keys, and so is each value in it. -/
theorem sorted_ofFields (fields : List (String × Data)) :
    sorted (.ofFields fields) =
      .ofFields ((sortEntries fields).map fun field => (field.1, sorted field.2)) := by
  have hentries : sortedEntries (fields.map fun field => (.text field.1, field.2)) =
      fields.map fun field => (.text field.1, sorted field.2) := by
    induction fields with
    | nil => rfl
    | cons field fields ih => rw [List.map_cons, sortedEntries, ih, List.map_cons]
  have hkeys : (fields.map fun field => (Atom.text field.1, sorted field.2)).map
      (fun entry => (keyText entry.1, entry.2)) =
        fields.map fun field => (field.1, sorted field.2) := by
    rw [List.map_map]
    rfl
  rw [ofFields, sorted, hentries, byKey, hkeys, sortEntries_map, ofFields]

theorem renderItems_eq (level : Nat) (items : List Data) :
    renderItems level items = items.map (renderAt level) := by
  induction items with
  | nil => rfl
  | cons d ds ih => rw [renderItems, ih, List.map_cons]

theorem renderEntries_fields (level : Nat) (fields : List (String × Data)) :
    renderEntries level (fields.map fun field => (.text field.1, field.2)) =
      fields.map fun field => (field.1, renderAt level field.2) := by
  induction fields with
  | nil => rfl
  | cons field fields ih => rw [List.map_cons, renderEntries, ih, List.map_cons, keyText]

/-- Plain data is read back from its text, with the keys of its maps sorted. -/
theorem Plain.reads {d : Data} (h : Plain limited d) (level : Nat) :
    Reads limited (renderAt level d) (sorted d) := by
  induction h generalizing level with
  | null => exact .null
  | bool b => exact .bool b
  | int h => exact .int h
  | text s => exact .text s
  | @list items h ih =>
      rw [renderAt, renderItems_eq, sorted_list]
      refine .list ?_
      rw [List.forall₂_map_left_iff, List.forall₂_map_right_iff, List.forall₂_same]
      exact fun d hd => ih d hd _
  | @map fields hdistinct h ih =>
      rw [sorted_ofFields, ofFields, renderAt, renderEntries_fields, sortEntries_map]
      refine .map ?_ ?_
      · rw [List.forall₂_map_left_iff, List.forall₂_map_right_iff, List.forall₂_same]
        exact fun field hfield => ⟨rfl, ih field ((sortEntries_perm fields).subset hfield) _⟩
      · rw [List.map_map]
        exact ((sortEntries_perm fields).map (·.1)).nodup_iff.mpr hdistinct

/-- **Plain data is read back from what is written**, with the entries of its maps in the order of
their keys. -/
theorem parseWith_render {d : Data} (h : Plain limited d) :
    parseWith limited (render d) = .ok (sorted d) := by
  have hread := h.reads 0
  have hskip : skip (render d).toList = renderAt 0 d := by
    rw [render, String.toList_ofList, ← List.append_nil (renderAt 0 d)]
    exact skip_of_starts hread.starts []
  have hscan : scanValue limited (2 * (render d).length + 2) (renderAt 0 d ++ []) =
      .ok (sorted d, []) := hread.scan .nil (by rw [render, String.length_ofList]; omega)
  rw [List.append_nil] at hscan
  rw [parseWith, hskip, hscan]
  rfl

end Data.Json

end Stylesheet
