import Mathlib
import Stylesheet.Proofs.Data.Yaml.Documents
import Stylesheet.Proofs.Text.Digit

/-!
# Written atoms are read back

A text without quotation marks is what its words or digits stand for: null, a truth value and an
integer are read as what they are, and every other text that is written plainly is read as itself.

* `Number.int_toDigits` : digits are read as the number that they write.
* `read_atomTree` : every atom is read back.
-/

namespace Stylesheet

/-! ## Integers -/

namespace Number

theorem digit?_of_isDigit {ch : Char} (h : ch.isDigit) :
    Literal.digit? 10 ch = some (ch.toNat - '0'.toNat) ∧ Literal.plain ch = ch ∧
      Literal.isSpace ch = false := by
  have hrange := Text.toNat_of_isDigit h
  have hle : '0' ≤ ch ∧ ch ≤ '9' := hrange
  have hspace : ch ≠ ' ' := by
    rintro rfl
    cases h
  have hvalue : Text.hexValue? ch = some (ch.toNat - 0x30) := by
    rw [Text.hexValue?, if_pos hle]
  refine ⟨?_, if_pos (by omega), ?_⟩
  · rw [Literal.digit?, hvalue, Option.filter_some, if_pos (by simp; omega)]
    rfl
  · simp [Literal.isSpace, hspace]
    omega

theorem foldl_digits {digits : List Char} (hdigits : ∀ ch ∈ digits, ch.isDigit) (n : Nat) :
    digits.foldl (fun (n : Int) ch => (10 : Nat) * n + (Literal.digit? 10 ch).getD 0) n =
      Nat.ofDigitChars 10 digits n := by
  induction digits generalizing n with
  | nil => rfl
  | cons ch digits ih =>
      rw [List.forall_mem_cons] at hdigits
      rw [List.foldl_cons, Nat.ofDigitChars_cons, ← ih hdigits.2, (digit?_of_isDigit hdigits.1).1]
      rfl

/-- Digits are read as the number that they write. -/
theorem int_toDigits {n : Nat} (h : (Nat.toDigits 10 n).length ≤ maxDigits) :
    int 10 (Nat.toDigits 10 n) = .ok n := by
  have hdigits : ∀ ch ∈ Nat.toDigits 10 n, ch.isDigit := fun ch hch =>
    Nat.isDigit_of_mem_toDigits (by decide) (by decide) hch
  obtain ⟨ch, cs, hcons, hch⟩ := Data.Json.toDigits_eq_cons n
  -- nothing of what a literal may have beside its digits is there
  have hplain : (Nat.toDigits 10 n).map Literal.plain = Nat.toDigits 10 n := by
    conv_rhs => rw [← List.map_id (Nat.toDigits 10 n)]
    exact List.map_congr_left fun ch hch => (digit?_of_isDigit (hdigits ch hch)).2.1
  have hspace : (Nat.toDigits 10 n).dropWhile Literal.isSpace = Nat.toDigits 10 n := by
    rw [hcons]
    exact List.dropWhile_cons_of_neg (by simp [(digit?_of_isDigit hch).2.2])
  have hsign : Literal.sign (Nat.toDigits 10 n) = (false, Nat.toDigits 10 n) := by
    rw [hcons]
    unfold Literal.sign
    split
    · next heq =>
      cases heq
      cases hch
    · next heq =>
      cases heq
      cases hch
    · rfl
  have hmark : Literal.withoutMark 10 (Nat.toDigits 10 n) = Nat.toDigits 10 n := by
    unfold Literal.withoutMark
    split
    · simp [Literal.baseLetter?]
    · rfl
  have hall : (Nat.toDigits 10 n).takeWhile (fun ch => (Literal.digit? 10 ch).isSome) =
      Nat.toDigits 10 n := by
    rw [List.takeWhile_eq_self_iff]
    exact fun ch hch => by rw [(digit?_of_isDigit (hdigits ch hch)).1]; rfl
  have hfold := foldl_digits hdigits 0
  rw [Nat.ofDigitChars_ten_toDigits] at hfold
  have hempty : (Nat.toDigits 10 n).isEmpty = false := by simp [Nat.toDigits_ne_nil]
  have hshort : ¬maxDigits < (Nat.toDigits 10 n).length := not_lt.mpr h
  rw [int]
  simp only [hplain, hspace, hsign, hmark, hall, hempty, Bool.false_eq_true, if_false, true_and,
    if_neg hshort, List.drop_length, List.all_nil, if_true]
  exact congrArg Except.ok hfold

end Number

namespace Data.Yaml

theorem kind_null : Kind.of "null".toList = .null := by decide +kernel

theorem kind_bool (b : Bool) : Kind.of (if b then "true" else "false").toList = .bool := by
  cases b <;> decide +kernel

def startsLikeNumber (cs : List Char) : Bool :=
  cs.head?.any fun ch => ch.isDigit || ch == '-'

/-- A text that starts like a number is none of the words that do not. -/
theorem not_mem_words {words : List String} {cs : List Char} (h : startsLikeNumber cs)
    (hwords : (words.all fun word => !startsLikeNumber word.toList) = true) :
    words.contains (String.ofList cs) = false := by
  rw [List.contains_eq_mem, decide_eq_false_iff_not]
  intro hmem
  have hnot := List.all_eq_true.mp hwords _ hmem
  rw [String.toList_ofList, h] at hnot
  cases hnot

theorem withoutSign_toString (n : Int) :
    withoutSign (toString n).toList = Nat.toDigits 10 n.natAbs := by
  obtain ⟨ch, cs, hcons, hch⟩ := Json.toDigits_eq_cons n.natAbs
  rw [Json.toList_toString]
  split
  · rfl
  · rw [hcons]
    unfold withoutSign
    split
    · next heq =>
      cases heq
      cases hch
    · next heq =>
      cases heq
      cases hch
    · rfl

theorem startsLikeNumber_toDigits (n : Nat) : startsLikeNumber (Nat.toDigits 10 n) := by
  obtain ⟨ch, cs, hcons, hch⟩ := Json.toDigits_eq_cons n
  simp [startsLikeNumber, hcons, hch]

theorem startsLikeNumber_toString (n : Int) : startsLikeNumber (toString n).toList := by
  rw [Json.toList_toString]
  split
  · rfl
  · exact startsLikeNumber_toDigits _

/-- Behind the first digit of a number there is nothing but digits. -/
theorem toDigits_eq_cons_dropWhile (n : Nat) :
    ∃ ch cs, Nat.toDigits 10 n = ch :: cs ∧ ch.isDigit ∧ cs.dropWhile isDigitOrMark = [] := by
  obtain ⟨ch, cs, hcons, hch⟩ := Json.toDigits_eq_cons n
  refine ⟨ch, cs, hcons, hch, ?_⟩
  rw [List.dropWhile_eq_nil_iff]
  intro ch' hch'
  have hdigit : ch'.isDigit := Nat.isDigit_of_mem_toDigits (b := 10) (n := n) (by decide) (by decide)
    (hcons ▸ List.mem_cons_of_mem _ hch')
  simp [isDigitOrMark, hdigit]

/-- No decimal integer is taken for a float. -/
theorem isFloat_toString (n : Int) : isFloat (toString n).toList = false := by
  have hstart := startsLikeNumber_toString n
  have hinfinity : infinityWords.contains (String.ofList (Nat.toDigits 10 n.natAbs)) = false :=
    not_mem_words (startsLikeNumber_toDigits _) (by decide +kernel)
  have hnone : noNumberWords.contains (String.ofList (toString n).toList) = false :=
    not_mem_words hstart (by decide +kernel)
  have hpoint : ∀ cs, (toString n).toList ≠ '.' :: cs := by
    intro cs heq
    rw [heq] at hstart
    cases hstart
  obtain ⟨ch, cs, hcons, hch, hdrop⟩ := toDigits_eq_cons_dropWhile n.natAbs
  unfold isFloat
  simp only [withoutSign_toString, hinfinity, hnone]
  split
  · next heq => exact absurd heq (hpoint _)
  · rw [hcons]
    simp [hdrop, areSixtieths]

theorem isInt_toString (n : Int) : isInt (toString n).toList = true := by
  obtain ⟨ch, cs, hcons, hch, hdrop⟩ := toDigits_eq_cons_dropWhile n.natAbs
  by_cases hzero : n.natAbs = 0
  · rw [Int.natAbs_eq_zero.mp hzero]
    rfl
  · have hhead := Json.head?_toDigits (Nat.pos_of_ne_zero hzero)
    rw [hcons] at hhead
    have hne : ch ≠ '0' := by simpa using hhead
    rw [isInt, withoutSign_toString, hcons]
    split
    · next heq => exact absurd (List.cons.inj heq).1 hne
    · next heq => exact absurd (List.cons.inj heq).1 hne
    · next heq => exact absurd (List.cons.inj heq).1 hne
    · next heq => exact absurd (List.cons.inj heq).1 hne
    · next heq =>
      cases heq
      simp [hch, hdrop]
    · next heq => cases heq

/-- The plain text of an integer is resolved to an integer. -/
theorem kind_toString (n : Int) : Kind.of (toString n).toList = .int := by
  have hstart := startsLikeNumber_toString n
  have hbreak : Kind.withoutBreak (toString n).toList = (toString n).toList := by
    refine if_neg fun h => ?_
    have hmem : '\n' ∈ (toString n).toList := List.mem_of_getLast? h.2
    have hink := ((isWord_toString n).1.ink _ hmem).1
    exact absurd hink (by decide)
  have hnull : nullWords.contains (String.ofList (toString n).toList) = false :=
    not_mem_words hstart (by decide +kernel)
  have htruth : isTruthWord (String.ofList (toString n).toList) = false := by
    rw [isTruthWord, List.any_eq_false]
    intro word hword
    have hall : ∀ word ∈ truthWords, (letterCases word.1).all fun cased =>
        !startsLikeNumber cased.toList := by decide +kernel
    rw [not_mem_words hstart (hall word hword)]
    exact Bool.false_ne_true
  rw [Kind.of]
  simp only [hbreak, hnull, htruth, isFloat_toString, isInt_toString, Bool.false_eq_true, if_false,
    if_true]

theorem signOf_toString (n : Int) :
    signOf (toString n).toList = .ok (decide (n < 0), Nat.toDigits 10 n.natAbs) := by
  obtain ⟨ch, cs, hcons, hch⟩ := Json.toDigits_eq_cons n.natAbs
  rw [Json.toList_toString]
  split
  · next hneg => simp [signOf, hneg]
  · next hneg =>
    rw [hcons, decide_eq_false hneg]
    unfold signOf
    split
    · next heq => cases heq
    · next heq =>
      cases heq
      cases hch
    · next heq =>
      cases heq
      cases hch
    · rfl

/-- An integer is read from its digits, if they are not too many. -/
theorem intOf_toString {n : Int} (h : Json.Fits true n) : intOf (toString n).toList = .ok n := by
  have hdigits : ∀ ch ∈ Nat.toDigits 10 n.natAbs, ch.isDigit := fun ch hch =>
    Nat.isDigit_of_mem_toDigits (by decide) (by decide) hch
  have hfilter : (toString n).toList.filter (· != '_') = (toString n).toList := by
    rw [List.filter_eq_self, Json.toList_toString]
    intro ch hch
    rw [bne_iff_ne]
    rintro rfl
    split at hch
    · rcases List.mem_cons.mp hch with heq | hch
      · cases heq
      · cases hdigits _ hch
    · cases hdigits _ hch
  have hbody : inBase 10 (Nat.toDigits 10 n.natAbs) = .ok (n.natAbs : Int) := by
    have hlength := h rfl
    rw [Nat.toString_eq_ofList_toDigits, String.length_ofList] at hlength
    rw [inBase, Number.int_toDigits hlength]
    rfl
  have hsign : (if decide (n < 0) = true then -(n.natAbs : Int) else n.natAbs) = n := by
    split
    · next hneg => have := of_decide_eq_true hneg; omega
    · next hneg => have := of_decide_eq_false (Bool.eq_false_iff.mpr hneg); omega
  rw [intOf, hfilter, signOf_toString]
  by_cases hzero : n.natAbs = 0
  · rw [Int.natAbs_eq_zero.mp hzero]
    rfl
  · obtain ⟨ch, cs, hcons, hch⟩ := Json.toDigits_eq_cons n.natAbs
    have hhead := Json.head?_toDigits (Nat.pos_of_ne_zero hzero)
    rw [hcons] at hhead
    -- a zero in front or a colon would make it a number in another base
    have hne : ch ≠ '0' := by simpa using hhead
    have hcolon : (Nat.toDigits 10 n.natAbs).contains ':' = false := by
      rw [List.contains_eq_mem, decide_eq_false_iff_not]
      intro hmem
      cases hdigits _ hmem
    rw [hcons] at hbody hcolon ⊢
    simp only [bind, Except.bind]
    split
    · next heq => cases heq
    · next heq => exact absurd (List.cons.inj heq).1 hne
    · next heq => exact absurd (List.cons.inj heq).1 hne
    · next heq => exact absurd (List.cons.inj heq).1 hne
    · next heq => exact absurd (List.cons.inj heq).1 hne
    · rw [hcolon]
      simp only [Bool.false_eq_true, if_false, hbody, hsign]
      rfl

/-- **Atoms.** What is written of an atom is read as the atom. -/
theorem read_atomTree {a : Atom} (h : Writable (.atom a)) :
    ∃ kind ∈ [Kind.null, .bool, .int, .text],
      atomTree a = .scalar kind (.chars (atomChars a)) ∧ kind.read (.chars (atomChars a)) = .ok a := by
  have of_plain {a : Atom} (kind : Kind) (hmem : kind ∈ [Kind.null, .bool, .int, .text])
      (hplain : isPlainAtom a) (hkind : Kind.of (atomChars a) = kind)
      (hread : kind.read (.chars (atomChars a)) = .ok a) :
      ∃ kind ∈ [Kind.null, .bool, .int, .text],
        atomTree a = .scalar kind (.chars (atomChars a)) ∧
          kind.read (.chars (atomChars a)) = .ok a :=
    ⟨kind, hmem, by rw [atomTree, if_pos hplain, hkind], hread⟩
  cases h with
  | null => exact of_plain .null (by simp) rfl kind_null rfl
  | bool b => exact of_plain .bool (by simp) rfl (kind_bool b) (by
      have hread : ∀ b, truthOf (if b then "true" else "false").toList = .ok b := by decide +kernel
      exact congrArg (Except.map Atom.bool) (hread b))
  | @int n hn =>
      refine of_plain .int (by simp) rfl (kind_toString n) ?_
      exact congrArg (Except.map Atom.int) (intOf_toString hn)
  | text s =>
      have hread : Kind.text.read (.chars s.toList) = .ok (.text s) := by
        rw [Kind.read, Written.atom, String.ofList_toList]
      by_cases hplain : isPlain s.toList
      · exact of_plain .text (by simp) hplain (Plain.isPlain_iff.mp hplain).1 hread
      · exact ⟨.text, by simp, by simp [atomTree, isPlainAtom, hplain], hread⟩

end Data.Yaml

end Stylesheet
