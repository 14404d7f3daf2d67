import Mathlib
import Stylesheet.Line.Shape
import Stylesheet.Proofs.Text.Pattern
import Stylesheet.Proofs.Text.Trim

/-!
# The grammar of attributes

Two patterns take attributes apart, one for each way of writing them, and a third one, which asks
for less, tells attributes from selectors. Patterns go back where they come to nothing; the
functions for lines find the same parts in one go, and a grammar without any choice describes them.

* `normalAttribute?_eq_groups`, `alternateAttribute?_eq_groups`,
  `Pattern.isSome_groups?_attributeStart` : the functions and the patterns.
* `normalAttribute?_eq_some_iff`, `alternateAttribute?_eq_some_iff` : the functions and the grammar.
* `AlternateForm.startsAsAttribute` : the grammar and the test for attributes.
-/

namespace Stylesheet

/-! ## The patterns -/

namespace Pattern

def char (c : Char) : Pattern :=
  .one (· == c)

/-- What has to follow a separator: blanks or the end. -/
def gap : Pattern :=
  .either (.oneOrMore Text.isBlank) .finish

/-- A value goes on to the end of the line. -/
def value : Pattern :=
  .group (.zeroOrMore (· != '\n'))

/-- The mark of a computed value, or nothing, and the value after a gap. -/
def marked : Pattern :=
  .seq (.group (.optional (char '='))) (.seq gap value)

/-- An attribute written `:name value` or `:name= expression`. -/
def normalAttribute : Pattern :=
  .seq (char ':') (.seq (.group (.oneOrMore isNameChar)) (.seq (.zeroOrMore Text.isBlank) marked))

/-- The separator between the name and the value of an attribute. -/
def separator : Pattern :=
  .either (.seq (.zeroOrMore Text.isBlank) (char '=')) (char ':')

/-- An attribute written `name: value` or `name = expression`. -/
def alternateAttribute : Pattern :=
  .seq (.group (.oneOrMore isNameChar)) (.seq (.group separator) (.seq gap value))

/-- A separator with a gap after it. -/
def mark : Pattern :=
  .seq (.one fun c => c == '=' || c == ':') (.either (.one Text.isBlank) .finish)

/-- How an attribute starts that is written with its name first. -/
def attributeStart : Pattern :=
  .seq (.oneOrMore isStemChar) (.seq (.zeroOrMore Text.isBlank) mark)

end Pattern

def AttributeParts.ofGroups? : List (List Char) → Option AttributeParts
  | [name, separator, value] => some ⟨name, (Text.trim separator).head? == some '=', value⟩
  | _ => none

/-- What follows the equals sign of a text, if a gap is there. Blanks may come before the sign. -/
def afterEquals? (cs : List Char) : Option (List Char) :=
  match Text.trimStart cs with
  | '=' :: after => if Text.atGap after then some after else none
  | _ => none

/-- What follows the colon that a text starts with, if a gap is there. -/
def afterColon? (cs : List Char) : Option (List Char) :=
  match cs with
  | ':' :: after => if Text.atGap after then some after else none
  | _ => none

def atMark (cs : List Char) : Bool :=
  match cs with
  | c :: after => (c == '=' || c == ':') && Text.atGap after
  | [] => false

section Gaps

open Text

variable {c : Char} {cs name rest after : List Char}

theorem atGap_eq_false (hc : isBlank c = false) (cs : List Char) : atGap (c :: cs) = false := hc

theorem stops_trimStart (cs : List Char) : ∀ c ∈ (trimStart cs).head?, isBlank c = false :=
  (isRun_takeWhile isBlank cs).stops

theorem isBlank_eq_false_of_isNameChar (h : isNameChar c = true) : isBlank c = false := by
  simp only [isNameChar, Bool.and_eq_true, Bool.not_eq_true'] at h
  exact h.1.1

theorem ne_equals_of_isNameChar (h : isNameChar c = true) : c ≠ '=' := by
  simp only [isNameChar, Bool.and_eq_true, bne_iff_ne] at h
  exact h.1.2

theorem ne_colon_of_isNameChar (h : isNameChar c = true) : c ≠ ':' := by
  simp only [isNameChar, Bool.and_eq_true, bne_iff_ne] at h
  exact h.2

theorem isBlank_eq_false_of_isStemChar (h : isStemChar c = true) : isBlank c = false := by
  simp only [isStemChar, Bool.and_eq_true, Bool.not_eq_true'] at h
  exact h.1

theorem ne_colon_of_isStemChar (h : isStemChar c = true) : c ≠ ':' := by
  simp only [isStemChar, Bool.and_eq_true, bne_iff_ne] at h
  exact h.2

/-- A text starts as an attribute by what follows its stem. -/
theorem startsAsAttribute_of_isRun {stem : List Char} (h : IsRun isStemChar stem rest) :
    startsAsAttribute (stem ++ rest) =
      (!stem.isEmpty && (atMark (trimStart rest) ||
        (2 ≤ stem.length && stem.getLast? == some '=' && atGap rest))) := by
  unfold startsAsAttribute
  rw [h.takeWhile_eq, h.dropWhile_eq]
  rfl

theorem afterEquals?_of_equals (h : trimStart cs = '=' :: after) :
    afterEquals? cs = if atGap after then some after else none := by
  rw [afterEquals?, h]
  rfl

theorem afterEquals?_eq_none (h : ∀ after, trimStart cs ≠ '=' :: after) :
    afterEquals? cs = none := by
  unfold afterEquals?
  split
  · next after hafter => exact absurd hafter (h after)
  · rfl

/-- An equals sign counts only before a gap. -/
theorem afterEquals?_eq_some_iff :
    afterEquals? cs = some after ↔ trimStart cs = '=' :: after ∧ atGap after = true := by
  constructor
  · intro h
    unfold afterEquals? at h
    split at h
    · next left hleft =>
        split at h
        · next hgap =>
            cases h
            exact ⟨hleft, hgap⟩
        · cases h
    · cases h
  · rintro ⟨hafter, hgap⟩
    rw [afterEquals?_of_equals hafter, if_pos hgap]

theorem afterEquals?_trimStart (cs : List Char) :
    afterEquals? (trimStart cs) = afterEquals? cs := by
  rw [afterEquals?, afterEquals?, trimStart_of_stops (stops_trimStart cs)]

theorem afterEquals?_cons (hc : isBlank c = false) (hne : c ≠ '=') (cs : List Char) :
    afterEquals? (c :: cs) = none := by
  refine afterEquals?_eq_none fun after hafter => ?_
  rw [trimStart_cons hc] at hafter
  cases hafter
  exact hne rfl

theorem afterColon?_eq_none (h : ∀ after, cs ≠ ':' :: after) : afterColon? cs = none := by
  unfold afterColon?
  split
  · next after => exact absurd rfl (h after)
  · rfl

/-- A colon counts only before a gap. -/
theorem afterColon?_eq_some_iff :
    afterColon? cs = some after ↔ cs = ':' :: after ∧ atGap after = true := by
  constructor
  · intro h
    unfold afterColon? at h
    split at h
    · split at h
      · next hgap =>
          cases h
          exact ⟨rfl, hgap⟩
      · cases h
    · cases h
  · rintro ⟨rfl, hgap⟩
    exact if_pos hgap

end Gaps

/-! ## What the patterns take -/

namespace Pattern

open Text

variable {c : Char} {cs name rest : List Char}

theorem ways_char (c : Char) (cs : List Char) : (char c).ways (c :: cs) = [⟨[c], [], cs⟩] :=
  ways_one_cons (beq_self_eq_true c) cs

theorem ways_char_of_ne (h : ∀ after, cs ≠ c :: after) : (char c).ways cs = [] := by
  refine ways_one_of_stops fun d hd => beq_eq_false_iff_ne.mpr ?_
  rintro rfl
  obtain ⟨after, rfl⟩ := List.head?_eq_some_iff.mp hd
  exact h after rfl

theorem groups?_value (cs : List Char) : value.groups? cs = some [firstLine cs] :=
  groups?_group_zeroOrMore _ cs

theorem ways_finish_cons (hc : isBlank c = false) (cs : List Char) :
    finish.ways (c :: cs) = [] := by
  refine if_neg ?_
  rintro (h | h)
  · cases h
  · cases h
    exact absurd hc (by decide)

/-- A value is what follows a gap, up to the end of the line. -/
theorem groups?_gap_value (cs : List Char) :
    (seq gap value).groups? cs = if atGap cs then some [firstLine (trimStart cs)] else none := by
  rw [groups?_seq_of_total groups?_value, gap, ways_either, List.head?_append]
  cases cs with
  | nil => rfl
  | cons c cs =>
      by_cases hc : isBlank c = true
      · rw [ways_oneOrMore_cons hc, List.head?_map, head?_runs, if_pos (by exact hc),
          trimStart_cons_of_isBlank hc]
        rfl
      · have hc : isBlank c = false := Bool.eq_false_iff.mpr hc
        rw [ways_oneOrMore_of_stops fun d hd => Option.some.inj hd ▸ hc, ways_finish_cons hc,
          atGap_eq_false hc]
        rfl

theorem ways_mark (h : c ≠ '=') (cs : List Char) :
    (group (optional (char '='))).ways (c :: cs) = [⟨[], [[]], c :: cs⟩] := by
  rw [ways_group, ways_optional, ways_char_of_ne fun after heq => h (List.cons.inj heq).1]
  rfl

/-- Where blanks have been taken, a computed value is preferred to any other. -/
theorem groups?_marked_of_stops (h : ∀ c ∈ cs.head?, isBlank c = false) :
    marked.groups? cs =
      ((afterEquals? cs).map fun after => [['='], firstLine (trimStart after)]).or
        (if atGap cs then some [[], firstLine (trimStart cs)] else none) := by
  cases cs with
  | nil => rfl
  | cons c cs =>
      have hc := h c rfl
      have hgap : atGap (c :: cs) = false := hc
      by_cases heq : c = '='
      · subst heq
        have hways : (group (optional (char '='))).ways ('=' :: cs) =
            [⟨['='], [['=']], cs⟩, ⟨[], [[]], '=' :: cs⟩] := rfl
        rw [marked, groups?_seq, hways, List.findSome?_cons, List.findSome?_singleton,
          groups?_gap_value, groups?_gap_value, hgap, afterEquals?, trimStart_cons hc]
        by_cases hafter : atGap cs = true <;> simp [hafter]
      · rw [marked, groups?_seq, ways_mark heq, List.findSome?_singleton, groups?_gap_value, hgap,
          afterEquals?_cons hc heq]
        rfl

theorem groups?_marked_cons_of_isBlank (hc : isBlank c = true) (cs : List Char) :
    marked.groups? (c :: cs) = some [[], firstLine (trimStart (c :: cs))] := by
  have hne : c ≠ '=' := by
    rintro rfl
    exact absurd hc (by decide)
  rw [marked, groups?_seq, ways_mark hne, List.findSome?_singleton, groups?_gap_value,
    if_pos (by exact hc)]
  rfl

/-- What the pattern of attributes with the colon first takes after a name. -/
theorem groups?_blanks_marked (cs : List Char) :
    (seq (zeroOrMore isBlank) marked).groups? cs =
      ((afterEquals? cs).map fun after => [['='], firstLine (trimStart after)]).or
        (if atGap cs then some [[], firstLine (trimStart cs)] else none) := by
  have hrun : IsRun isBlank (cs.takeWhile isBlank) (trimStart cs) := isRun_takeWhile isBlank cs
  have hcut : cs.takeWhile isBlank ++ trimStart cs = cs := List.takeWhile_append_dropWhile
  rw [groups?_zeroOrMore_seq]
  rcases List.eq_nil_or_concat (cs.takeWhile isBlank) with hnil | ⟨run, b, hconcat⟩
  · -- without blanks, there is one way
    rw [hnil, List.nil_append] at hcut
    have hstops := stops_trimStart cs
    rw [hcut] at hstops
    rw [runs_of_stops hstops, List.findSome?_singleton, groups?_marked_of_stops hstops]
  · -- otherwise the last blank is given back if no gap follows it
    rw [List.concat_eq_append] at hconcat
    rw [hconcat] at hrun hcut
    have hb : isBlank b = true := hrun.all b (by simp)
    have hgap : atGap cs = true := by
      rw [← hcut]
      cases run with
      | nil => exact hb
      | cons d run => exact hrun.all d (by simp)
    obtain ⟨shorter, hruns, -⟩ := runs_append_cons hrun
    rw [List.append_assoc, List.singleton_append] at hcut
    rw [hcut] at hruns
    rw [hruns, List.findSome?_cons, groups?_marked_of_stops hrun.stops, afterEquals?_trimStart,
      trimStart_of_stops hrun.stops, if_pos hgap, List.findSome?_cons,
      groups?_marked_cons_of_isBlank hb, trimStart_cons_of_isBlank hb,
      trimStart_of_stops hrun.stops]
    cases afterEquals? cs with
    | some after => rfl
    | none => by_cases hend : atGap (trimStart cs) = true <;> simp [hend]

/-- The normal pattern tries the equals sign first, and a gap after it. -/
theorem groups?_normalAttribute (h : IsRun isNameChar name rest) :
    normalAttribute.groups? (':' :: (name ++ rest)) =
      if name = [] then none else
        ((afterEquals? rest).map fun after => [name, ['='], firstLine (trimStart after)]).or
          (if atGap rest then some [name, [], firstLine (trimStart rest)] else none) := by
  have hnone : ∀ c after, isNameChar c = true →
      (seq (zeroOrMore isBlank) marked).groups? (c :: after) = none := by
    intro c after hc
    have hblank := isBlank_eq_false_of_isNameChar hc
    rw [groups?_blanks_marked, afterEquals?_cons hblank (ne_equals_of_isNameChar hc),
      atGap_eq_false hblank]
    rfl
  rw [normalAttribute, char, groups?_one_seq_cons (p := (· == ':')) _ rfl,
    groups?_group_oneOrMore_seq h hnone, groups?_blanks_marked]
  by_cases hname : name = []
  · rw [if_pos hname, if_pos hname]
  · rw [if_neg hname, if_neg hname, Option.map_or, Option.map_map]
    by_cases hgap : atGap rest = true
    · rw [if_pos hgap, if_pos hgap]
      rfl
    · rw [if_neg hgap, if_neg hgap]
      rfl

/-- Blanks before an equals sign are all taken. -/
theorem findSome?_ways_blanks_equals {α : Type} (k : Way → Option α) (cs : List Char) :
    ((seq (zeroOrMore isBlank) (char '=')).ways cs).findSome? k =
      ((char '=').ways (trimStart cs)).findSome? fun way =>
        k ⟨cs.takeWhile isBlank ++ way.taken, way.groups, way.rest⟩ := by
  have hrun : IsRun isBlank (cs.takeWhile isBlank) (trimStart cs) := isRun_takeWhile isBlank cs
  have hcut : cs.takeWhile isBlank ++ trimStart cs = cs := List.takeWhile_append_dropWhile
  rw [findSome?_ways_seq, ways_zeroOrMore, List.findSome?_map]
  conv_lhs => rw [← hcut]
  refine findSome?_runs hrun fun taken b after hb => ?_
  have hne : ∀ later, b :: after ≠ '=' :: later := by
    intro later heq
    cases heq
    exact absurd hb (by decide)
  rw [Function.comp_apply, ways_char_of_ne hne]
  rfl

/-- What the pattern of attributes with the name first takes after the name. -/
theorem groups?_separated (cs : List Char) :
    (seq (group separator) (seq gap value)).groups? cs =
      ((afterEquals? cs).map fun after =>
        [cs.takeWhile isBlank ++ ['='], firstLine (trimStart after)]).or
      ((afterColon? cs).map fun after => [[':'], firstLine (trimStart after)]) := by
  rw [groups?_seq, separator, ways_group, ways_either, List.findSome?_map, List.findSome?_append,
    findSome?_ways_blanks_equals]
  congr 1
  · unfold afterEquals?
    split
    · next after hafter =>
        rw [hafter, ways_char, List.findSome?_singleton, Function.comp_apply, groups?_gap_value]
        by_cases hgap : atGap after = true <;> simp [hgap]
    · next hnone =>
        rw [ways_char_of_ne hnone]
        rfl
  · unfold afterColon?
    split
    · next after =>
        rw [ways_char, List.findSome?_singleton, Function.comp_apply, groups?_gap_value]
        by_cases hgap : atGap after = true <;> simp [hgap]
    · next hnone =>
        rw [ways_char_of_ne hnone]
        rfl

/-- The alternate pattern tries the equals sign first, and the colon after it. -/
theorem groups?_alternateAttribute (h : IsRun isNameChar name rest) :
    alternateAttribute.groups? (name ++ rest) =
      if name = [] then none else
        ((afterEquals? rest).map fun after =>
          [name, rest.takeWhile isBlank ++ ['='], firstLine (trimStart after)]).or
        ((afterColon? rest).map fun after => [name, [':'], firstLine (trimStart after)]) := by
  have hnone : ∀ c after, isNameChar c = true →
      (seq (group separator) (seq gap value)).groups? (c :: after) = none := by
    intro c after hc
    rw [groups?_separated,
      afterEquals?_cons (isBlank_eq_false_of_isNameChar hc) (ne_equals_of_isNameChar hc),
      afterColon?_eq_none fun _ heq => ne_colon_of_isNameChar hc (List.cons.inj heq).1]
    rfl
  rw [alternateAttribute, groups?_group_oneOrMore_seq h hnone, groups?_separated]
  by_cases hname : name = []
  · rw [if_pos hname, if_pos hname]
  · rw [if_neg hname, if_neg hname, Option.map_or, Option.map_map, Option.map_map]
    rfl

theorem groups?_mark (cs : List Char) :
    mark.groups? cs = if atMark cs then some [] else none := by
  have hgap : ∀ after,
      (either (one isBlank) finish).groups? after = if atGap after then some [] else none := by
    intro after
    cases after with
    | nil => rfl
    | cons c after =>
        by_cases hc : isBlank c = true
        · have hgap : atGap (c :: after) = true := hc
          rw [groups?, ways_either, ways_one_cons hc, if_pos hgap]
          rfl
        · have hc : isBlank c = false := Bool.eq_false_iff.mpr hc
          rw [groups?, ways_either, ways_one_of_stops fun d hd => Option.some.inj hd ▸ hc,
            ways_finish_cons hc, atGap_eq_false hc]
          rfl
  cases cs with
  | nil => rfl
  | cons c after =>
      by_cases hc : (c == '=' || c == ':') = true
      · rw [mark, groups?_one_seq_cons _ hc, hgap, atMark, hc, Bool.true_and]
      · rw [mark, groups?_seq_of_ways_nil (ways_one_of_stops (by simpa using hc)), if_neg]
        rw [atMark, Bool.eq_false_iff.mpr hc, Bool.false_and]
        exact Bool.false_ne_true

/-- A mark is looked for behind all blanks. -/
theorem groups?_blanks_mark (cs : List Char) :
    (seq (zeroOrMore isBlank) mark).groups? cs =
      if atMark (trimStart cs) then some [] else none := by
  have hrun : IsRun isBlank (cs.takeWhile isBlank) (trimStart cs) := isRun_takeWhile isBlank cs
  have hcut : cs.takeWhile isBlank ++ trimStart cs = cs := List.takeWhile_append_dropWhile
  rw [groups?_zeroOrMore_seq]
  conv_lhs => rw [← hcut]
  rw [findSome?_runs hrun, groups?_mark]
  intro taken b after hb
  have hmark : (b == '=' || b == ':') = false := by
    rw [Bool.or_eq_false_iff, beq_eq_false_iff_ne, beq_eq_false_iff_ne]
    constructor
    · rintro rfl
      exact absurd hb (by decide)
    · rintro rfl
      exact absurd hb (by decide)
  rw [groups?_mark, atMark, hmark, Bool.false_and]
  rfl

/-- No mark starts within the stem of an attribute, but at the equals sign that may end it. -/
theorem groups?_blanks_mark_of_isStemChar (hc : isStemChar c = true) (cs : List Char) :
    (seq (zeroOrMore isBlank) mark).groups? (c :: cs) =
      if c == '=' && atGap cs then some [] else none := by
  have hne : (c == ':') = false := beq_eq_false_iff_ne.mpr (ne_colon_of_isStemChar hc)
  rw [groups?_blanks_mark, trimStart_cons (isBlank_eq_false_of_isStemChar hc), atMark, hne,
    Bool.or_false]

/-- The equals sign of an attribute may be the last character that was taken for its stem. -/
theorem isSome_groups?_attributeStart (cs : List Char) :
    (attributeStart.groups? cs).isSome = startsAsAttribute cs := by
  obtain ⟨stem, rest, rfl, hrun⟩ := exists_isRun isStemChar cs
  rw [startsAsAttribute_of_isRun hrun]
  cases stem with
  | nil =>
      rw [List.nil_append, attributeStart,
        groups?_seq_of_ways_nil (ways_oneOrMore_of_stops hrun.stops)]
      rfl
  | cons c run =>
      rw [List.cons_append, attributeStart, groups?_oneOrMore_seq _ (hrun.all c List.mem_cons_self)]
      have htail : IsRun isStemChar run rest :=
        ⟨fun d hd => hrun.all d (List.mem_cons_of_mem _ hd), hrun.stops⟩
      rcases List.eq_nil_or_concat run with rfl | ⟨run, d, rfl⟩
      · rw [List.nil_append, runs_of_stops hrun.stops, List.findSome?_singleton,
          groups?_blanks_mark]
        cases atMark (trimStart rest) <;> rfl
      · rw [List.concat_eq_append] at htail ⊢
        have hd : isStemChar d = true := htail.all d (by simp)
        obtain ⟨shorter, hruns, hshorter⟩ := runs_append_cons htail
        -- a stem that is cut shorter leaves two of its characters, and the second is no gap
        have hfew : shorter.findSome?
            (fun cut => (seq (zeroOrMore isBlank) mark).groups? cut.2) = none := by
          rw [List.findSome?_eq_none_iff]
          intro cut hcut
          obtain ⟨e, f, after, hafter, he, hf⟩ := hshorter cut hcut
          rw [hafter, groups?_blanks_mark_of_isStemChar he,
            atGap_eq_false (isBlank_eq_false_of_isStemChar hf), Bool.and_false]
          rfl
        rw [List.append_assoc, List.singleton_append, hruns, List.findSome?_cons,
          List.findSome?_cons, hfew, groups?_blanks_mark, groups?_blanks_mark_of_isStemChar hd]
        have hlast : (c :: run ++ [d]).getLast? = some d := List.getLast?_concat
        rw [List.cons_append] at hlast
        have hlength : decide (2 ≤ (c :: (run ++ [d])).length) = true := by simp
        have hequals : (some d == some '=') = (d == '=') := rfl
        rw [hlast, hlength, hequals]
        cases atMark (trimStart rest) <;> cases d == '=' <;> cases atGap rest <;> rfl

end Pattern

/-! ## What the functions find -/

section Functions

open Text

variable {name rest : List Char}

/-- The normal splitter takes the longest name and then what follows it. -/
theorem normalAttribute?_of_isRun (h : IsRun isNameChar name rest) :
    normalAttribute? (':' :: (name ++ rest)) =
      if name = [] then none else
        ((afterEquals? rest).map fun after => ⟨name, true, firstLine (trimStart after)⟩).or
          (if atGap rest then some ⟨name, false, firstLine (trimStart rest)⟩ else none) := by
  rw [normalAttribute?, h.takeWhile_eq, h.dropWhile_eq]
  by_cases hname : name = []
  · rw [if_pos hname, hname]
    rfl
  · rw [if_neg hname, if_neg (mt List.isEmpty_iff.mp hname)]
    split
    · next after hafter =>
        rw [afterEquals?_of_equals hafter]
        by_cases hgap : atGap after = true <;> simp [hgap]
    · next hnone =>
        rw [afterEquals?_eq_none hnone]
        rfl

/-- The alternate splitter takes the longest name and then what follows it. -/
theorem alternateAttribute?_of_isRun (h : IsRun isNameChar name rest) :
    alternateAttribute? (name ++ rest) =
      if name = [] then none else
        ((afterEquals? rest).map fun after => ⟨name, true, firstLine (trimStart after)⟩).or
          ((afterColon? rest).map fun after => ⟨name, false, firstLine (trimStart after)⟩) := by
  rw [alternateAttribute?, h.takeWhile_eq, h.dropWhile_eq]
  by_cases hname : name = []
  · rw [if_pos hname, hname]
    rfl
  · rw [if_neg hname, if_neg (mt List.isEmpty_iff.mp hname)]
    split
    · next after =>
        rw [afterEquals?_cons (by decide) (by decide), afterColon?]
        by_cases hgap : atGap after = true <;> simp [hgap]
    · next after hcolon hafter =>
        rw [afterEquals?_of_equals hafter, afterColon?_eq_none hcolon]
        by_cases hgap : atGap after = true <;> simp [hgap]
    · next hcolon hequals =>
        rw [afterEquals?_eq_none hequals, afterColon?_eq_none hcolon]
        rfl

theorem normalAttribute?_eq_none {text : List Char} (h : ∀ cs, text ≠ ':' :: cs) :
    normalAttribute? text = none := by
  unfold normalAttribute?
  split
  · next cs => exact absurd rfl (h cs)
  · rfl

/-- The function for attributes with the colon first finds what the pattern takes. -/
theorem normalAttribute?_eq_groups (text : List Char) :
    normalAttribute? text =
      (Pattern.normalAttribute.groups? text).bind AttributeParts.ofGroups? := by
  by_cases hcolon : ∃ cs, text = ':' :: cs
  · obtain ⟨cs, rfl⟩ := hcolon
    obtain ⟨name, rest, rfl, hrun⟩ := exists_isRun isNameChar cs
    rw [normalAttribute?_of_isRun hrun, Pattern.groups?_normalAttribute hrun]
    split
    · rfl
    · cases afterEquals? rest with
      | some after => rfl
      | none => by_cases hgap : atGap rest = true <;> simp only [hgap] <;> rfl
  · have hways : (Pattern.char ':').ways text = [] :=
      Pattern.ways_char_of_ne fun cs heq => hcolon ⟨cs, heq⟩
    rw [Pattern.normalAttribute, Pattern.groups?_seq_of_ways_nil hways,
      normalAttribute?_eq_none fun cs heq => hcolon ⟨cs, heq⟩]
    rfl

theorem trim_blanks_equals {blanks : List Char} (h : blanks.all isBlank = true) :
    trim (blanks ++ ['=']) = ['='] := by
  rw [trim, trimStart_append_of_blank h]
  rfl

/-- The function for attributes with the name first finds what the pattern takes. -/
theorem alternateAttribute?_eq_groups (text : List Char) :
    alternateAttribute? text =
      (Pattern.alternateAttribute.groups? text).bind AttributeParts.ofGroups? := by
  obtain ⟨name, rest, rfl, hrun⟩ := exists_isRun isNameChar text
  rw [alternateAttribute?_of_isRun hrun, Pattern.groups?_alternateAttribute hrun]
  split
  · rfl
  · cases afterEquals? rest with
    | some after =>
        have hequals := trim_blanks_equals (List.all_takeWhile (p := isBlank) (l := rest))
        rw [Option.map_some, Option.map_some, Option.some_or, Option.some_or, Option.bind_some,
          AttributeParts.ofGroups?, hequals]
        rfl
    | none => cases afterColon? rest <;> rfl

end Functions

/-! ## The grammar -/

/-- Attributes written with the colon first. The name is a run of name characters, as long as it can
be. An equals sign with a gap after it marks a computed value; the value of any other attribute is
all that follows the gap after its name. -/
inductive NormalForm : List Char → AttributeParts → Prop
  | computed {name rest after : List Char} (run : IsRun isNameChar name rest) (named : name ≠ [])
      (equals : Text.trimStart rest = '=' :: after) (gap : Text.atGap after = true) :
      NormalForm (':' :: (name ++ rest)) ⟨name, true, Text.trimStart after⟩
  | plain {name rest : List Char} (run : IsRun isNameChar name rest) (named : name ≠ [])
      (unmarked : ∀ after, Text.trimStart rest = '=' :: after → Text.atGap after = false)
      (gap : Text.atGap rest = true) :
      NormalForm (':' :: (name ++ rest)) ⟨name, false, Text.trimStart rest⟩

/-- Attributes written with the name first. -/
inductive AlternateForm : List Char → AttributeParts → Prop
  | plain {name after : List Char} (run : IsRun isNameChar name (':' :: after)) (named : name ≠ [])
      (gap : Text.atGap after = true) :
      AlternateForm (name ++ ':' :: after) ⟨name, false, Text.trimStart after⟩
  | computed {name rest after : List Char} (run : IsRun isNameChar name rest) (named : name ≠ [])
      (equals : Text.trimStart rest = '=' :: after) (gap : Text.atGap after = true) :
      AlternateForm (name ++ rest) ⟨name, true, Text.trimStart after⟩

section Grammar

open Text

variable {text name rest after : List Char} {parts : AttributeParts}

/-- A text without line breaks is its own first line, and so is what is left of it. -/
theorem firstLine_of_suffix (hline : '\n' ∉ text) (h : rest <:+ text) : firstLine rest = rest := by
  refine List.takeWhile_eq_self_iff.mpr fun c hc => ?_
  rw [bne_iff_ne]
  rintro rfl
  exact hline (h.subset hc)

theorem trimStart_suffix (cs : List Char) : trimStart cs <:+ cs :=
  List.dropWhile_suffix isBlank

theorem suffix_of_equals (h : trimStart rest = '=' :: after) : trimStart after <:+ rest := by
  have hcons := trimStart_suffix rest
  rw [h] at hcons
  exact (trimStart_suffix after).trans ((List.suffix_cons '=' after).trans hcons)

/-- The normal splitter accepts exactly the normal form. -/
theorem normalAttribute?_eq_some_iff (hline : '\n' ∉ text) :
    normalAttribute? text = some parts ↔ NormalForm text parts := by
  -- the pattern takes the value up to the end of the line, which is all of it
  have hvalue : ∀ {value name rest : List Char}, text = ':' :: (name ++ rest) → value <:+ rest →
      firstLine value = value := by
    rintro value name rest rfl hsuffix
    exact firstLine_of_suffix hline
      (hsuffix.trans ((List.suffix_append name rest).trans (List.suffix_cons ':' _)))
  constructor
  · intro h
    have hcolon : ∃ cs, text = ':' :: cs := by
      by_contra hne
      rw [normalAttribute?_eq_none fun cs heq => hne ⟨cs, heq⟩] at h
      cases h
    obtain ⟨cs, rfl⟩ := hcolon
    obtain ⟨name, rest, rfl, hrun⟩ := exists_isRun isNameChar cs
    rw [normalAttribute?_of_isRun hrun] at h
    split at h
    · cases h
    · next named =>
        -- the equals sign is tried first
        rcases Option.or_eq_some_iff.mp h with h | ⟨hnone, h⟩
        · obtain ⟨after, hafter, rfl⟩ := Option.map_eq_some_iff.mp h
          obtain ⟨equals, gap⟩ := afterEquals?_eq_some_iff.mp hafter
          rw [hvalue rfl (suffix_of_equals equals)]
          exact .computed hrun named equals gap
        · split at h
          · next gap =>
              cases h
              rw [hvalue rfl (trimStart_suffix rest)]
              refine .plain hrun named (fun after equals => ?_) gap
              rw [Option.map_eq_none_iff, afterEquals?_of_equals equals] at hnone
              simpa using hnone
          · cases h
  · intro h
    cases h with
    | computed run named equals gap =>
        rw [normalAttribute?_of_isRun run, if_neg named,
          afterEquals?_eq_some_iff.mpr ⟨equals, gap⟩, Option.map_some, Option.some_or,
          hvalue rfl (suffix_of_equals equals)]
    | @plain name rest run named unmarked gap =>
        have hnone : afterEquals? rest = none := by
          cases hafter : afterEquals? rest with
          | none => rfl
          | some after =>
              obtain ⟨hequals, hgap⟩ := afterEquals?_eq_some_iff.mp hafter
              rw [unmarked after hequals] at hgap
              cases hgap
        rw [normalAttribute?_of_isRun run, if_neg named, hnone, if_pos gap,
          hvalue rfl (trimStart_suffix rest)]
        rfl

/-- The alternate splitter accepts exactly the alternate form. -/
theorem alternateAttribute?_eq_some_iff (hline : '\n' ∉ text) :
    alternateAttribute? text = some parts ↔ AlternateForm text parts := by
  have hvalue : ∀ {value name rest : List Char}, text = name ++ rest → value <:+ rest →
      firstLine value = value := by
    rintro value name rest rfl hsuffix
    exact firstLine_of_suffix hline (hsuffix.trans (List.suffix_append name rest))
  constructor
  · intro h
    obtain ⟨name, rest, rfl, hrun⟩ := exists_isRun isNameChar text
    rw [alternateAttribute?_of_isRun hrun] at h
    split at h
    · cases h
    · next named =>
        -- an equals sign and a colon exclude each other, so the order is free
        rcases Option.or_eq_some_iff.mp h with h | ⟨-, h⟩
        · obtain ⟨after, hafter, rfl⟩ := Option.map_eq_some_iff.mp h
          obtain ⟨equals, gap⟩ := afterEquals?_eq_some_iff.mp hafter
          rw [hvalue rfl (suffix_of_equals equals)]
          exact .computed hrun named equals gap
        · obtain ⟨after, hafter, rfl⟩ := Option.map_eq_some_iff.mp h
          obtain ⟨rfl, gap⟩ := afterColon?_eq_some_iff.mp hafter
          rw [hvalue rfl ((trimStart_suffix after).trans (List.suffix_cons ':' after))]
          exact .plain hrun named gap
  · intro h
    cases h with
    | @plain name after run named gap =>
        rw [alternateAttribute?_of_isRun run, if_neg named,
          afterEquals?_cons (by decide) (by decide), afterColon?_eq_some_iff.mpr ⟨rfl, gap⟩,
          Option.map_some, hvalue rfl ((trimStart_suffix after).trans (List.suffix_cons ':' after))]
        rfl
    | computed run named equals gap =>
        rw [alternateAttribute?_of_isRun run, if_neg named,
          afterEquals?_eq_some_iff.mpr ⟨equals, gap⟩, Option.map_some, Option.some_or,
          hvalue rfl (suffix_of_equals equals)]

/-- What the grammar of attributes takes is told from a selector. -/
theorem AlternateForm.startsAsAttribute (h : AlternateForm text parts) :
    startsAsAttribute text = true := by
  -- every character of a name is one of a stem
  have hstem : ∀ {name : List Char}, (∀ c ∈ name, isNameChar c = true) →
      ∀ c ∈ name, isStemChar c = true := by
    intro name hname c hc
    have hc := hname c hc
    simp only [isNameChar, isStemChar, Bool.and_eq_true] at hc ⊢
    exact ⟨hc.1.1, hc.2⟩
  have hgaps : ∀ {cs : List Char}, atGap cs = true → ∀ c ∈ cs.head?, isStemChar c = false := by
    intro cs hgap c hc
    obtain ⟨rest, rfl⟩ := List.head?_eq_some_iff.mp hc
    have hblank : isBlank c = true := hgap
    rw [isStemChar, hblank]
    rfl
  cases h with
  | @plain name after run named gap =>
      have hstops : ∀ c ∈ (':' :: after).head?, isStemChar c = false := by
        intro c hc
        rw [← Option.some.inj hc]
        rfl
      have hrun : IsRun isStemChar name (':' :: after) := ⟨hstem run.all, hstops⟩
      have hmark : atMark (trimStart (':' :: after)) = true := gap
      rw [startsAsAttribute_of_isRun hrun, hmark]
      simpa using named
  | @computed name rest after run named equals gap =>
      by_cases hgap : atGap rest = true
      · -- blanks come before the equals sign
        have hmark : atMark (trimStart rest) = true := by
          rw [equals]
          exact gap
        rw [startsAsAttribute_of_isRun ⟨hstem run.all, hgaps hgap⟩, hmark]
        simpa using named
      · -- the equals sign is the last character of the stem
        have hrest : rest = '=' :: after := by
          cases rest with
          | nil => exact absurd rfl hgap
          | cons c rest => rwa [trimStart_cons (Bool.eq_false_iff.mpr hgap)] at equals
        have hall : ∀ c ∈ name ++ ['='], isStemChar c = true :=
          List.forall_mem_append.mpr ⟨hstem run.all, List.forall_mem_singleton.mpr (by decide)⟩
        have hlength : 2 ≤ (name ++ ['=']).length := by
          have := List.length_pos_iff.mpr named
          rw [List.length_append, List.length_singleton]
          omega
        rw [hrest, List.append_cons, startsAsAttribute_of_isRun ⟨hall, hgaps gap⟩,
          List.getLast?_concat, gap, decide_eq_true hlength]
        simp

/-- The characters that start lines of other shapes. -/
def markers : List Char :=
  [':', '!', '/', '@', '\\', '=', '+']

theorem Shape.of_eq_plainShape (h : ∀ c ∈ text.head?, c ∉ markers) :
    Shape.of text = plainShape text := by
  have hne : ∀ {c : Char} {cs : List Char}, c ∈ markers → text ≠ c :: cs := by
    rintro c cs hc rfl
    exact h c rfl hc
  unfold Shape.of
  split
  all_goals first | rfl | exact absurd rfl (hne (by decide))

/-- **Attributes follow one grammar.** A text without line breaks is taken apart as an attribute in
just one way, if it is one: as the grammar of the way of writing has it. These are the attributes
that the patterns for the two ways match, with the same parts, and what is tried before a line is
taken for a selector is what a third pattern matches. No attribute with its name first is mistaken
for a selector: unless its first character is the marker of other lines, it has the shape of such
an attribute. -/
theorem attributes_follow_grammar (hline : '\n' ∉ text) :
    (∀ parts, attributeParts? .normal text = some parts ↔ NormalForm text parts) ∧
    (∀ parts, attributeParts? .alternate text = some parts ↔ AlternateForm text parts) ∧
    attributeParts? .normal text =
      (Pattern.normalAttribute.groups? text).bind AttributeParts.ofGroups? ∧
    attributeParts? .alternate text =
      (Pattern.alternateAttribute.groups? text).bind AttributeParts.ofGroups? ∧
    startsAsAttribute text = (Pattern.attributeStart.groups? text).isSome ∧
    ((attributeParts? .alternate text).isSome = true → (∀ c ∈ text.head?, c ∉ markers) →
      Shape.of text = .attr .alternate) := by
  refine ⟨fun _ => normalAttribute?_eq_some_iff hline,
    fun _ => alternateAttribute?_eq_some_iff hline, normalAttribute?_eq_groups text,
    alternateAttribute?_eq_groups text, (Pattern.isSome_groups?_attributeStart text).symm, ?_⟩
  intro haccepted hmarkers
  obtain ⟨parts, hparts⟩ := Option.isSome_iff_exists.mp haccepted
  have hform := (alternateAttribute?_eq_some_iff hline).mp hparts
  rw [Shape.of_eq_plainShape hmarkers, plainShape, if_pos hform.startsAsAttribute]

/-- An equals sign without a gap after it belongs to the value, and one with a gap may be glued to a
name that comes first. -/
theorem attributes_follow_grammar_of_equals :
    attributeParts? .normal [':', 'a', ' ', '=', '1'] = some ⟨['a'], false, ['=', '1']⟩ ∧
    attributeParts? .alternate ['a', '=', ' ', '1'] = some ⟨['a'], true, ['1']⟩ ∧
    Shape.of ['a', '=', ' ', '1'] = .attr .alternate := by
  have hrun : ∀ {c : Char} (rest : List Char), isNameChar c = false →
      IsRun isNameChar ['a'] (c :: rest) := fun rest hc =>
    ⟨List.forall_mem_singleton.mpr (by decide), fun d hd => by rwa [← Option.some.inj hd]⟩
  have hnormal : NormalForm [':', 'a', ' ', '=', '1'] ⟨['a'], false, ['=', '1']⟩ :=
    .plain (hrun ['=', '1'] (by decide)) (by decide) (fun after hafter => by
      cases hafter
      decide) rfl
  have halternate : AlternateForm ['a', '=', ' ', '1'] ⟨['a'], true, Text.trimStart [' ', '1']⟩ :=
    .computed (hrun (c := '=') [' ', '1'] (by decide)) (by decide) rfl rfl
  obtain ⟨hnormals, -⟩ := @attributes_follow_grammar [':', 'a', ' ', '=', '1'] (by decide)
  obtain ⟨-, halternates, -, -, -, hshape⟩ :=
    @attributes_follow_grammar ['a', '=', ' ', '1'] (by decide)
  have haccepted := (halternates _).mpr halternate
  refine ⟨(hnormals _).mpr hnormal, haccepted,
    hshape (Option.isSome_iff_exists.mpr ⟨_, haccepted⟩) fun c hc => ?_⟩
  rw [← Option.some.inj hc]
  decide

end Grammar

end Stylesheet
