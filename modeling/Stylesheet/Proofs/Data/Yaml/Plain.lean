import Mathlib
import Stylesheet.Proofs.Data.Yaml.Quoted

/-!
# Plain texts are read back

Reading goes from word to word. What stands between two words is kept if it is on one line, and counts
as a space if it is a line break with an indentation. A plain text ends before the colon of a key, and
at the end of its line if the next one is not indented far enough; then reading goes on to the first
character there.

* `Plain.Lines` : the ways in which a plain text is written.
* `Plain.plainText_of_lines` : every such text is read back.
* `Plain.lines_foldText` : what is written is one of these.
-/

namespace Stylesheet.Data.Yaml.Plain

variable {ch : Char} {c : Cursor} {cs out tail word : List Char}

/-- A row of printing characters between two gaps: it does not start a comment, nor does it end like a
key. -/
structure IsWord (word : List Char) : Prop where
  nonempty : word ≠ []
  ink : ∀ ch ∈ word, isPlainChar ch ∧ ch ≠ ' '
  head : word.head? ≠ some '#'
  last : word.getLast? ≠ some ':'

/-- The ways in which a plain text is written: with its spaces as they are, or with a line broken at a
single one. -/
inductive Lines (indent : Nat) : List Char → List Char → Prop where
  | word {word : List Char} (hword : IsWord word) : Lines indent word word
  | spaced (n : Nat) {word cs out : List Char} (hword : IsWord word) (h : Lines indent cs out) :
      Lines indent (word ++ (List.replicate (n + 1) ' ' ++ cs))
        (word ++ (List.replicate (n + 1) ' ' ++ out))
  | folded {word cs out : List Char} (hword : IsWord word) (h : Lines indent cs out) :
      Lines indent (word ++ ' ' :: cs) (word ++ (newline indent ++ out))

/-! ## Reading -/

/-- A text ends a word if a gap is at its start, or the colon after a key. -/
def EndsWord (tail : List Char) : Prop :=
  atGap tail = true ∨ ∃ rest, tail = ':' :: rest ∧ atGap rest = true

theorem plainRun_of_endsWord (h : EndsWord tail) : plainRun false tail = [] := by
  rcases h with hgap | ⟨rest, rfl, hrest⟩
  · cases tail with
    | nil => rfl
    | cons ch tail =>
        have hch : atGap [ch] = true := hgap
        simp [plainRun, hch]
  · simp [plainRun, atKeyEnd, hrest]

/-- A word is taken whole: it has no indicator that would end it. -/
theorem plainRun_word (hink : ∀ ch ∈ word, isPlainChar ch ∧ ch ≠ ' ')
    (hlast : word.getLast? ≠ some ':') (h : EndsWord tail) :
    plainRun false (word ++ tail) = word := by
  induction word with
  | nil => exact plainRun_of_endsWord h
  | cons ch word ih =>
      rw [List.forall_mem_cons] at hink
      have hgap : atGap [ch] = false := by
        rw [atGap_of_isPlainChar hink.1.1]
        simpa using hink.1.2
      -- a colon within the word is followed by another character of it
      have hkey : (ch == ':' && atKeyEnd false (word ++ tail)) = false := by
        rw [Bool.and_eq_false_iff, beq_eq_false_iff_ne]
        cases word with
        | nil => exact .inl fun heq => hlast (by rw [heq]; rfl)
        | cons ch' word =>
            refine .inr ?_
            have hnext : atGap (ch' :: word ++ tail) = false := by
              rw [List.cons_append, atGap_of_isPlainChar (hink.2 ch' List.mem_cons_self).1]
              simpa using (hink.2 ch' List.mem_cons_self).2
            simp only [atKeyEnd, hnext, Bool.false_and, Bool.or_self]
      have hmore : plainRun false (word ++ tail) = word := by
        cases word with
        | nil => exact plainRun_of_endsWord h
        | cons ch' word =>
            exact ih hink.2 (by rwa [List.getLast?_cons_cons] at hlast)
      rw [List.cons_append, plainRun, hgap, hkey, hmore]
      rfl

/-- A text is over, or it starts with a character that is neither blank nor the start of a comment. -/
def Begins (tail : List Char) : Prop :=
  tail = [] ∨ atGap tail = false ∧ tail.head? ≠ some '#'

theorem Begins.lineBreak? (h : Begins c.rest) : c.lineBreak? = none := by
  rcases h with hnil | ⟨hgap, -⟩
  · simp [Cursor.lineBreak?, hnil]
  · exact Cursor.lineBreak?_eq_none (Quoted.atBreak_of_atGap hgap)

theorem Begins.head?_ne_space (h : Begins tail) : tail.head? ≠ some ' ' := by
  rcases h with rfl | ⟨hgap, -⟩
  · nofun
  · intro heq
    have hblank := Quoted.isSpace_head_of_atGap hgap ' ' heq
    cases hblank

theorem Begins.head?_ne_comment (h : Begins tail) : tail.head? ≠ some '#' := by
  rcases h with rfl | ⟨-, hhead⟩
  · nofun
  · exact hhead

/-- The indentation of a line is passed over. -/
theorem plainBreaks_spaces (indent fuel : Nat) (htail : Begins tail)
    (hrest : c.rest = List.replicate indent ' ' ++ tail) (hfuel : indent < fuel) :
    plainBreaks fuel c = ([], false, c.past (List.replicate indent ' ')) := by
  induction indent generalizing c fuel with
  | zero =>
      obtain ⟨fuel, rfl⟩ := Nat.exists_eq_add_one.mpr hfuel
      rw [List.replicate_zero, List.nil_append] at hrest
      have hbreak : c.lineBreak? = none := Begins.lineBreak? (by rwa [hrest])
      have hhead : c.rest.head? ≠ some ' ' := by
        rw [hrest]
        exact htail.head?_ne_space
      simp [plainBreaks, hhead, hbreak]
  | succ indent ih =>
      obtain ⟨fuel, rfl⟩ := Nat.exists_eq_add_one.mpr (Nat.lt_of_le_of_lt (Nat.zero_le _) hfuel)
      rw [List.replicate_succ, List.cons_append] at hrest
      have hmore := ih fuel (Cursor.rest_next_of ' ' hrest) (by omega)
      simp [plainBreaks, hrest, hmore, List.replicate_succ, Cursor.past_cons]

/-- Between two words on one line there are spaces. -/
theorem between_spaces (n : Nat) (htail : Begins tail)
    (hrest : c.rest = List.replicate (n + 1) ' ' ++ tail) :
    between c = ⟨List.replicate (n + 1) ' ', false, false,
      c.past (List.replicate (n + 1) ' ')⟩ := by
  have htake : c.rest.takeWhile (· == ' ') = List.replicate (n + 1) ' ' := by
    rw [hrest, List.takeWhile_append_of_pos (fun ch hch => by
      rw [List.eq_of_mem_replicate hch]
      rfl)]
    cases tail with
    | nil => simp
    | cons ch tail =>
        have hch : ch ≠ ' ' := by simpa using htail.head?_ne_space
        simp [hch]
  have hbreak : (c.advance (List.replicate (n + 1) ' ').length).lineBreak? = none :=
    Begins.lineBreak? (by rwa [← Cursor.past, Cursor.rest_past hrest])
  rw [between]
  simp only [htake, hbreak]
  rfl

/-- Between two words on two lines, or behind the last one of a text, there is a line break with an
indentation. -/
theorem between_newline (indent : Nat) (htail : Begins tail)
    (hmarker : atMarker (List.replicate indent ' ' ++ tail) = false)
    (hrest : c.rest = newline indent ++ tail) :
    between c = ⟨[' '], true, false, c.past (newline indent)⟩ := by
  have hline : c.rest = '\n' :: (List.replicate indent ' ' ++ tail) := hrest
  have hnext : c.next.rest = List.replicate indent ' ' ++ tail := Cursor.rest_next_of '\n' hline
  have htake : c.rest.takeWhile (· == ' ') = [] := by simp [hline]
  have hbreaks := plainBreaks_spaces indent (c.next.rest.length + 1) htail hnext (by
    rw [hnext]
    simp only [List.length_append, List.length_replicate]
    omega)
  simp [between, htake, Cursor.advance, Cursor.lineBreak?_of_newline hline, hnext ▸ hmarker, hbreaks,
    foldBreaks, newline, Cursor.past_cons]

/-- A key ends at its colon. -/
theorem between_colon {rest : List Char} (hrest : c.rest = ':' :: rest) :
    between c = ⟨[], false, true, c⟩ := by
  have htake : c.rest.takeWhile (· == ' ') = [] := by simp [hrest]
  have hbreak : c.lineBreak? = none := Cursor.lineBreak?_eq_none (by
    rw [hrest]
    rfl)
  simp [between, htake, Cursor.advance, hbreak]

/-- What stands behind a plain text ends it, for lines that have to be indented by `limit`: reading
goes on to the place behind `passed`, and `crossed` says whether that is in another line. -/
structure Ends (limit : Int) (tail passed : List Char) (crossed : Bool) : Prop where
  endsWord : EndsWord tail
  crossed_eq : ∀ c : Cursor, c.rest = tail → (between c).crossed = crossed
  cursor_eq : ∀ c : Cursor, c.rest = tail → (between c).cursor = c.past passed
  stops : ∀ c : Cursor, c.rest = tail → (between c).ended = true ∨
    (between c).cursor.rest.head? = some '#' ∨ ((between c).cursor.column : Int) < limit

theorem Ends.colon {limit : Int} {rest : List Char} (hrest : atGap rest) :
    Ends limit (':' :: rest) [] false where
  endsWord := .inr ⟨rest, rfl, hrest⟩
  crossed_eq c hc := by rw [between_colon hc]
  cursor_eq c hc := by
    rw [between_colon hc]
    rfl
  stops c hc := .inl (by rw [between_colon hc])

theorem Ends.newline {limit : Int} {indent : Nat} (hindent : indent < limit) (htail : Begins tail)
    (hmarker : atMarker (List.replicate indent ' ' ++ tail) = false) :
    Ends limit (newline indent ++ tail) (newline indent) true where
  endsWord := .inl rfl
  crossed_eq c hc := by rw [between_newline indent htail hmarker hc]
  cursor_eq c hc := by rw [between_newline indent htail hmarker hc]
  stops c hc := by
    rw [between_newline indent htail hmarker hc, Cursor.past_newline hc]
    exact .inr (.inr hindent)

/-- Reading a word, and deciding by what is behind it whether to go on. -/
theorem plainFrom_word {limit : Int} {rest : List Char} (hword : IsWord word)
    (htail : EndsWord rest) (before : Bool) (fuel : Nat) (hrest : c.rest = word ++ rest) :
    plainFrom false limit (fuel + 1) before c =
      if (between (c.past word)).ended ∨ (between (c.past word)).cursor.rest.head? = some '#' ∨
          ((between (c.past word)).cursor.column : Int) < limit then
        (word, (between (c.past word)).crossed, (between (c.past word)).cursor)
      else
        let more := plainFrom false limit fuel (between (c.past word)).crossed
          (between (c.past word)).cursor
        (word ++ (if more.1.isEmpty then [] else (between (c.past word)).text ++ more.1), more.2) := by
  have hrun : plainRun false c.rest = word := by
    rw [hrest, plainRun_word hword.ink hword.last htail]
  have hhead : ¬(c.rest.head? = some '#' ∨ word.isEmpty = true) := by
    obtain ⟨ch, more, rfl⟩ := List.exists_cons_of_ne_nil hword.nonempty
    rw [hrest]
    simpa using hword.head
  rw [plainFrom]
  simp only [hrun, if_neg hhead]
  simp [Cursor.past]

/-- Reading a word, and going on behind a gap with what is left of the text. -/
theorem plainFrom_word_append {limit : Int} {rest gap : List Char} {place : Cursor}
    {crossed : Bool} {more : List Char × Bool × Cursor} (hword : IsWord word)
    (hends : EndsWord rest) (hrest : c.rest = word ++ rest) (before : Bool) (fuel : Nat)
    (hgap : between (c.past word) = ⟨gap, crossed, false, place⟩)
    (hcomment : place.rest.head? ≠ some '#') (hline : limit ≤ place.column)
    (hmore : plainFrom false limit fuel crossed place = more) (hne : more.1 ≠ []) :
    plainFrom false limit (fuel + 1) before c = (word ++ (gap ++ more.1), more.2) := by
  have hgoesOn : ¬(False ∨ place.rest.head? = some '#' ∨ (place.column : Int) < limit) := by
    rintro (hfalse | hhead | hcolumn)
    · exact hfalse
    · exact hcomment hhead
    · omega
  rw [plainFrom_word hword hends before fuel hrest, hgap]
  simp only [Bool.false_eq_true, if_neg hgoesOn, hmore, List.isEmpty_iff, hne, if_false]

namespace Lines

variable {indent : Nat}

theorem exists_head (h : Lines indent cs out) :
    ∃ ch rest, out = ch :: rest ∧ isPlainChar ch ∧ ch ≠ ' ' ∧ ch ≠ '#' := by
  have of_word {word : List Char} (hword : IsWord word) (rest : List Char) :
      ∃ ch more, word ++ rest = ch :: more ∧ isPlainChar ch ∧ ch ≠ ' ' ∧ ch ≠ '#' := by
    obtain ⟨ch, more, rfl⟩ := List.exists_cons_of_ne_nil hword.nonempty
    obtain ⟨hch, hspace⟩ := hword.ink ch List.mem_cons_self
    exact ⟨ch, more ++ rest, rfl, hch, hspace, by simpa using hword.head⟩
  cases h with
  | word hword => simpa using of_word hword []
  | spaced n hword h => exact of_word hword _
  | folded hword h => exact of_word hword _

/-- A plain text folded over lines begins a token. -/
theorem begins (h : Lines indent cs out) (tail : List Char) : Begins (out ++ tail) := by
  obtain ⟨ch, rest, rfl, hch, hspace, hcomment⟩ := h.exists_head
  refine .inr ⟨?_, by simpa using hcomment⟩
  rw [List.cons_append, atGap_of_isPlainChar hch]
  simpa using hspace

theorem nonempty (h : Lines indent cs out) : cs ≠ [] := by
  cases h with
  | word hword => exact hword.nonempty
  | spaced n hword h => simp [hword.nonempty]
  | folded hword h => simp

/-- **Plain texts.** However a text is written, it is read back up to what ends it, if its lines are
indented far enough. -/
theorem plainFrom_eq {limit : Int} {passed : List Char} {crossed : Bool} (hindent : 0 < indent)
    (hlimit : limit ≤ indent) (htail : Ends limit tail passed crossed) (h : Lines indent cs out)
    (c : Cursor) (before : Bool) (fuel : Nat) (hrest : c.rest = out ++ tail)
    (hcolumn : limit ≤ c.column) (hfuel : out.length < fuel) :
    plainFrom false limit fuel before c = (cs, crossed, c.past (out ++ passed)) := by
  induction h generalizing c before fuel with
  | @word word hword =>
      obtain ⟨fuel, rfl⟩ := Nat.exists_eq_add_one.mpr (Nat.lt_of_le_of_lt (Nat.zero_le _) hfuel)
      have hplace := Cursor.rest_past hrest
      -- the text ends with this word: what stops it is the tail
      rw [plainFrom_word hword htail.endsWord before fuel hrest, if_pos (htail.stops _ hplace),
        htail.crossed_eq _ hplace, htail.cursor_eq _ hplace, Cursor.past_append]
  | @spaced n word cs out hword h ih =>
      obtain ⟨fuel, rfl⟩ := Nat.exists_eq_add_one.mpr (Nat.lt_of_le_of_lt (Nat.zero_le _) hfuel)
      have hrest : c.rest = word ++ (List.replicate (n + 1) ' ' ++ (out ++ tail)) := by
        simpa only [List.append_assoc] using hrest
      have hplace := Cursor.rest_past hrest
      have hnext := Cursor.rest_past hplace
      -- blanks in the line move the place to the right only
      have hline : limit ≤ ((c.past word).past (List.replicate (n + 1) ' ')).column := by
        have hink : ∀ ch ∈ word ++ List.replicate (n + 1) ' ', isPlainChar ch = true := by
          intro ch hch
          rcases List.mem_append.mp hch with hch | hch
          · exact (hword.ink ch hch).1
          · rw [List.eq_of_mem_replicate hch]
            rfl
        rw [← Cursor.past_append, Cursor.past_ink (by rw [hrest, List.append_assoc]) hink]
        push_cast
        omega
      have hmore := ih _ false fuel hnext hline (by
        simp only [List.length_append, List.length_replicate] at hfuel
        omega)
      rw [plainFrom_word_append hword (.inl rfl) hrest before fuel
        (between_spaces n (h.begins tail) hplace)
        (by rw [hnext]; exact (h.begins tail).head?_ne_comment) hline hmore h.nonempty]
      simp only [Cursor.past_append]
  | @folded word cs out hword h ih =>
      obtain ⟨fuel, rfl⟩ := Nat.exists_eq_add_one.mpr (Nat.lt_of_le_of_lt (Nat.zero_le _) hfuel)
      have hrest : c.rest = word ++ (newline indent ++ (out ++ tail)) := by
        simpa only [List.append_assoc] using hrest
      have hplace := Cursor.rest_past hrest
      have hmarker : atMarker (List.replicate indent ' ' ++ (out ++ tail)) = false := by
        obtain ⟨indent, rfl⟩ := Nat.exists_eq_add_one.mpr hindent
        rfl
      have hnext := Cursor.rest_past hplace
      -- a new line starts where it is indented to
      have hline : limit ≤ ((c.past word).past (newline indent)).column := by
        rw [Cursor.past_newline hplace]
        exact hlimit
      have hmore := ih _ true fuel hnext hline (by
        simp only [List.length_append, newline, List.length_cons] at hfuel
        omega)
      rw [plainFrom_word_append hword (.inl rfl) hrest before fuel
        (between_newline indent (h.begins tail) hmarker hplace)
        (by rw [hnext]; exact (h.begins tail).head?_ne_comment) hline hmore h.nonempty]
      simp only [Cursor.past_append]
      rfl

end Lines

theorem startsAsIndicator_cons (h : startsAsIndicator (ch :: cs) = false) :
    ch ∉ indicators ∧ (ch = '?' ∨ ch = ':' ∨ ch = '-' → atSpace cs = false) := by
  unfold startsAsIndicator at h
  split at h
  · cases h
  · cases h
  · next heq =>
    cases heq
    simp only [Bool.or_eq_false_iff, Bool.and_eq_false_iff] at h
    refine ⟨by simpa using h.1, fun hch => h.2.resolve_left ?_⟩
    rcases hch with rfl | rfl | rfl <;> simp
  · next heq => cases heq

/-- What is written of a text that does not start as something else does not either. -/
theorem Lines.exists_start {indent : Nat} (h : Lines indent cs out)
    (hstart : startsAsIndicator cs = false) (tail : List Char) :
    ∃ ch after, out ++ tail = ch :: after ∧ isPlainChar ch ∧ ch ≠ ' ' ∧ ch ∉ indicators ∧
      (ch = '?' ∨ ch = ':' ∨ ch = '-' → atGap after = false) := by
  -- only the first word counts, and a mark at its end is the end of the word
  have of_word {word more : List Char} (hword : IsWord word) (hmore : atSpace more)
      (hstart : startsAsIndicator (word ++ more) = false) (rest : List Char) :
      ∃ ch after, word ++ rest = ch :: after ∧ isPlainChar ch ∧ ch ≠ ' ' ∧ ch ∉ indicators ∧
        (ch = '?' ∨ ch = ':' ∨ ch = '-' → atGap after = false) := by
    obtain ⟨ch, word, rfl⟩ := List.exists_cons_of_ne_nil hword.nonempty
    obtain ⟨hch, hspace⟩ := hword.ink ch List.mem_cons_self
    obtain ⟨hindicator, hafter⟩ := startsAsIndicator_cons hstart
    refine ⟨ch, word ++ rest, rfl, hch, hspace, hindicator, fun hmark => ?_⟩
    cases word with
    | nil =>
        have hnot : atSpace more = false := hafter hmark
        rw [hmore] at hnot
        cases hnot
    | cons ch' word =>
        obtain ⟨hch', hspace'⟩ := hword.ink ch' (by simp)
        rw [List.cons_append, atGap_of_isPlainChar hch']
        simpa using hspace'
  cases h with
  | word hword =>
      rw [← List.append_nil cs] at hstart
      exact of_word hword rfl hstart tail
  | spaced n hword h =>
      rw [List.append_assoc]
      exact of_word hword rfl hstart _
  | folded hword h =>
      rw [List.append_assoc]
      exact of_word hword rfl hstart _

/-- A plain text is read from its first character on. -/
theorem plainText_of_lines {indent : Nat} {limit : Int} {passed : List Char} {crossed : Bool}
    (hindent : 0 < indent) (hlimit : limit ≤ indent) (h : Lines indent cs out)
    (htail : Ends limit tail passed crossed) (hrest : c.rest = out ++ tail)
    (hcolumn : limit ≤ c.column) :
    plainText false limit c = (cs, crossed, c.past (out ++ passed)) := by
  refine h.plainFrom_eq hindent hlimit htail c false _ hrest hcolumn ?_
  rw [hrest, List.length_append]
  omega

/-- A plain word is read wherever it starts. -/
theorem plainText_word {limit : Int} {passed : List Char} {crossed : Bool} (hword : IsWord word)
    (htail : Ends limit tail passed crossed) (hrest : c.rest = word ++ tail) :
    plainText false limit c = (word, crossed, c.past (word ++ passed)) := by
  have hplace := Cursor.rest_past hrest
  rw [plainText, plainFrom_word hword htail.endsWord false _ hrest, if_pos (htail.stops _ hplace),
    htail.crossed_eq _ hplace, htail.cursor_eq _ hplace, Cursor.past_append]

/-! ## Writing -/

/-- What stands at the start of a text holds no indicator, nor does the rest of it. -/
theorem holdsIndicator_cons (h : holdsIndicator (ch :: cs) = false) :
    holdsIndicator cs = false ∧ (ch = ':' → atSpace cs = false) ∧
      (ch = ' ' → cs.head? ≠ some '#') := by
  unfold holdsIndicator at h
  split at h
  · next heq => cases heq
  · next heq =>
    cases heq
    simp only [Bool.or_eq_false_iff] at h
    exact ⟨h.2, fun _ => h.1, nofun⟩
  · next heq =>
    cases heq
    simp only [Bool.or_eq_false_iff, beq_eq_false_iff_ne] at h
    exact ⟨h.2, nofun, fun _ => h.1⟩
  · next hcolon hspace heq =>
    cases heq
    exact ⟨h, fun hch => absurd hch hcolon, fun hch => absurd hch hspace⟩

theorem holdsIndicator_append (before : List Char) (h : holdsIndicator (before ++ cs) = false) :
    holdsIndicator cs = false := by
  induction before with
  | nil => exact h
  | cons ch before ih => exact ih (holdsIndicator_cons h).1

/-- A word that holds no indicator does not end like a key. -/
theorem getLast?_ne_colon (hcs : atSpace cs) (h : holdsIndicator (word ++ cs) = false) :
    word.getLast? ≠ some ':' := by
  induction word with
  | nil => nofun
  | cons ch word ih =>
      obtain ⟨hword, hcolon, -⟩ := holdsIndicator_cons h
      cases word with
      | nil =>
          intro heq
          have hnot : atSpace cs = false := hcolon (by simpa using heq)
          rw [hcs] at hnot
          cases hnot
      | cons ch' word =>
          rw [List.getLast?_cons_cons]
          exact ih hword

/-- A text without spaces at its ends starts with a word, which is all of it or followed by spaces. -/
theorem exists_word (hne : cs ≠ []) (hfirst : cs.head? ≠ some ' ') (hlast : cs.getLast? ≠ some ' ') :
    ∃ word, word ≠ [] ∧ ' ' ∉ word ∧ (cs = word ∨ ∃ n rest,
      cs = word ++ (List.replicate (n + 1) ' ' ++ rest) ∧ rest ≠ [] ∧ rest.head? ≠ some ' ') := by
  induction cs with
  | nil => exact absurd rfl hne
  | cons ch cs ih =>
      have hch : ch ≠ ' ' := by simpa using hfirst
      obtain ⟨n, rest, rfl, hrest⟩ := Quoted.exists_run ' ' cs
      cases n with
      | zero =>
          rw [List.replicate_zero, List.nil_append] at ih hlast ⊢
          cases rest with
          | nil => exact ⟨[ch], by simp, by simpa using hch.symm, .inl rfl⟩
          | cons ch' rest =>
              obtain ⟨word, -, hword, hcases⟩ := ih (by simp) hrest
                (by rwa [List.getLast?_cons_cons] at hlast)
              refine ⟨ch :: word, by simp, by simp [hch.symm, hword], ?_⟩
              rcases hcases with heq | ⟨n, after, heq, hafter⟩
              · exact .inl (by rw [heq])
              · exact .inr ⟨n, after, by rw [heq]; rfl, hafter⟩
      | succ n =>
          refine ⟨[ch], by simp, by simpa using hch.symm, .inr ⟨n, rest, rfl, ?_, hrest⟩⟩
          rintro rfl
          rw [List.append_nil, List.replicate_succ', ← List.cons_append, List.getLast?_concat] at hlast
          exact hlast rfl

/-- A word is never folded. -/
theorem foldText_word (indent column : Nat) (before : Option Char) (rest : List Char)
    (hne : word ≠ []) (hink : ∀ ch ∈ word, isPlainChar ch ∧ ch ≠ ' ') :
    ∃ column' last, last ≠ ' ' ∧ foldText false indent column before (word ++ rest) =
      word ++ foldText false indent column' (some last) rest := by
  induction word generalizing column before with
  | nil => exact absurd rfl hne
  | cons ch word ih =>
      rw [List.forall_mem_cons] at hink
      have hbreak : ch ≠ '\n' := by
        rintro rfl
        exact absurd hink.1.1 (by decide)
      rw [List.cons_append, Quoted.foldText_char hink.1.2 hbreak]
      simp only [Bool.false_and, Bool.false_eq_true, if_false]
      cases word with
      | nil => exact ⟨_, ch, hink.1.2, rfl⟩
      | cons ch' word =>
          obtain ⟨column', last, hlast, heq⟩ := ih (column + 1) (some ch) (by simp) hink.2
          exact ⟨column', last, hlast, by rw [heq]; rfl⟩

/-- Spaces before which there is one are written as they are. -/
theorem foldText_spaces_after (indent column : Nat) (n : Nat) (cs : List Char) :
    ∃ column', foldText false indent column (some ' ') (List.replicate n ' ' ++ cs) =
      List.replicate n ' ' ++ foldText false indent column' (some ' ') cs := by
  induction n generalizing column with
  | zero => exact ⟨column, rfl⟩
  | succ n ih =>
      obtain ⟨column', heq⟩ := ih (column + 1)
      refine ⟨column', ?_⟩
      rw [List.replicate_succ, List.cons_append, foldText]
      simp [heq]

/-- Spaces between words are written as they are, or as a break if it is a single one. -/
theorem foldText_spaces (indent column : Nat) (before : Option Char) (n : Nat) (cs : List Char) :
    ∃ column',
      foldText false indent column before (List.replicate (n + 1) ' ' ++ cs) =
        List.replicate (n + 1) ' ' ++ foldText false indent column' (some ' ') cs ∨
      n = 0 ∧ foldText false indent column before (List.replicate (n + 1) ' ' ++ cs) =
        newline indent ++ foldText false indent column' (some ' ') cs := by
  rw [List.replicate_succ, List.cons_append, foldText]
  split
  · next hfold =>
    cases n with
    | zero => exact ⟨indent, .inr ⟨rfl, rfl⟩⟩
    | succ n =>
        -- another space follows
        rw [List.replicate_succ, List.cons_append] at hfold
        simp [atSpace] at hfold
  · obtain ⟨column', heq⟩ := foldText_spaces_after indent (column + 1) n cs
    exact ⟨column', .inl (by rw [heq]; rfl)⟩

/-- What is written of a plain text is one of the ways in which it can be. -/
theorem lines_foldText (indent : Nat) (cs : List Char) (column : Nat) (before : Option Char)
    (hne : cs ≠ []) (hink : ∀ ch ∈ cs, isPlainChar ch) (hinside : holdsIndicator cs = false)
    (hcomment : cs.head? ≠ some '#') (hfirst : cs.head? ≠ some ' ')
    (hlast : cs.getLast? ≠ some ' ') : Lines indent cs (foldText false indent column before cs) := by
  obtain ⟨word, hword, hspace, hcases⟩ := exists_word hne hfirst hlast
  have isWord (rest : List Char) (hrest : atSpace rest) (hcs : cs = word ++ rest) :
      IsWord word := by
    subst hcs
    refine ⟨hword, fun ch hch => ⟨hink ch (List.mem_append_left _ hch), ?_⟩, ?_,
      getLast?_ne_colon hrest hinside⟩
    · rintro rfl
      exact hspace hch
    · rwa [List.head?_append_of_ne_nil _ hword] at hcomment
  rcases hcases with heq | ⟨n, rest, heq, hrest, hstart⟩
  · have hisWord := isWord [] rfl (by rw [heq, List.append_nil])
    obtain ⟨column', last, -, hwritten⟩ :=
      foldText_word indent column before [] hword hisWord.ink
    rw [List.append_nil] at hwritten
    rw [heq, hwritten, foldText, List.append_nil]
    exact .word hisWord
  · have hisWord := isWord _ rfl heq
    subst heq
    obtain ⟨column₁, last, -, hwritten⟩ :=
      foldText_word indent column before (List.replicate (n + 1) ' ' ++ rest) hword hisWord.ink
    obtain ⟨column₂, hspaces⟩ := foldText_spaces indent column₁ (some last) n rest
    have hinside' := holdsIndicator_append word hinside
    have hmore := lines_foldText indent rest column₂ (some ' ') hrest
      (fun ch hch => hink ch (List.mem_append_right _ (List.mem_append_right _ hch)))
      (holdsIndicator_append _ hinside') (by
        rw [List.replicate_succ', List.append_assoc] at hinside'
        exact (holdsIndicator_cons (holdsIndicator_append _ hinside')).2.2 rfl) hstart (by
        rwa [List.getLast?_append_of_ne_nil _ (by simp), List.getLast?_append_of_ne_nil _ hrest]
          at hlast)
    rw [hwritten]
    rcases hspaces with hspaces | ⟨rfl, hspaces⟩
    · rw [hspaces]
      exact .spaced n hisWord hmore
    · rw [hspaces]
      exact .folded hisWord hmore
termination_by cs.length
decreasing_by
  subst heq
  simp
  omega

/-- A text of which the characters may stand plainly, whatever the text stands for. -/
structure Scannable (cs : List Char) : Prop where
  ink : ∀ ch ∈ cs, isPlainChar ch
  start : startsAsIndicator cs = false
  inside : holdsIndicator cs = false
  first : cs.head? ≠ some ' '
  last : cs.getLast? ≠ some ' '

namespace Scannable

theorem nonempty (h : Scannable cs) : cs ≠ [] := by
  rintro rfl
  cases h.start

theorem head?_ne_comment (h : Scannable cs) : cs.head? ≠ some '#' := by
  obtain ⟨ch, cs, rfl⟩ := List.exists_cons_of_ne_nil h.nonempty
  intro heq
  obtain rfl : ch = '#' := by simpa using heq
  exact (startsAsIndicator_cons h.start).1 (by decide)

/-- However a scannable text is folded, its lines are read back as the text. -/
theorem lines (h : Scannable cs) (indent column : Nat) (before : Option Char) :
    Lines indent cs (foldText false indent column before cs) :=
  lines_foldText indent cs column before h.nonempty h.ink h.inside h.head?_ne_comment h.first h.last

theorem isWord (h : Scannable cs) (hspace : ' ' ∉ cs) : IsWord cs where
  nonempty := h.nonempty
  ink ch hch := ⟨h.ink ch hch, fun heq => hspace (heq ▸ hch)⟩
  head := h.head?_ne_comment
  last := by
    have hinside : holdsIndicator (cs ++ []) = false := by
      rw [List.append_nil]
      exact h.inside
    exact getLast?_ne_colon rfl hinside

end Scannable

/-- A text is written plain exactly when it resolves to a text and can be scanned back. -/
theorem isPlain_iff : isPlain cs ↔ Kind.of cs = .text ∧ Scannable cs := by
  simp only [isPlain, Bool.and_eq_true, beq_iff_eq, List.all_eq_true, Bool.not_eq_true', bne_iff_ne]
  constructor
  · rintro ⟨⟨⟨⟨⟨hkind, hink⟩, hstart⟩, hinside⟩, hfirst⟩, hlast⟩
    exact ⟨hkind, hink, hstart, hinside, hfirst, hlast⟩
  · rintro ⟨hkind, hink, hstart, hinside, hfirst, hlast⟩
    exact ⟨⟨⟨⟨⟨hkind, hink⟩, hstart⟩, hinside⟩, hfirst⟩, hlast⟩

end Stylesheet.Data.Yaml.Plain
