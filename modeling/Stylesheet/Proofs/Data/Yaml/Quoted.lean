import Mathlib
import Stylesheet.Proofs.Data.Json
import Stylesheet.Proofs.Data.Yaml.Cursor
import Stylesheet.Proofs.Text.Pattern

/-!
# Texts between quotation marks are read back

Reading goes from the opening mark on, character by character, but takes a run of blanks at once, with
the line breaks in it. `Reads` says what is read from some place of a written text on, up to its
closing mark. It has a lemma for every piece that the written form is made of, and the texts are put
together from these by induction.

Where a text between double marks is indented by as much as a line is wide, a break may come between
the mark of a space and the space. Such texts are brittle: a backslash and a space come in.

* `Quoted.quotedText_double` : texts with escapes.
* `Quoted.quotedText_single` : texts without.
* `Quoted.reread_eq_self_iff` : all but the brittle texts come back as they were.
-/

namespace Stylesheet.Data.Yaml.Quoted

variable {double : Bool} {text : List Char} {codes : List Nat} {ch : Char} {c : Cursor}

/-- What is read from a place behind the opening mark on, up to the closing mark: `text` as code
points. Behind a single closing mark there is no further one. -/
def Reads (double : Bool) (text : List Char) (codes : List Nat) : Prop :=
  ∀ (c : Cursor) (tail : List Char) (fuel : Nat), c.rest = text ++ tail →
    tail.head? ≠ some '\'' → text.length ≤ fuel →
    quotedFrom double fuel c = .ok (codes, c.past text)

namespace Reads

theorem closeDouble : Reads true ['"'] [] := by
  intro c tail fuel hrest _ hfuel
  obtain ⟨fuel, rfl⟩ := Nat.exists_eq_add_one.mpr hfuel
  simp [quotedFrom, hrest, atGap, isBreak, Cursor.past_cons]

theorem closeSingle : Reads false ['\''] [] := by
  intro c tail fuel hrest htail hfuel
  obtain ⟨fuel, rfl⟩ := Nat.exists_eq_add_one.mpr hfuel
  simp [quotedFrom, hrest, atGap, isBreak, Cursor.past_cons, htail]

/-- A character that stands for itself. -/
theorem char (hgap : atGap [ch] = false)
    (hmark : if double then ch ≠ '"' ∧ ch ≠ '\\' else ch ≠ '\'') (h : Reads double text codes) :
    Reads double (ch :: text) (ch.toNat :: codes) := by
  intro c tail fuel hrest htail hfuel
  obtain ⟨fuel, rfl⟩ := Nat.exists_eq_add_one.mpr (Nat.lt_of_lt_of_le (Nat.zero_lt_succ _) hfuel)
  have hmore := h c.next tail fuel (Cursor.rest_next_of ch hrest) htail (by simpa using hfuel)
  cases double <;> simp at hmark <;>
    simp [quotedFrom, hrest, hgap, hmark, hmore, Cursor.past_cons, bind, Except.bind, pure,
      Except.pure]

/-- A mark between single marks is doubled. -/
theorem apostrophe (h : Reads false text codes) :
    Reads false ('\'' :: '\'' :: text) ('\''.toNat :: codes) := by
  intro c tail fuel hrest htail hfuel
  obtain ⟨fuel, rfl⟩ := Nat.exists_eq_add_one.mpr (Nat.lt_of_lt_of_le (Nat.zero_lt_succ _) hfuel)
  have hnext : c.next.next.rest = text ++ tail :=
    Cursor.rest_next_of '\'' (Cursor.rest_next_of '\'' hrest)
  have hmore := h c.next.next tail fuel hnext htail (by
    simp only [List.length_cons] at hfuel
    omega)
  simp [quotedFrom, hrest, atGap, isBreak, hmore, Cursor.past_cons, Cursor.advance, bind,
    Except.bind, pure, Except.pure]

/-! ### Escapes -/

/-- An escape that is read as a character, with the place behind it. -/
theorem escape (escape : List Char) (h : Reads true text codes)
    (hescape : ∀ (c : Cursor) (tail : List Char), c.rest = escape ++ tail →
      escapedText c = .ok ([ch.toNat], c.past escape)) :
    Reads true ('\\' :: escape ++ text) (ch.toNat :: codes) := by
  intro c tail fuel hrest htail hfuel
  obtain ⟨fuel, rfl⟩ := Nat.exists_eq_add_one.mpr (Nat.lt_of_lt_of_le (Nat.zero_lt_succ _) hfuel)
  have hnext : c.next.rest = escape ++ (text ++ tail) := by
    rw [Cursor.rest_next_of '\\' (t := escape ++ text ++ tail) hrest, List.append_assoc]
  have hmore := h (c.next.past escape) tail fuel (Cursor.rest_past hnext) htail (by
    simp only [List.cons_append, List.length_cons, List.length_append] at hfuel
    omega)
  simp [quotedFrom, hrest, atGap, isBreak, hescape c.next _ hnext, hmore, Cursor.past_cons,
    Cursor.past_append, bind, Except.bind, pure, Except.pure]

/-- An escape of one letter. -/
theorem letter (letter : Char) (hletter : escapedLetters.lookup letter = some ch)
    (h : Reads true text codes) : Reads true ('\\' :: letter :: text) (ch.toNat :: codes) := by
  refine escape [letter] h fun c tail hrest => ?_
  simp [escapedText, hrest, hletter, Cursor.past_cons]

/-- An escape by number. -/
theorem number (kind : Char) (width : Nat) (hkind : escapedLetters.lookup kind = none)
    (hwidth : escapeWidth? kind = some width) (hch : ch.toNat < 16 ^ width)
    (h : Reads true text codes) :
    Reads true ('\\' :: kind :: Text.hex true width ch.toNat ++ text) (ch.toNat :: codes) := by
  refine escape (kind :: Text.hex true width ch.toNat) h fun c tail hrest => ?_
  have hvalid : ch.toNat < 0x110000 := by
    rcases ch.valid with hlow | hhigh
    · exact Nat.lt_trans hlow (by decide)
    · exact hhigh.2
  have hdigits : (Text.hex true width ch.toNat ++ tail).take width =
      Text.hex true width ch.toNat := by
    rw [List.take_append_of_le_length (by simp), List.take_of_length_le (by simp)]
  have hnext : c.next.rest = Text.hex true width ch.toNat ++ tail :=
    Cursor.rest_next_of kind hrest
  have hcode : codeOf ch.toNat = .ok ch.toNat := by simp [codeOf, hvalid]
  simp [escapedText, hrest, hkind, hwidth, hnext, hdigits, Text.ofHex?_hex hch, hcode,
    Cursor.past, Cursor.advance, Except.map]

end Reads

/-! ### Blanks and line breaks -/

/-- A text that does not start with a blank or a line break, or what follows it, stays there. -/
theorem atGap_append (h : atGap text = false) (tail : List Char) :
    atGap (text ++ tail) = false := by
  cases text with
  | nil => cases h
  | cons ch text => exact h

theorem exists_head_of_atGap (h : atGap text = false) :
    ∃ ch rest, text = ch :: rest ∧ isSpace ch = false ∧ isBreak ch = false := by
  cases text with
  | nil => cases h
  | cons ch text =>
      have hgap : (ch == ' ' || ch == '\t' || isBreak ch) = false := h
      rw [Bool.or_eq_false_iff] at hgap
      exact ⟨ch, text, rfl, hgap⟩

theorem atBreak_of_atGap (h : atGap text = false) : atBreak text = false := by
  obtain ⟨ch, rest, rfl, -, hbreak⟩ := exists_head_of_atGap h
  exact hbreak

theorem isSpace_head_of_atGap (h : atGap text = false) : ∀ ch ∈ text.head?, isSpace ch = false := by
  obtain ⟨ch, rest, rfl, hspace, -⟩ := exists_head_of_atGap h
  simpa using hspace

theorem skip_spaces {indent : Nat} {tail : List Char}
    (hrest : c.rest = List.replicate indent ' ' ++ tail) (htail : atGap tail = false) :
    c.skip isSpace = c.past (List.replicate indent ' ') := by
  refine Cursor.skip_eq_past hrest (fun ch hch => ?_) (isSpace_head_of_atGap htail)
  rw [List.eq_of_mem_replicate hch]
  rfl

/-- The line breaks of blank lines, and the indentation of the next line. -/
theorem quotedBreaks_eq {indent : Nat} (hindent : 0 < indent) (breaks fuel : Nat)
    {tail : List Char} (htail : atGap tail = false)
    (hrest : c.rest = List.replicate breaks '\n' ++ List.replicate indent ' ' ++ tail)
    (hfuel : breaks < fuel) :
    quotedBreaks fuel c = .ok (List.replicate breaks '\n',
      c.past (List.replicate breaks '\n' ++ List.replicate indent ' ')) := by
  induction breaks generalizing c fuel with
  | zero =>
      obtain ⟨fuel, rfl⟩ := Nat.exists_eq_add_one.mpr hfuel
      rw [List.replicate_zero, List.nil_append] at hrest ⊢
      -- a document starts or ends only at the start of a line, where a space is now
      have hmarker : atMarker c.rest = false := by
        obtain ⟨indent, rfl⟩ := Nat.exists_eq_add_one.mpr hindent
        rw [hrest, List.replicate_succ]
        rfl
      have hbreak : (c.past (List.replicate indent ' ')).lineBreak? = none :=
        Cursor.lineBreak?_eq_none (by
          rw [Cursor.rest_past hrest]
          exact atBreak_of_atGap htail)
      simp [quotedBreaks, hmarker, skip_spaces hrest htail, hbreak]
  | succ breaks ih =>
      obtain ⟨fuel, rfl⟩ := Nat.exists_eq_add_one.mpr (Nat.lt_of_le_of_lt (Nat.zero_le _) hfuel)
      rw [List.replicate_succ, List.cons_append, List.cons_append] at hrest
      have hmarker : atMarker c.rest = false := by
        rw [hrest]
        rfl
      have hskip : c.skip isSpace = c := by
        simp [Cursor.skip, hrest, isSpace, Cursor.advance]
      have hmore := ih fuel (Cursor.rest_next_of '\n' hrest) (by omega)
      simp [quotedBreaks, hmarker, hskip, Cursor.lineBreak?_of_newline hrest, hmore, bind,
        Except.bind, pure, Except.pure, List.replicate_succ, Cursor.past_cons]

namespace Reads

/-- A line break with those of blank lines after it. -/
theorem breaks {indent : Nat} (hindent : 0 < indent) (breaks : Nat) (htext : atGap text = false)
    (h : Reads double text codes) :
    Reads double ('\n' :: List.replicate breaks '\n' ++ List.replicate indent ' ' ++ text)
      (codesOf (foldBreaks '\n' (List.replicate breaks '\n')) ++ codes) := by
  intro c tail fuel hrest htail hfuel
  obtain ⟨fuel, rfl⟩ := Nat.exists_eq_add_one.mpr (Nat.lt_of_lt_of_le (Nat.zero_lt_succ _) hfuel)
  simp only [List.cons_append] at hrest
  have hnext : c.next.rest = List.replicate breaks '\n' ++ List.replicate indent ' ' ++
      (text ++ tail) := by
    rw [Cursor.rest_next_of '\n' hrest]
    simp
  have hbreaks := quotedBreaks_eq hindent breaks (c.next.rest.length + 1)
    (atGap_append htext tail) hnext (by
      rw [hnext]
      simp only [List.length_append, List.length_replicate]
      omega)
  have hblanks : quotedBlanks c = .ok (foldBreaks '\n' (List.replicate breaks '\n'),
      c.past ('\n' :: List.replicate breaks '\n' ++ List.replicate indent ' ')) := by
    have htake : c.rest.takeWhile isSpace = [] := by
      rw [hrest]
      rfl
    simp [quotedBlanks, htake, Cursor.advance, Cursor.lineBreak?_of_newline hrest, hbreaks, bind,
      Except.bind, pure, Except.pure, Cursor.past_cons]
  have hplace : (c.past ('\n' :: List.replicate breaks '\n' ++ List.replicate indent ' ')).rest =
      text ++ tail := Cursor.rest_past (by
    rw [hrest]
    simp)
  have hmore := h _ tail fuel hplace htail (by
    simp only [List.cons_append, List.length_cons, List.length_append] at hfuel
    omega)
  have hgap : atGap ['\n'] = true := rfl
  rw [Cursor.past_append _ text]
  simp only [quotedFrom, hrest, hgap, if_true, hblanks, bind, Except.bind, hmore, pure, Except.pure]

/-- A line that is broken without a trace. -/
theorem joint {indent : Nat} (hindent : 0 < indent) (htext : atGap text = false)
    (h : Reads true text codes) : Reads true ('\\' :: newline indent ++ text) codes := by
  intro c tail fuel hrest htail hfuel
  obtain ⟨fuel, rfl⟩ := Nat.exists_eq_add_one.mpr (Nat.lt_of_lt_of_le (Nat.zero_lt_succ _) hfuel)
  simp only [List.cons_append, newline] at hrest hfuel ⊢
  have hline : c.next.rest = '\n' :: (List.replicate indent ' ' ++ text ++ tail) :=
    Cursor.rest_next_of '\\' hrest
  have hnext : c.next.next.rest = List.replicate 0 '\n' ++ List.replicate indent ' ' ++
      (text ++ tail) := by
    rw [Cursor.rest_next_of '\n' hline]
    simp
  have hbreaks := quotedBreaks_eq hindent 0 (c.next.next.rest.length + 1)
    (atGap_append htext tail) hnext (Nat.zero_lt_succ _)
  rw [List.replicate_zero, List.nil_append] at hbreaks hnext
  have hescape : escapedText c.next = .ok ([], c.next.next.past (List.replicate indent ' ')) := by
    have hletter : escapedLetters.lookup '\n' = none := by decide
    simp [escapedText, hline, hletter, escapeWidth?, Cursor.lineBreak?_of_newline hline, hbreaks,
      codesOf, bind, Except.bind, pure, Except.pure]
  have hmore := h (c.next.next.past (List.replicate indent ' ')) tail fuel
    (Cursor.rest_past hnext) htail (by
      simp only [List.length_cons, List.length_append] at hfuel
      omega)
  have hgap : atGap ['\\'] = false := rfl
  simp [quotedFrom, hrest, hgap, hescape, hmore, Cursor.past_cons, Cursor.past_append, bind,
    Except.bind, pure, Except.pure]

/-- What is read from a run of blanks on, in one step. -/
theorem quotedFrom_blanks (fuel : Nat) {blanks tail : List Char} (hne : blanks ≠ [])
    (hblanks : ∀ ch ∈ blanks, isSpace ch) (htail : atBreak tail = false)
    (hspace : ∀ ch ∈ tail.head?, isSpace ch = false) (hrest : c.rest = blanks ++ tail) :
    quotedFrom double (fuel + 1) c =
      (quotedFrom double fuel (c.past blanks)).map fun (more, last) =>
        (codesOf blanks ++ more, last) := by
  obtain ⟨ch, blanks, rfl⟩ := List.exists_cons_of_ne_nil hne
  have htake : c.rest.takeWhile isSpace = ch :: blanks := by
    rw [hrest, List.takeWhile_append_of_pos hblanks]
    cases tail with
    | nil => simp
    | cons other tail => simp [hspace other (by simp)]
  have hbreak : (c.advance (ch :: blanks).length).lineBreak? = none :=
    Cursor.lineBreak?_eq_none (by rwa [← Cursor.past, Cursor.rest_past hrest])
  have hread : quotedBlanks c = .ok (ch :: blanks, c.past (ch :: blanks)) := by
    simp only [quotedBlanks, htake, hbreak]
    rfl
  have hgap : atGap [ch] = true := by
    have hch : isSpace ch := hblanks ch List.mem_cons_self
    rw [isSpace] at hch
    simp [atGap, hch]
  rw [quotedFrom, hrest]
  simp only [List.cons_append, hgap, if_true, hread, bind, Except.bind]
  cases quotedFrom double fuel (c.past (ch :: blanks)) <;> rfl

/-- A space, unless a line ends behind the spaces after it. -/
theorem space (htext : atBreak (text.dropWhile isSpace) = false) (h : Reads double text codes) :
    Reads double (' ' :: text) (' '.toNat :: codes) := by
  intro c tail fuel hrest htail hfuel
  obtain ⟨fuel, rfl⟩ := Nat.exists_eq_add_one.mpr (Nat.lt_of_lt_of_le (Nat.zero_lt_succ _) hfuel)
  -- the blanks at the start of the text are read together with the space
  obtain ⟨blanks, after, rfl, hrun⟩ := exists_isRun isSpace text
  rw [hrun.dropWhile_eq] at htext
  have hbreak : atBreak (after ++ tail) = false := by
    cases after with
    | nil => cases htext
    | cons ch after => exact htext
  have hspace : ∀ ch ∈ (after ++ tail).head?, isSpace ch = false := by
    cases after with
    | nil => cases htext
    | cons ch after => exact hrun.stops
  have hrest' : c.next.rest = blanks ++ after ++ tail := Cursor.rest_next_of ' ' hrest
  have hnext : c.next.rest = blanks ++ (after ++ tail) := by rw [hrest', List.append_assoc]
  have hall : c.rest = (' ' :: blanks) ++ (after ++ tail) := by
    rw [hrest]
    simp
  rw [quotedFrom_blanks fuel (List.cons_ne_nil ' ' blanks) (by simpa [isSpace] using hrun.all) hbreak
    hspace hall, Cursor.past_cons, Cursor.past_cons]
  by_cases hnil : blanks = []
  · subst hnil
    have hmore := h _ tail fuel hrest' htail (by simpa using hfuel)
    rw [List.nil_append] at hmore ⊢
    rw [Cursor.past_nil, hmore]
    rfl
  · have hmore := h _ tail (fuel + 1) hrest' htail (by
      simp only [List.length_cons] at hfuel
      omega)
    rw [quotedFrom_blanks fuel hnil hrun.all hbreak hspace hnext] at hmore
    cases hafter : quotedFrom double fuel (c.next.past blanks) with
    | error fault =>
        rw [hafter] at hmore
        cases hmore
    | ok found =>
        rw [hafter] at hmore
        obtain ⟨more, last⟩ := found
        simp only [Except.map, Except.ok.injEq, Prod.mk.injEq] at hmore
        simp [Except.map, codesOf, ← hmore.1, hmore.2]

/-- The escape of a character. -/
theorem escaped (h : Reads true text codes) :
    Reads true (Yaml.escape ch ++ text) (ch.toNat :: codes) := by
  unfold Yaml.escape
  cases hletter : escapeLetters.lookup ch with
  | some found =>
      have hall : ∀ entry ∈ escapeLetters, escapedLetters.lookup entry.2 = some entry.1 := by decide
      obtain ⟨before, after, heq, -⟩ := List.lookup_eq_some_iff.mp hletter
      exact letter found (hall (ch, found) (by simp [heq])) h
  | none =>
      dsimp only
      split
      · next hsmall => exact number 'x' 2 (by decide) rfl hsmall h
      split
      · next hsmall => exact number 'u' 4 (by decide) rfl hsmall h
      · have hlarge : ch.toNat < 16 ^ 8 := by
          rcases ch.valid with hlow | hhigh
          · exact Nat.lt_trans hlow (by decide)
          · exact Nat.lt_trans hhigh.2 (by decide)
        exact number 'U' 8 (by decide) rfl hlarge h

end Reads

/-! ## Texts with escapes -/

theorem escape_eq_cons (ch : Char) : ∃ cs, Yaml.escape ch = '\\' :: cs := by
  unfold Yaml.escape
  split
  · exact ⟨_, rfl⟩
  · dsimp only
    split
    · exact ⟨_, rfl⟩
    split <;> exact ⟨_, rfl⟩

theorem one_lt_length_escape (ch : Char) : 1 < (Yaml.escape ch).length := by
  unfold Yaml.escape
  split
  · simp
  · dsimp only
    split
    · simp
    split <;> simp

theorem isPlainChar_of_isUnescaped (h : isUnescaped ch) : isPlainChar ch := by
  simp only [isUnescaped, Bool.and_eq_true] at h
  exact h.1.1

/-- The ways in which a text stands between double marks, with its closing mark: every character for
itself or as its escape, and lines broken between them, with a mark before a space. A break between that
mark and the space makes them a backslash and two spaces. -/
inductive Spells (indent : Nat) : List Char → List Char → Prop where
  | close : Spells indent [] ['"']
  | unescaped {ch : Char} {cs out : List Char} (hch : isUnescaped ch) (h : Spells indent cs out) :
      Spells indent (ch :: cs) (ch :: out)
  | joined {ch : Char} {cs out : List Char} (hch : isUnescaped ch) (hspace : ch ≠ ' ')
      (h : Spells indent cs out) :
      Spells indent (ch :: cs) ('\\' :: newline indent ++ ch :: out)
  | joinedSpace {cs out : List Char} (h : Spells indent cs out) :
      Spells indent (' ' :: cs) ('\\' :: newline indent ++ '\\' :: ' ' :: out)
  | escaped {cs out : List Char} (ch : Char) (h : Spells indent cs out) :
      Spells indent (ch :: cs) (Yaml.escape ch ++ out)
  | escapedJoint {cs out : List Char} (ch : Char) (hspace : cs.head? ≠ some ' ')
      (h : Spells indent cs out) :
      Spells indent (ch :: cs) (Yaml.escape ch ++ ('\\' :: newline indent ++ out))
  | escapedJointSpace {cs out : List Char} (ch : Char) (h : Spells indent cs out) :
      Spells indent (ch :: ' ' :: cs)
        (Yaml.escape ch ++ ('\\' :: newline indent ++ '\\' :: ' ' :: out))
  | escapedSplit {cs out : List Char} (ch : Char) (h : Spells indent cs out) :
      Spells indent (ch :: '\\' :: ' ' :: ' ' :: cs)
        (Yaml.escape ch ++ ('\\' :: newline indent ++
          ('\\' :: '\\' :: (newline indent ++ '\\' :: ' ' :: out))))

namespace Spells

variable {indent : Nat} {cs out : List Char}

theorem escape_append_eq_cons (ch : Char) (out : List Char) :
    ∃ rest, Yaml.escape ch ++ out = '\\' :: rest := by
  obtain ⟨rest, hrest⟩ := escape_eq_cons ch
  exact ⟨rest ++ out, by rw [hrest]; rfl⟩

/-- What is written of a text does not start with a blank or a line break unless the text does. -/
theorem atGap_eq_false (h : Spells indent cs out) (hspace : cs.head? ≠ some ' ') :
    atGap out = false := by
  cases h with
  | close => rfl
  | unescaped hch h =>
      rw [atGap_of_isPlainChar (isPlainChar_of_isUnescaped hch)]
      simpa using hspace
  | joined => rfl
  | joinedSpace => rfl
  | escaped ch h | escapedJoint ch _ h | escapedJointSpace ch h | escapedSplit ch h =>
      obtain ⟨rest, hrest⟩ := escape_append_eq_cons ch _
      rw [hrest]
      rfl

/-- Behind the spaces at the start of what is written no line ends. -/
theorem atBreak_dropWhile (h : Spells indent cs out) : atBreak (out.dropWhile isSpace) = false := by
  induction h with
  | close => rfl
  | @unescaped ch cs out hch h ih =>
      by_cases hspace : isSpace ch
      · rw [List.dropWhile_cons_of_pos hspace]
        exact ih
      · rw [List.dropWhile_cons_of_neg hspace]
        exact isBreak_of_isPlainChar (isPlainChar_of_isUnescaped hch)
  | joined => rfl
  | joinedSpace => rfl
  | escaped ch h | escapedJoint ch _ h | escapedJointSpace ch h | escapedSplit ch h =>
      obtain ⟨rest, hrest⟩ := escape_append_eq_cons ch _
      rw [hrest]
      rfl

theorem atGap_of_isUnescaped (hch : isUnescaped ch) (hspace : ch ≠ ' ') (out : List Char) :
    atGap (ch :: out) = false := by
  rw [atGap_of_isPlainChar (isPlainChar_of_isUnescaped hch)]
  simpa using hspace

/-- A character that needs no escape is read as itself. -/
theorem reads_unescaped (hch : isUnescaped ch) (hspace : ch ≠ ' ') (h : Reads true text codes) :
    Reads true (ch :: text) (ch.toNat :: codes) := by
  have hmarks := hch
  simp only [isUnescaped, Bool.and_eq_true, bne_iff_ne] at hmarks
  exact h.char (atGap_of_isUnescaped hch hspace []) (by simpa using ⟨hmarks.1.2, hmarks.2⟩)

/-- However a text is written, it is read back. -/
theorem reads (hindent : 0 < indent) (h : Spells indent cs out) : Reads true out (codesOf cs) := by
  induction h with
  | close => exact Reads.closeDouble
  | @unescaped ch cs out hch h ih =>
      by_cases hspace : ch = ' '
      · subst hspace
        exact ih.space h.atBreak_dropWhile
      · exact reads_unescaped hch hspace ih
  | joined hch hspace h ih =>
      exact (reads_unescaped hch hspace ih).joint hindent (atGap_of_isUnescaped hch hspace _)
  | joinedSpace h ih => exact (ih.letter ' ' rfl).joint hindent rfl
  | escaped ch h ih => exact ih.escaped
  | escapedJoint ch hspace h ih => exact (ih.joint hindent (h.atGap_eq_false hspace)).escaped
  | escapedJointSpace ch h ih => exact ((ih.letter ' ' rfl).joint hindent rfl).escaped
  | escapedSplit ch h ih =>
      have hspaces := (ih.letter ' ' rfl).breaks hindent 0 rfl
      exact ((hspaces.letter '\\' rfl).joint hindent rfl).escaped

end Spells

/-- What is read back of a text between double marks that is indented by a depth; `first` says that no
character stands before it. If it is indented by as much as a line is wide, there is a break behind every
escape, and one more before a space there. -/
def worn (indent : Nat) (first : Bool) : List Char → List Char
  | ch :: ' ' :: next :: cs =>
    if lineWidth ≤ indent && !first && !isUnescaped ch then
      ch :: '\\' :: ' ' :: ' ' :: worn indent false (next :: cs)
    else ch :: worn indent false (' ' :: next :: cs)
  | ch :: cs => ch :: worn indent false cs
  | [] => []

/-- Whether a second break comes behind a character, between the mark of a space and the space. -/
def Splits (indent : Nat) (first : Bool) (ch : Char) (cs : List Char) : Prop :=
  lineWidth ≤ indent ∧ first = false ∧ isUnescaped ch = false ∧ ∃ next more, cs = ' ' :: next :: more

theorem worn_cons {indent : Nat} {first : Bool} {cs : List Char} (h : ¬Splits indent first ch cs) :
    worn indent first (ch :: cs) = ch :: worn indent false cs := by
  rw [worn.eq_def]
  split
  · next heq =>
    cases heq
    rw [if_neg]
    simpa [Splits] using h
  · next heq =>
    cases heq
    rfl
  · next heq => cases heq

/-- Where the margin leaves no room, the space after an escape comes back as a backslash and two. -/
theorem worn_split {indent : Nat} {next : Char} {cs : List Char} (hwide : lineWidth ≤ indent)
    (hch : isUnescaped ch = false) : worn indent false (ch :: ' ' :: next :: cs) =
      ch :: '\\' :: ' ' :: ' ' :: worn indent false (next :: cs) := by
  rw [worn, if_pos (by simp [hwide, hch])]

theorem head?_worn (indent : Nat) (first : Bool) (cs : List Char) :
    (worn indent first cs).head? = cs.head? := by
  cases cs with
  | nil => rfl
  | cons ch cs =>
      by_cases h : Splits indent first ch cs
      · obtain ⟨hwide, rfl, hch, next, more, rfl⟩ := h
        rw [worn_split hwide hch]
        rfl
      · rw [worn_cons h]
        rfl

theorem breakBefore_space (indent : Nat) (cs : List Char) :
    breakBefore indent (' ' :: cs) = ('\\' :: newline indent ++ ['\\'], indent + 1) := rfl

/-- A second break comes behind an escape, between the mark of a space and the space. -/
theorem escapeText_split {indent column : Nat} {start : Bool} {next : Char} {more : List Char}
    (hcolumn : indent ≤ column) (hwide : lineWidth ≤ indent) (hch : isUnescaped ch = false) :
    escapeText indent column false start (ch :: ' ' :: next :: more) =
      Yaml.escape ch ++ ('\\' :: newline indent ++ ('\\' :: '\\' :: (newline indent ++
        '\\' :: ' ' :: escapeText indent (indent + 1 + 1) false false (next :: more)))) := by
  have hlong := one_lt_length_escape ch
  have hspace : escapeText indent (indent + 1) false true (' ' :: next :: more) =
      '\\' :: newline indent ++ '\\' :: ' ' ::
        escapeText indent (indent + 1 + 1) false false (next :: more) := by
    rw [escapeText, if_pos (by decide), if_pos (by simp; omega)]
    simp [breakBefore_space]
  rw [escapeText, if_neg (by simp [hch])]
  dsimp only
  rw [if_pos (by simp; omega)]
  simp only [breakBefore_space, hspace]
  simp

/-- The space behind a break after an escape does not break the line once more, unless a second
break comes there. -/
theorem escapeText_space {indent : Nat} {cs : List Char} (hch : isUnescaped ch = false)
    (hsplits : ¬Splits indent false ch (' ' :: cs)) :
    escapeText indent (indent + 1) false true (' ' :: cs) =
      ' ' :: escapeText indent (indent + 1 + 1) false false cs := by
  have hjoint : ¬(!cs.isEmpty && decide (lineWidth < indent + 1)) = true := by
    intro hwide
    simp only [Bool.and_eq_true, decide_eq_true_eq] at hwide
    cases cs with
    | nil => simp at hwide
    | cons next cs => exact hsplits ⟨Nat.le_of_lt_succ hwide.2, rfl, hch, next, cs, rfl⟩
  rw [escapeText, if_pos (by decide), if_neg (by simpa using hjoint)]

/-- What is written of a text are the characters and escapes of what is read back. -/
theorem spells_escapeText (indent : Nat) : ∀ (cs : List Char) (column : Nat) (first start : Bool),
    indent ≤ column →
    Spells indent (worn indent first cs) (escapeText indent column first start cs ++ ['"'])
  | [], _, _, _, _ => .close
  | ch :: cs, column, first, start, hcolumn => by
    have hmore (column : Nat) (start : Bool) (hcolumn : indent ≤ column) :=
      spells_escapeText indent cs column false start hcolumn
    by_cases hsplits : Splits indent first ch cs
    · obtain ⟨hwide, rfl, hch, next, more, rfl⟩ := hsplits
      have hnext := spells_escapeText indent (next :: more) (indent + 1 + 1) false false (by omega)
      rw [worn_split hwide hch, escapeText_split hcolumn hwide hch]
      simpa using hnext.escapedSplit ch
    rw [worn_cons hsplits, escapeText]
    split
    · next hch =>
      split
      · -- a break before a character, which is marked if it is a space
        by_cases hspace : ch = ' '
        · subst hspace
          simpa [breakBefore] using (hmore (indent + 1 + 1) false (by omega)).joinedSpace
        · simpa [breakBefore, hspace] using
            (hmore (indent + 1) false (by omega)).joined hch hspace
      · exact .unescaped hch (hmore _ _ (by omega))
    · next hch =>
      dsimp only
      split
      · next hbreak =>
        simp only [Bool.and_eq_true, Bool.not_eq_true'] at hbreak
        by_cases hspace : cs.head? = some ' '
        · -- the space is written in the next step, which does not break the line once more
          cases cs with
          | nil => cases hspace
          | cons ch' cs =>
            obtain rfl : ch' = ' ' := by simpa using hspace
            obtain rfl : first = false := hbreak.1.1
            have hnext := spells_escapeText indent cs (indent + 1 + 1) false false (by omega)
            have hunescaped : isUnescaped ' ' = true := by decide
            rw [worn_cons fun h => by simp [Splits, hunescaped] at h]
            simpa [breakBefore, escapeText_space (by simpa using hch) hsplits] using
              hnext.escapedJointSpace ch
        · have hjoint := (hmore indent true le_rfl).escapedJoint ch
            (by rw [head?_worn]; exact hspace)
          simpa [breakBefore, hspace] using hjoint
      · rw [List.append_assoc]
        exact (hmore _ _ (by omega)).escaped ch

/-! ### Brittle texts -/

/-- Reading back may add to a text but loses nothing of it. -/
theorem sublist_worn (indent : Nat) : ∀ (first : Bool) (cs : List Char),
    cs.Sublist (worn indent first cs)
  | _, [] => List.nil_sublist _
  | first, ch :: cs => by
    by_cases h : Splits indent first ch cs
    · obtain ⟨hwide, rfl, hch, next, more, rfl⟩ := h
      rw [worn_split hwide hch]
      have hmore := (sublist_worn indent false (next :: more)).cons_cons ' '
      exact ((hmore.cons ' ').cons '\\').cons_cons ch
    · rw [worn_cons h]
      exact (sublist_worn indent false cs).cons_cons ch

/-- Whether an escape is in a text with a space and another character behind it. -/
def hasSpacedEscape : List Char → Bool
  | ch :: ' ' :: next :: cs => !isUnescaped ch || hasSpacedEscape (' ' :: next :: cs)
  | _ :: cs => hasSpacedEscape cs
  | [] => false

theorem hasSpacedEscape_cons {indent : Nat} {cs : List Char} (hwide : lineWidth ≤ indent)
    (h : ¬Splits indent false ch cs) : hasSpacedEscape (ch :: cs) = hasSpacedEscape cs := by
  rw [hasSpacedEscape.eq_def]
  split
  · next heq =>
    cases heq
    simp [Splits, hwide] at h
    simp [h]
  · next heq =>
    cases heq
    rfl
  · next heq => cases heq

/-- A text becomes another one exactly if it has an escape, not as its first character, with a space and
another character behind it. -/
theorem worn_eq_self_iff (indent : Nat) : ∀ (first : Bool) (cs : List Char),
    worn indent first cs = cs ↔
      (lineWidth ≤ indent → hasSpacedEscape (if first then cs.drop 1 else cs) = false)
  | first, [] => by simp [worn, hasSpacedEscape]
  | first, ch :: cs => by
    by_cases h : Splits indent first ch cs
    · obtain ⟨hwide, rfl, hch, next, more, rfl⟩ := h
      rw [worn_split hwide hch]
      refine ⟨fun heq => ?_, fun hsound => ?_⟩
      · have hlength := (sublist_worn indent false (next :: more)).length_le
        have hsame := congrArg List.length heq
        simp only [List.length_cons] at hlength hsame
        omega
      · have := hsound hwide
        simp [hasSpacedEscape, hch] at this
    · rw [worn_cons h, List.cons_eq_cons, eq_self, true_and, worn_eq_self_iff indent false cs]
      refine forall_congr' fun hwide => ?_
      cases first with
      | true => rfl
      | false => simp [hasSpacedEscape_cons hwide h]

/-! ## Texts without escapes -/

/-- The ways in which a text stands between single marks, with its closing mark: lines are broken at
spaces, and line breaks are doubled. -/
inductive Folds (indent : Nat) : List Char → List Char → Prop where
  | close : Folds indent [] ['\'']
  | char {ch : Char} {cs out : List Char} (hch : isPlainChar ch) (hspace : ch ≠ ' ')
      (hmark : ch ≠ '\'') (h : Folds indent cs out) : Folds indent (ch :: cs) (ch :: out)
  | apostrophe {cs out : List Char} (h : Folds indent cs out) :
      Folds indent ('\'' :: cs) ('\'' :: '\'' :: out)
  | space {cs out : List Char} (hout : atBreak out = false) (h : Folds indent cs out) :
      Folds indent (' ' :: cs) (' ' :: out)
  | folded {cs out : List Char} (hout : atGap out = false) (h : Folds indent cs out) :
      Folds indent (' ' :: cs) (newline indent ++ out)
  | breaks (n : Nat) {cs out : List Char} (hout : atGap out = false) (h : Folds indent cs out) :
      Folds indent (List.replicate (n + 1) '\n' ++ cs)
        ('\n' :: List.replicate (n + 1) '\n' ++ List.replicate indent ' ' ++ out)

namespace Folds

variable {indent : Nat} {cs out : List Char}

/-- If no line ends at once, none does behind the spaces. -/
theorem atBreak_dropWhile (h : Folds indent cs out) (hout : atBreak out = false) :
    atBreak (out.dropWhile isSpace) = false := by
  induction h with
  | close => rfl
  | @char ch cs out hch hspace hmark h ih =>
      have hgap := atGap_of_isPlainChar hch out
      rw [beq_eq_false_iff_ne.mpr hspace] at hgap
      have hblank : ¬isSpace ch = true := by
        simpa using isSpace_head_of_atGap hgap ch rfl
      rw [List.dropWhile_cons_of_neg hblank]
      exact hout
  | apostrophe => rfl
  | space hnext h ih =>
      rw [List.dropWhile_cons_of_pos rfl]
      exact ih hnext
  | folded => cases hout
  | breaks => cases hout

/-- However a text is written, it is read back. -/
theorem reads (hindent : 0 < indent) (h : Folds indent cs out) : Reads false out (codesOf cs) := by
  induction h with
  | close => exact Reads.closeSingle
  | @char ch cs out hch hspace hmark h ih =>
      have hgap := atGap_of_isPlainChar hch []
      rw [beq_eq_false_iff_ne.mpr hspace] at hgap
      exact ih.char hgap (by simpa using hmark)
  | apostrophe h ih => exact ih.apostrophe
  | space hout h ih => exact ih.space (h.atBreak_dropWhile hout)
  | folded hout h ih => exact ih.breaks hindent 0 hout
  | breaks n hout h ih =>
      have hread := ih.breaks hindent (n + 1) hout
      rw [foldBreaks] at hread
      simpa [codesOf, List.replicate_succ] using hread

end Folds

theorem foldText_char {single : Bool} {indent column : Nat} {before : Option Char} {cs : List Char}
    (hspace : ch ≠ ' ') (hbreak : ch ≠ '\n') :
    foldText single indent column before (ch :: cs) =
      if single && ch = '\'' then
        '\'' :: '\'' :: foldText single indent (column + 2) (some ch) cs
      else ch :: foldText single indent (column + 1) (some ch) cs := by
  rw [foldText]
  · exact hspace
  · exact hbreak

/-- Line breaks after the first one are written once. -/
theorem foldText_newlines_after {indent column : Nat} (n : Nat) {cs : List Char}
    (hcs : cs.head? ≠ some '\n') :
    foldText true indent column (some '\n') (List.replicate (n + 1) '\n' ++ cs) =
      List.replicate (n + 1) '\n' ++ List.replicate indent ' ' ++
        foldText true indent indent (some '\n') cs := by
  induction n generalizing column with
  | zero => simp [foldText, hcs]
  | succ n ih =>
      rw [List.replicate_succ, List.cons_append, foldText]
      have hhead : (List.replicate (n + 1) '\n' ++ cs).head? = some '\n' := rfl
      simp [hhead, ih]

/-- The first of some line breaks is written twice. -/
theorem foldText_newlines {indent column : Nat} {before : Option Char} (n : Nat) {cs : List Char}
    (hbefore : before ≠ some '\n') (hcs : cs.head? ≠ some '\n') :
    foldText true indent column before (List.replicate (n + 1) '\n' ++ cs) =
      '\n' :: List.replicate (n + 1) '\n' ++ List.replicate indent ' ' ++
        foldText true indent indent (some '\n') cs := by
  rw [List.replicate_succ, List.cons_append, foldText]
  cases n with
  | zero => simp [hbefore, hcs]
  | succ n =>
      have hhead : (List.replicate (n + 1) '\n' ++ cs).head? = some '\n' := rfl
      simp [hbefore, hhead, foldText_newlines_after n hcs]

/-- Behind a space no line break is put in. -/
theorem atBreak_foldText {indent column : Nat} {cs : List Char} (hcs : cs.head? ≠ some '\n')
    (hplain : ∀ ch ∈ cs, isPlainChar ch ∨ ch = '\n') :
    atBreak (foldText true indent column (some ' ') cs ++ ['\'']) = false := by
  cases cs with
  | nil => rfl
  | cons ch cs =>
      have hch : isPlainChar ch = true := (hplain ch List.mem_cons_self).resolve_right fun heq =>
        hcs (by rw [heq]; rfl)
      unfold foldText
      split
      · rfl
      · next heq =>
        cases heq
        simp [atBreak, isBreak]
      · next heq =>
        cases heq
        exact absurd rfl hcs
      · next heq =>
        cases heq
        split
        · rfl
        · exact isBreak_of_isPlainChar hch

/-- A text starts with some number of one character, perhaps none. -/
theorem exists_run (first : Char) (cs : List Char) :
    ∃ n rest, cs = List.replicate n first ++ rest ∧ rest.head? ≠ some first := by
  induction cs with
  | nil => exact ⟨0, [], rfl, by simp⟩
  | cons ch cs ih =>
      by_cases hch : ch = first
      · obtain ⟨n, rest, rfl, hrest⟩ := ih
        exact ⟨n + 1, rest, by rw [hch]; rfl, hrest⟩
      · exact ⟨0, ch :: cs, rfl, by simpa using hch⟩

theorem hasSpaceAtBreak_tail {cs : List Char} (h : hasSpaceAtBreak (ch :: cs) = false) :
    hasSpaceAtBreak cs = false := by
  unfold hasSpaceAtBreak at h
  split at h
  · cases h
  · cases h
  · next heq =>
    cases heq
    exact h
  · next heq => cases heq

/-- No space follows line breaks where no space and line break stand side by side. -/
theorem hasSpaceAtBreak_newlines {n : Nat} {cs : List Char}
    (h : hasSpaceAtBreak (List.replicate (n + 1) '\n' ++ cs) = false) :
    cs.head? ≠ some ' ' ∧ hasSpaceAtBreak cs = false := by
  induction n with
  | zero =>
      refine ⟨fun hspace => ?_, hasSpaceAtBreak_tail h⟩
      cases cs with
      | nil => cases hspace
      | cons ch cs =>
          cases hspace
          cases h
  | succ n ih => exact ih (hasSpaceAtBreak_tail h)

/-- What is written does not start with a blank or a line break unless the text does. -/
theorem atGap_foldText {indent column : Nat} {before : Option Char} {cs : List Char}
    (hspace : cs.head? ≠ some ' ') (hbreak : cs.head? ≠ some '\n')
    (hplain : ∀ ch ∈ cs, isPlainChar ch ∨ ch = '\n') :
    atGap (foldText true indent column before cs ++ ['\'']) = false := by
  cases cs with
  | nil => rfl
  | cons ch cs =>
      have hch : isPlainChar ch = true := (hplain ch List.mem_cons_self).resolve_right fun heq =>
        hbreak (by rw [heq]; rfl)
      unfold foldText
      split
      · rfl
      · next heq =>
        cases heq
        exact absurd rfl hspace
      · next heq =>
        cases heq
        exact absurd rfl hbreak
      · next heq =>
        cases heq
        split
        · rfl
        · rw [List.cons_append, atGap_of_isPlainChar hch]
          simpa using hspace

/-- What is written of a text between single marks are its characters, with lines broken at single
spaces and line breaks doubled. -/
theorem folds_foldText (indent : Nat) (cs : List Char) (column : Nat) (before : Option Char)
    (hplain : ∀ ch ∈ cs, isPlainChar ch ∨ ch = '\n') (hspaces : hasSpaceAtBreak cs = false)
    (hbefore : before = some '\n' → cs.head? ≠ some '\n') :
    Folds indent cs (foldText true indent column before cs ++ ['\'']) := by
  cases cs with
  | nil => exact .close
  | cons ch cs =>
      have hplain' : ∀ ch ∈ cs, isPlainChar ch ∨ ch = '\n' := fun ch hch =>
        hplain ch (List.mem_cons_of_mem _ hch)
      have hspaces' := hasSpaceAtBreak_tail hspaces
      by_cases hspace : ch = ' '
      · subst hspace
        have hnobreak : cs.head? ≠ some '\n' := by
          intro heq
          cases cs with
          | nil => cases heq
          | cons ch cs =>
              cases heq
              cases hspaces
        have hmore (column : Nat) := folds_foldText indent cs column (some ' ') hplain'
          hspaces' nofun
        rw [foldText]
        split
        · next hfold =>
          -- a line that is broken does not go on with a space
          have hnospace : cs.head? ≠ some ' ' := by
            simp only [Bool.and_eq_true, Bool.not_eq_true'] at hfold
            intro heq
            cases cs with
            | nil => cases heq
            | cons ch cs =>
                cases heq
                cases hfold.2
          rw [List.append_assoc]
          exact .folded (atGap_foldText hnospace hnobreak hplain') (hmore _)
        · exact .space (atBreak_foldText hnobreak hplain') (hmore _)
      by_cases hbreak : ch = '\n'
      · subst hbreak
        obtain ⟨n, rest, rfl, hrest⟩ := exists_run '\n' cs
        have hrun : '\n' :: (List.replicate n '\n' ++ rest) =
            List.replicate (n + 1) '\n' ++ rest := rfl
        rw [hrun] at hspaces ⊢
        obtain ⟨hnospace, hspaces'⟩ := hasSpaceAtBreak_newlines hspaces
        have hplain' : ∀ ch ∈ rest, isPlainChar ch ∨ ch = '\n' := fun ch hch =>
          hplain' ch (List.mem_append_right _ hch)
        rw [foldText_newlines n (fun heq => absurd rfl (hbefore heq)) hrest, List.append_assoc]
        exact .breaks n (atGap_foldText hnospace hrest hplain')
          (folds_foldText indent rest indent (some '\n') hplain' hspaces' fun _ => hrest)
      · have hch : isPlainChar ch = true := (hplain ch List.mem_cons_self).resolve_right hbreak
        have hmore (column : Nat) := folds_foldText indent cs column (some ch) hplain'
          hspaces' (fun heq => absurd (Option.some.inj heq) hbreak)
        rw [foldText_char hspace hbreak]
        by_cases hmark : ch = '\''
        · subst hmark
          exact .apostrophe (hmore _)
        · simpa [hmark] using (hmore (column + 1)).char hch hspace hmark
termination_by cs.length

/-! ## What is written between marks -/

theorem ofCodes_codesOf (cs : List Char) : Written.ofCodes (codesOf cs) = .chars cs := by
  have hvalid : ((codesOf cs).all fun n => n.isValidChar) = true := by
    simp only [codesOf, List.all_map, List.all_eq_true, Function.comp_apply, decide_eq_true_eq]
    exact fun ch _ => ch.valid
  rw [Written.ofCodes, if_pos hvalid]
  simp [codesOf, Function.comp_def]

/-- A text with both of its marks is read. -/
theorem quotedText_of_reads {cs tail : List Char} (mark : Char) (h : Reads double text (codesOf cs))
    (htail : tail.head? ≠ some '\'') (hrest : c.rest = mark :: text ++ tail) :
    quotedText double c = .ok (.chars cs, c.past (mark :: text)) := by
  have hnext : c.next.rest = text ++ tail := Cursor.rest_next_of mark hrest
  have hread := h c.next tail (c.rest.length + 1) hnext htail (by
    rw [hrest]
    simp only [List.cons_append, List.length_cons, List.length_append]
    omega)
  simp [quotedText, hread, ofCodes_codesOf, Cursor.past_cons, bind, Except.bind, pure, Except.pure]

variable {indent column : Nat} {cs tail : List Char}

/-- **Between double marks** a text is read back as it has become. -/
theorem quotedText_double (hindent : 0 < indent) (hcolumn : indent ≤ column)
    (htail : tail.head? ≠ some '\'')
    (hrest : c.rest = '"' :: escapeText indent column true true cs ++ ['"'] ++ tail) :
    quotedText true c = .ok (.chars (worn indent true cs),
      c.past ('"' :: escapeText indent column true true cs ++ ['"'])) :=
  quotedText_of_reads '"' ((spells_escapeText indent cs column true true hcolumn).reads hindent) htail
    hrest

/-- **Between single marks** every text that stands there is read back. -/
theorem quotedText_single (hindent : 0 < indent) (hcs : isSingle cs)
    (htail : tail.head? ≠ some '\'')
    (hrest : c.rest = '\'' :: foldText true indent column none cs ++ ['\''] ++ tail) :
    quotedText false c =
      .ok (.chars cs, c.past ('\'' :: foldText true indent column none cs ++ ['\''])) := by
  simp only [isSingle, Bool.and_eq_true, List.all_eq_true, Bool.or_eq_true, beq_iff_eq,
    Bool.not_eq_true'] at hcs
  exact quotedText_of_reads '\''
    ((folds_foldText indent cs column none hcs.1 hcs.2 nofun).reads hindent) htail hrest

/-! ## Reading back -/

/-- What a text is read back as, if it is indented by a depth. -/
def reread (indent : Nat) (cs : List Char) : List Char :=
  if isPlain cs || isSingle cs then cs else worn indent true cs

/-- Whether a text comes back changed: it stands between double marks and is indented by as much as a
line is wide, and a space with a character behind it follows an escape that is not its first
character. -/
def isBrittle (indent : Nat) (cs : List Char) : Bool :=
  lineWidth ≤ indent && !isPlain cs && !isSingle cs && hasSpacedEscape (cs.drop 1)

/-- A quoted text comes back unchanged exactly when it is not brittle. -/
theorem reread_eq_self_iff : reread indent cs = cs ↔ isBrittle indent cs = false := by
  rw [reread, isBrittle]
  split
  · next h =>
    rw [Bool.or_eq_true] at h
    rcases h with h | h <;> simp [h]
  · next h =>
    simp only [Bool.or_eq_true, not_or, Bool.not_eq_true] at h
    rw [worn_eq_self_iff]
    simp [h.1, h.2]

theorem hasSpaceAtBreak_of_isPlainChar (h : ∀ ch ∈ cs, isPlainChar ch) :
    hasSpaceAtBreak cs = false := by
  have hbreak : isPlainChar '\n' = false := by decide
  fun_induction hasSpaceAtBreak cs with
  | case1 => simp [hbreak] at h
  | case2 => simp [hbreak] at h
  | case3 _ _ _ _ ih => exact ih (List.forall_mem_cons.mp h).2
  | case4 => rfl

/-- A text that single quotes cannot hold has a character that is not plain. -/
theorem exists_not_isPlainChar (h : isSingle cs = false) : ∃ ch ∈ cs, isPlainChar ch = false := by
  by_contra hnone
  have hplain : ∀ ch ∈ cs, isPlainChar ch = true := by simpa using hnone
  have hsingle : isSingle cs = true := by
    rw [isSingle, hasSpaceAtBreak_of_isPlainChar hplain]
    simpa using fun ch hch => Or.inl (hplain ch hch)
  rw [h] at hsingle
  cases hsingle

/-- A text that is not written plainly does not come back as one that would be. -/
theorem isPlain_reread (indent : Nat) (cs : List Char) : isPlain (reread indent cs) = isPlain cs := by
  rw [reread]
  split
  · rfl
  · next h =>
    simp only [Bool.or_eq_true, not_or, Bool.not_eq_true] at h
    obtain ⟨ch, hmem, hch⟩ := exists_not_isPlainChar h.2
    rw [h.1, Bool.eq_false_iff]
    intro hplain
    simp only [isPlain, Bool.and_eq_true, List.all_eq_true] at hplain
    have := hplain.1.1.1.1.2 ch ((sublist_worn indent true cs).mem hmem)
    simp [hch] at this

end Stylesheet.Data.Yaml.Quoted
