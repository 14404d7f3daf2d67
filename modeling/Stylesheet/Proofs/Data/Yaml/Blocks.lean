import Mathlib
import Stylesheet.Data.Yaml.Token
import Stylesheet.Proofs.Data.Yaml.Plain

/-!
# The tokens of written data

A text is cut from token to token. `Leads` says that cutting goes on from one state as from another;
it has a lemma for every piece that written data is made of. Between tokens blocks end as soon as the
next token stands further left than they do, so that the state behind a token depends on the place that
follows the gap: `arrive` is the state at that place.

* `Lexer.leads_spaces`, `Lexer.leads_newline` : the gaps before values.
* `Lexer.leads_plain`, `Lexer.leads_quoted`, `Lexer.leads_brackets` : values on their own.
* `Lexer.leads_key` : the name of an entry with its colon.
* `Lexer.leads_item` : the mark of an item.
-/

namespace Stylesheet.Data.Yaml

open Plain

namespace Lexer

variable {l l' l'' : Lexer} {c : Cursor} {tail : List Char}

/-! ## Runs -/

/-- From a first state cutting comes to the same tokens as from a second one, if it comes to the end of
the text from there. Every token on the way takes a character at least. -/
def Leads (l l' : Lexer) : Prop :=
  ∃ n, n + l'.cursor.rest.length ≤ l.cursor.rest.length ∧
    ∀ fuel tokens, run (fuel + 1) l' = (tokens, none) → run (fuel + 1 + n) l = (tokens, none)

namespace Leads

/-- One stretch of tokens leads on where another ends. -/
theorem trans (h : Leads l l') (h' : Leads l' l'') : Leads l l'' := by
  obtain ⟨n, hlength, hrun⟩ := h
  obtain ⟨m, hlength', hrun'⟩ := h'
  refine ⟨m + n, by omega, fun fuel tokens hend => ?_⟩
  have hmiddle := hrun' fuel tokens hend
  rw [Nat.add_right_comm] at hmiddle
  rw [← Nat.add_assoc, Nat.add_right_comm fuel 1 m]
  exact hrun (fuel + m) tokens hmiddle

/-- One step takes one token. -/
theorem of_step (hstep : l.step = .ok (l', false))
    (hlength : l'.cursor.rest.length < l.cursor.rest.length) : Leads l l' :=
  ⟨1, by omega, fun fuel tokens hend => by rw [run, hstep]; exact hend⟩

/-- Two states go on alike if their next steps are the same. -/
theorem of_step_eq (hstep : l.step = l'.step)
    (hlength : l'.cursor.rest.length ≤ l.cursor.rest.length) : Leads l l' := by
  refine ⟨0, by omega, fun fuel tokens hend => ?_⟩
  rw [run] at hend
  rw [Nat.add_zero, run, hstep]
  split at hend
  · exact hend
  · exact hend
  · cases hend

end Leads

/-! ## Gaps -/

theorem skipComment_of_begins (h : Begins c.rest) : c.skipComment = c := by
  simp [Cursor.skipComment, h.head?_ne_comment]

theorem skip_spaces (n : Nat) (htail : Begins tail)
    (hrest : c.rest = List.replicate n ' ' ++ tail) :
    c.skip (· == ' ') = c.past (List.replicate n ' ') := by
  refine Cursor.skip_eq_past hrest (fun ch hch => ?_) fun ch hch => ?_
  · rw [List.eq_of_mem_replicate hch]
    rfl
  · rw [beq_eq_false_iff_ne]
    rintro rfl
    exact htail.head?_ne_space hch

/-- Spaces before a token are passed over. -/
theorem skipGap_spaces (n fuel : Nat) (htail : Begins tail)
    (hrest : l.cursor.rest = List.replicate n ' ' ++ tail) :
    skipGap (fuel + 1) l = { l with cursor := l.cursor.past (List.replicate n ' ') } := by
  have hplace : Begins (l.cursor.past (List.replicate n ' ')).rest := by
    rwa [Cursor.rest_past hrest]
  rw [skipGap]
  simp [skip_spaces n htail hrest, skipComment_of_begins hplace, hplace.lineBreak?]

theorem skipGap_of_begins (fuel : Nat) (h : Begins l.cursor.rest) : skipGap (fuel + 1) l = l :=
  skipGap_spaces 0 fuel h rfl

/-- A line break before a token is passed over, and a key may begin in the new line. -/
theorem skipGap_newline (n : Nat) (htail : Begins tail)
    (hrest : l.cursor.rest = newline n ++ tail) :
    skipGap (l.cursor.rest.length + 1) l =
      { l with cursor := l.cursor.past (newline n), keyAllowed := l.keyAllowed || l.level == 0 } := by
  have hline : l.cursor.rest = '\n' :: (List.replicate n ' ' ++ tail) := hrest
  have hskip : l.cursor.skip (· == ' ') = l.cursor := by
    simp [Cursor.skip, hline, Cursor.advance]
  have hcomment : l.cursor.skipComment = l.cursor := by simp [Cursor.skipComment, hline]
  rw [skipGap]
  simp only [hskip, hcomment, Cursor.lineBreak?_of_newline hline]
  rw [hline, List.length_cons]
  exact skipGap_spaces n _ htail (Cursor.rest_next_of '\n' hline)

/-! ## Blocks that end -/

/-- Nothing ends where the innermost block is not further right. -/
theorem unwind_of_le {column : Int} (h : l.indent ≤ column) : l.unwind column = l := by
  have hended : ((l.indent :: l.outer).takeWhile fun indent => decide (column < indent)) = [] := by
    simp [not_lt.mpr h]
  simp [unwind, hended]

section

variable (column : Int) (l : Lexer)

@[simp] theorem unwind_cursor : (l.unwind column).cursor = l.cursor := by
  unfold unwind
  split <;> rfl

@[simp] theorem unwind_keys : (l.unwind column).keys = l.keys := by
  unfold unwind
  split <;> rfl

@[simp] theorem unwind_level : (l.unwind column).level = l.level := by
  unfold unwind
  split <;> rfl

@[simp] theorem unwind_keyAllowed : (l.unwind column).keyAllowed = l.keyAllowed := by
  unfold unwind
  split <;> rfl

end

/-- The blocks that are left are not further right. -/
theorem indent_unwind_le (column : Nat) (hlevel : l.level = 0) :
    (l.unwind column).indent ≤ column := by
  have hleft : ∀ indents : List Int,
      (indents.drop (indents.takeWhile fun indent => decide ((column : Int) < indent)).length).headD
        (-1) ≤ column := by
    intro indents
    induction indents with
    | nil => simp
    | cons indent indents ih =>
        by_cases h : (column : Int) < indent
        · simpa [h] using ih
        · rw [List.takeWhile_cons_of_neg (by simpa using h)]
          simpa using not_lt.mp h
  simp only [unwind, hlevel, ne_eq, not_true_eq_false, if_false]
  exact hleft (l.indent :: l.outer)

/-! ## Between tokens -/

theorem dropKeys_of_none {p : PossibleKey → Bool} (h : ∀ key ∈ l.keys, p key = false) :
    l.dropKeys p = .ok l := by
  have hnone : ¬(l.keys.any fun key => p key && key.required) := by
    simpa using fun key hkey hdropped => absurd hdropped (by simp [h key hkey])
  rw [dropKeys, if_neg hnone, List.filter_eq_self.mpr fun key hkey => by simp [h key hkey]]

theorem dropKeys_of_nil (p : PossibleKey → Bool) (h : l.keys = []) : l.dropKeys p = .ok l :=
  dropKeys_of_none (by simp [h])

/-- Keys that may have begun in other lines have not, unless they were required. -/
theorem dropStale_of_line (h : ∀ key ∈ l.keys, key.required = false ∧ key.line ≠ l.cursor.line) :
    l.dropStale = .ok { l with keys := [] } := by
  have hrequired : (l.keys.any fun key =>
      (key.line != l.cursor.line || decide (1024 < l.cursor.index - key.index)) &&
        key.required) = false := by
    rw [List.any_eq_false]
    intro key hkey
    simp [(h key hkey).1]
  have hkept : (l.keys.filter fun key =>
      !(key.line != l.cursor.line || decide (1024 < l.cursor.index - key.index))) = [] := by
    rw [List.filter_eq_nil_iff]
    intro key hkey
    simp [(h key hkey).2]
  simp only [dropStale, dropKeys, hrequired, hkept, Bool.false_eq_true, if_false]

/-- From a gap cutting comes to the token behind it, where blocks further right have ended. -/
theorem Leads.of_gap (hgap : skipGap (l.cursor.rest.length + 1) l = l')
    (hkeys : ∀ key ∈ l'.keys, key.required = false ∧ key.line ≠ l'.cursor.line)
    (hbegins : Begins l'.cursor.rest) (hlevel : l'.level = 0)
    (hlength : l'.cursor.rest.length ≤ l.cursor.rest.length) :
    Leads l ({ l' with keys := [] }.unwind l'.cursor.column) := by
  refine of_step_eq ?_ (by simpa using hlength)
  have hnone : ({ l' with keys := [] }.unwind l'.cursor.column).dropStale =
      .ok ({ l' with keys := [] }.unwind l'.cursor.column) := dropKeys_of_nil _ (by simp)
  have hleft : ({ l' with keys := [] }.unwind l'.cursor.column).unwind l'.cursor.column =
      { l' with keys := [] }.unwind l'.cursor.column :=
    unwind_of_le (indent_unwind_le l'.cursor.column hlevel)
  have hbegins' : Begins ({ l' with keys := [] }.unwind l'.cursor.column).cursor.rest := by
    simpa using hbegins
  rw [step, step]
  simp only [hgap, skipGap_of_begins _ hbegins', dropStale_of_line hkeys, hnone, bind, Except.bind]
  simp [hleft]

def moved (c : Cursor) (keyAllowed : Bool) (l : Lexer) : Lexer :=
  { l with cursor := c, keyAllowed }

/-- Spaces in a line are passed over. -/
theorem leads_spaces (n : Nat) (hkeys : l.keys = []) (hlevel : l.level = 0)
    (hindent : l.indent ≤ (l.cursor.column + n : Nat)) (hbegins : Begins tail)
    (hrest : l.cursor.rest = List.replicate n ' ' ++ tail) :
    Leads l (l.moved (l.cursor.past (List.replicate n ' ')) l.keyAllowed) := by
  have hplace := Cursor.past_ink hrest fun ch hch => by
    rw [List.eq_of_mem_replicate hch]
    rfl
  have hlead := Leads.of_gap (skipGap_spaces n _ hbegins hrest) (by simp [hkeys])
    (by rwa [hplace]) hlevel (by simp [hplace, hrest])
  rw [unwind_of_le (by simpa [hplace] using hindent)] at hlead
  obtain ⟨cursor, tokens, count, level, indent, outer, keyAllowed, keys⟩ := l
  obtain rfl : keys = [] := hkeys
  exact hlead

/-- A line break is passed over, and the innermost block goes on. -/
theorem leads_newline (n : Nat) (hkeys : l.keys = []) (hlevel : l.level = 0)
    (hindent : l.indent ≤ n) (hbegins : Begins tail)
    (hrest : l.cursor.rest = newline n ++ tail) :
    Leads l (l.moved (l.cursor.past (newline n)) true) := by
  have hplace := Cursor.past_newline hrest
  have hlead := Leads.of_gap (skipGap_newline n hbegins hrest) (by simp [hkeys])
    (by rwa [hplace]) hlevel (by simp [hplace, hrest])
  rw [unwind_of_le (by simpa [hplace] using hindent)] at hlead
  obtain ⟨cursor, tokens, count, level, indent, outer, keyAllowed, keys⟩ := l
  obtain rfl : keys = [] := hkeys
  obtain rfl : level = 0 := hlevel
  simpa [moved] using hlead

/-- The next step at a token is the one that its first character tells. -/
theorem step_of_token {ch : Char} {after : List Char} (hbegins : Begins l.cursor.rest)
    (hfresh : l.dropStale = .ok l) (hleft : l.unwind l.cursor.column = l)
    (hrest : l.cursor.rest = ch :: after) :
    l.step = (l.take ch after).map fun l => (l, false) := by
  rw [step]
  simp only [skipGap_of_begins _ hbegins, hfresh, bind, Except.bind, hleft, hrest]
  cases l.take ch after <;> rfl

/-! ## States -/

/-- A state at the start of a token outside of brackets, in the innermost block or further right, where
nothing before may still be a key. -/
structure AtToken (l : Lexer) : Prop where
  level : l.level = 0
  keys : l.keys = []
  begins : Begins l.cursor.rest
  indent : l.indent ≤ l.cursor.column

/-- At a token the lexer takes it, its keys and indentation being settled. -/
theorem AtToken.step_eq {ch : Char} {after : List Char} (h : l.AtToken)
    (hrest : l.cursor.rest = ch :: after) : l.step = (l.take ch after).map fun l => (l, false) :=
  step_of_token h.begins (dropKeys_of_nil _ h.keys) (unwind_of_le h.indent) hrest

/-- The state after more tokens, at a place in a new line. -/
def after (tokens : List Token) (c : Cursor) (l : Lexer) : Lexer :=
  { l with
    tokens := tokens.reverse ++ l.tokens
    count := l.count + tokens.length
    cursor := c
    keyAllowed := true
    keys := [] }

/-- The state after more tokens and the blocks that end with them. -/
def arrive (tokens : List Token) (c : Cursor) (l : Lexer) : Lexer :=
  (l.after tokens c).unwind c.column

/-- The keys that may begin at a token. -/
def marks (l : Lexer) : List PossibleKey :=
  if l.keyAllowed then
    [⟨0, l.count, l.indent == l.cursor.column, l.cursor.index, l.cursor.line, l.cursor.column⟩]
  else []

theorem AtToken.markKey_eq (h : l.AtToken) : l.markKey = .ok { l with keys := l.marks } := by
  obtain ⟨cursor, tokens, count, level, indent, outer, keyAllowed, keys⟩ := l
  obtain rfl : level = 0 := h.level
  obtain rfl : keys = [] := h.keys
  cases keyAllowed <;> simp [markKey, marks, dropKey, dropKeys, bind, Except.bind, pure, Except.pure]

/-- What is further right than the innermost block need not be a key. -/
theorem required_of_mem_marks (h : l.indent < l.cursor.column) {key : PossibleKey}
    (hkey : key ∈ l.marks) : key.required = false ∧ key.line = l.cursor.line := by
  unfold marks at hkey
  split at hkey
  · rw [List.mem_singleton] at hkey
    subst hkey
    exact ⟨by simpa using h.ne, rfl⟩
  · cases hkey

end Lexer

namespace Cursor

variable {c : Cursor}

theorem line_le_next (c : Cursor) : c.line ≤ c.next.line := by
  unfold next
  split
  · exact Nat.le_refl _
  · split
    · exact Nat.le_succ _
    · exact Nat.le_refl _

theorem line_le_past (s : List Char) (c : Cursor) : c.line ≤ (c.past s).line := by
  induction s generalizing c with
  | nil => exact Nat.le_refl _
  | cons ch s ih => exact (line_le_next c).trans (ih c.next)

/-- A place behind a line break is in another line. -/
theorem line_lt_past_newline {s t : List Char} {n : Nat} (h : c.rest = s ++ (newline n ++ t)) :
    c.line < (c.past (s ++ newline n)).line := by
  have hplace := rest_past h
  rw [past_append, past_newline hplace]
  exact Nat.lt_succ_of_le (line_le_past s c)

end Cursor

namespace Lexer

variable {l : Lexer} {tail : List Char}

/-! ## Values -/

/-- The place behind a value, where the next line has a token that is not further right than the
innermost block. -/
structure Closes (n : Nat) (tail : List Char) (l : Lexer) : Prop where
  begins : Begins tail
  marker : atMarker (List.replicate n ' ' ++ tail) = false
  indent : (n : Int) ≤ l.indent

/-- Outside lists a character that is no indicator starts a plain text. -/
theorem take_plain {ch : Char} {after : List Char} (hlevel : l.level = 0)
    (hcolumn : l.cursor.column ≠ 0 ∨ atMarker l.cursor.rest = false) (hch : isPlainChar ch)
    (hspace : ch ≠ ' ') (hindicator : ch ∉ indicators)
    (hafter : ch = '?' ∨ ch = ':' ∨ ch = '-' → atGap after = false) :
    l.take ch after = l.takePlain := by
  -- a plain text is tried last, so that all other tokens have to be ruled out
  have hgap : atGap [ch] = false := by
    rw [atGap_of_isPlainChar hch]
    simpa using hspace
  have hstart : ¬(l.cursor.column = 0 ∧ atDocumentStart l.cursor.rest = true) := by
    rintro ⟨hzero, hmarker⟩
    rcases hcolumn with hne | hnone
    · exact hne hzero
    · simp [atMarker, hmarker] at hnone
  have hend : ¬(l.cursor.column = 0 ∧ atDocumentEnd l.cursor.rest = true) := by
    rintro ⟨hzero, hmarker⟩
    rcases hcolumn with hne | hnone
    · exact hne hzero
    · simp [atMarker, hmarker] at hnone
  have hplain : atPlain false (ch :: after) = true := by
    rw [atPlain]
    split
    · next hmark =>
      have hmark : ch = '-' ∨ ch = '?' ∨ ch = ':' := by simpa using hmark
      have hgap := hafter (by tauto)
      simp [hgap]
    · simp only [indicators, List.mem_cons, List.not_mem_nil, or_false, not_or] at hindicator
      simp [hgap, hindicator]
  simp only [indicators, List.mem_cons, List.not_mem_nil, or_false, not_or] at hindicator
  have hitem : ¬(ch = '-' ∧ atGap after = true) := by
    rintro ⟨rfl, h⟩
    rw [hafter (.inr (.inr rfl))] at h
    cases h
  have hkey : ¬(ch = '?' ∧ atGap after = true) := by
    rintro ⟨rfl, h⟩
    rw [hafter (.inl rfl)] at h
    cases h
  have hvalue : ¬(ch = ':' ∧ atGap after = true) := by
    rintro ⟨rfl, h⟩
    rw [hafter (.inr (.inl rfl))] at h
    cases h
  unfold take
  simp only [hlevel, hindicator, hstart, hend, hitem, hkey, hvalue, hplain, bne_self_eq_false,
    Bool.false_eq_true, false_and, false_or, if_false, if_true]

def behind (tokens : List Token) (c : Cursor) (keyAllowed : Bool) (l : Lexer) : Lexer :=
  { l with
    tokens := tokens.reverse ++ l.tokens
    count := l.count + tokens.length
    cursor := c
    keyAllowed
    keys := l.marks }

/-- A line ends behind a value. -/
theorem Leads.of_behind {n : Nat} {tokens : List Token} {c : Cursor} {keyAllowed : Bool}
    (h : l.AtToken) (hcolumn : l.indent < l.cursor.column) (hcloses : l.Closes n tail)
    (hline : l.cursor.line ≤ c.line) (hrest : c.rest = newline n ++ tail) :
    Leads (l.behind tokens c keyAllowed) (l.arrive tokens (c.past (newline n))) := by
  have hplace := Cursor.past_newline hrest
  have hgap := skipGap_newline (l := l.behind tokens c keyAllowed) n hcloses.begins hrest
  have hlead := of_gap hgap (fun key hkey => by
      obtain ⟨hrequired, hkeyLine⟩ := required_of_mem_marks hcolumn hkey
      refine ⟨hrequired, ?_⟩
      simp only [behind, hplace, hkeyLine]
      omega) (by simpa [behind, hplace] using hcloses.begins) h.level
    (by simp [behind, hplace, hrest])
  have hallowed : (keyAllowed || l.level == 0) = true := by simp [h.level]
  simpa [behind, arrive, after, hallowed] using hlead

/-- A plain text in its line, or in several ones that are indented further than the innermost block. -/
theorem leads_plain {indent n : Nat} {cs out : List Char} (h : l.AtToken) (hblock : 0 ≤ l.indent)
    (hcolumn : l.indent < l.cursor.column) (hindent : l.indent < indent) (hcloses : l.Closes n tail)
    (hlines : Lines indent cs out) (hstart : startsAsIndicator cs = false)
    (hrest : l.cursor.rest = out ++ (newline n ++ tail)) :
    Leads l (l.arrive [.scalar true (.chars cs)] (l.cursor.past (out ++ newline n))) := by
  obtain ⟨ch, after, hcons, hch, hspace, hindicator, hafter⟩ :=
    hlines.exists_start hstart (newline n ++ tail)
  have hscan : plainText false (l.indent + 1) l.cursor =
      (cs, true, l.cursor.past (out ++ newline n)) :=
    plainText_of_lines (by omega) (by omega) hlines
      (.newline (by have := hcloses.indent; omega) hcloses.begins hcloses.marker) hrest (by omega)
  have hplace : (l.cursor.past (out ++ newline n)).rest = tail := Cursor.rest_past (by
    rw [hrest, List.append_assoc])
  have htake : l.takePlain =
      .ok (l.behind [.scalar true (.chars cs)] (l.cursor.past (out ++ newline n)) true) := by
    simp [takePlain, h.level, hscan, takeKeyed, h.markKey_eq, pushTo, push, behind, bind,
      Except.bind, pure, Except.pure]
  have hstep : l.step = .ok
      (l.behind [.scalar true (.chars cs)] (l.cursor.past (out ++ newline n)) true, false) := by
    rw [h.step_eq (hrest.trans hcons), take_plain h.level (.inl (by omega)) hch hspace hindicator
      hafter, htake]
    rfl
  have hlength : (l.cursor.past (out ++ newline n)).rest.length < l.cursor.rest.length := by
    rw [hplace, hrest]
    simp [newline]
    omega
  -- reading went on to the next token, so that there is no gap any more
  refine (Leads.of_step hstep hlength).trans ?_
  have hgap := skipGap_of_begins
    (l := l.behind [.scalar true (.chars cs)] (l.cursor.past (out ++ newline n)) true)
    (l.cursor.past (out ++ newline n)).rest.length (by
      simp only [behind, hplace]
      exact hcloses.begins)
  have hlead := Leads.of_gap hgap (fun key hkey => by
      obtain ⟨hrequired, hkeyLine⟩ := required_of_mem_marks hcolumn hkey
      have hline := Cursor.line_lt_past_newline hrest
      exact ⟨hrequired, by simp only [behind, hkeyLine]; omega⟩) (by
      simp only [behind, hplace]
      exact hcloses.begins) h.level (Nat.le_refl _)
  simpa [behind, arrive, Lexer.after] using hlead

/-- A quote starts a quoted text. -/
theorem take_quoted {double : Bool} {after : List Char} (hcolumn : l.cursor.column ≠ 0) :
    l.take (if double then '"' else '\'') after = l.takeQuoted double := by
  cases double <;> simp [take, hcolumn]

/-- A text between quotation marks. -/
theorem leads_quoted {n : Nat} (double : Bool) {cs text : List Char} (h : l.AtToken)
    (hblock : 0 ≤ l.indent) (hcolumn : l.indent < l.cursor.column) (hcloses : l.Closes n tail)
    (hquoted : quotedText double l.cursor = .ok (.chars cs, l.cursor.past text))
    (hmark : text.head? = some (if double then '"' else '\''))
    (hrest : l.cursor.rest = text ++ (newline n ++ tail)) :
    Leads l (l.arrive [.scalar false (.chars cs)] (l.cursor.past (text ++ newline n))) := by
  obtain ⟨after, rfl⟩ : ∃ after, text = (if double then '"' else '\'') :: after := by
    cases text with
    | nil => cases hmark
    | cons ch after => exact ⟨after, by rw [Option.some.inj hmark]⟩
  have htake : l.takeQuoted double = .ok (l.behind [.scalar false (.chars cs)]
      (l.cursor.past ((if double then '"' else '\'') :: after)) false) := by
    simp [takeQuoted, h.markKey_eq, hquoted, pushTo, push, behind, bind, Except.bind, pure,
      Except.pure]
  have hstep := h.step_eq hrest
  rw [take_quoted (by omega), htake] at hstep
  have hplace := Cursor.rest_past hrest
  refine (Leads.of_step hstep ?_).trans ?_
  · simp only [behind, hplace, hrest, List.length_append, List.length_cons]
    omega
  · rw [Cursor.past_append]
    exact Leads.of_behind h hcolumn hcloses (Cursor.line_le_past _ _) hplace

def opened (l : Lexer) : Lexer :=
  { l with
    tokens := .listStart :: l.tokens
    count := l.count + 1
    cursor := l.cursor.next
    level := 1
    keyAllowed := true
    keys := l.marks }

theorem step_opening {after : List Char} (h : l.AtToken) (hcolumn : l.cursor.column ≠ 0)
    (hrest : l.cursor.rest = '[' :: after) : l.step = .ok (l.opened, false) := by
  have htake : l.take '[' after = l.takeOpening .listStart := by simp [take, hcolumn]
  rw [h.step_eq hrest, htake]
  simp [takeOpening, h.markKey_eq, h.level, pushTo, push, opened, bind, Except.bind, pure,
    Except.pure, Except.map]

/-- What may have been a key before the brackets may still be one behind them. -/
theorem step_closing {after : List Char} (hlevel : l.level = 0)
    (hrest : l.cursor.rest = '[' :: ']' :: after) :
    l.opened.step = .ok (l.behind [.listStart, .listEnd] (l.cursor.past ['[', ']']) false, false) := by
  have hnext := Cursor.next_of_ink hrest (by decide)
  have hopened : l.opened.cursor.rest = ']' :: after := by simp [opened, hnext]
  have hbegins : Begins l.opened.cursor.rest := by
    rw [hopened]
    exact .inr ⟨rfl, by simp⟩
  -- what may be a key in front of the brackets is in this line and outside of them
  have hkept : ∀ key ∈ l.opened.keys, (key.line != l.opened.cursor.line ||
      decide (1024 < l.opened.cursor.index - key.index)) = false ∧
        (key.level == l.opened.level) = false := by
    intro key hkey
    simp only [opened, marks] at hkey
    split at hkey
    · rw [List.mem_singleton] at hkey
      subst hkey
      simp [opened, hnext]
    · cases hkey
  have hleft : l.opened.unwind l.opened.cursor.column = l.opened := by
    simp [unwind, opened]
  have htake : l.opened.take ']' after =
      .ok (l.behind [.listStart, .listEnd] (l.cursor.past ['[', ']']) false) := by
    have hclosing : l.opened.take ']' after = l.opened.takeClosing .listEnd := by
      simp [take, opened, hnext]
    rw [hclosing, takeClosing, dropKey, dropKeys_of_none fun key hkey => (hkept key hkey).2]
    simp [opened, pushTo, push, behind, Cursor.past, Cursor.advance, hlevel, bind, Except.bind, pure,
      Except.pure]
  rw [step_of_token hbegins (dropKeys_of_none fun key hkey => (hkept key hkey).1) hleft hopened, htake]
  rfl

/-- An empty list. -/
theorem leads_brackets {n : Nat} (h : l.AtToken) (hblock : 0 ≤ l.indent)
    (hcolumn : l.indent < l.cursor.column) (hcloses : l.Closes n tail)
    (hrest : l.cursor.rest = '[' :: ']' :: (newline n ++ tail)) :
    Leads l (l.arrive [.listStart, .listEnd] (l.cursor.past ('[' :: ']' :: newline n))) := by
  have hplace : (l.cursor.past ['[', ']']).rest = newline n ++ tail := Cursor.rest_past hrest
  have hopened : l.opened.cursor.rest = ']' :: (newline n ++ tail) := Cursor.rest_next_of '[' hrest
  refine (Leads.of_step (step_opening h (by omega) hrest) ?_).trans
    ((Leads.of_step (step_closing h.level hrest) ?_).trans ?_)
  · simp [hopened, hrest]
  · simp [behind, hplace, hopened]
  · exact Leads.of_behind h hcolumn hcloses (Cursor.line_le_past _ _) hplace

/-! ## Keys -/

/-- A block is entered where the text stands further in than the one around it. -/
theorem enterHere_of_lt (token : Token) (h : l.indent < l.cursor.column) :
    l.enterHere token =
      { l with
        tokens := token :: l.tokens
        count := l.count + 1
        indent := l.cursor.column
        outer := l.indent :: l.outer } := by
  simp [enterHere, enter, h, push]

theorem enterHere_of_le (token : Token) (h : l.cursor.column ≤ l.indent) : l.enterHere token = l := by
  simp [enterHere, enter, not_lt.mpr h]

@[simp] theorem enterHere_cursor (token : Token) (l : Lexer) :
    (l.enterHere token).cursor = l.cursor := by
  by_cases h : l.indent < l.cursor.column
  · rw [enterHere_of_lt token h]
  · rw [enterHere_of_le token (not_lt.mp h)]

theorem enterHere_level (token : Token) (l : Lexer) : (l.enterHere token).level = l.level := by
  by_cases h : l.indent < l.cursor.column
  · rw [enterHere_of_lt token h]
  · rw [enterHere_of_le token (not_lt.mp h)]

theorem enterHere_indent (token : Token) (h : l.indent ≤ l.cursor.column) :
    (l.enterHere token).indent = l.cursor.column := by
  by_cases hlt : l.indent < l.cursor.column
  · rw [enterHere_of_lt token hlt]
  · rw [enterHere_of_le token (not_lt.mp hlt)]
    exact le_antisymm h (not_lt.mp hlt)

def keyed (name : List Char) (l : Lexer) : Lexer :=
  { l with
    tokens := .value :: .scalar true (.chars name) :: .key :: l.tokens
    count := l.count + 3
    cursor := l.cursor.past (name ++ [':'])
    keyAllowed := false
    keys := [] }

/-- A text that may be a key without quotation marks on one line. -/
structure IsKey (name : List Char) : Prop where
  word : IsWord name
  start : startsAsIndicator name = false
  short : name.length ≤ 1024

theorem keyed_cursor {name after : List Char} (hname : IsKey name)
    (hrest : l.cursor.rest = name ++ ':' :: after) :
    (l.keyed name).cursor.rest = after ∧
      (l.keyed name).cursor.column = l.cursor.column + name.length + 1 := by
  have hplace := Cursor.past_ink hrest fun ch hch => (hname.word.ink ch hch).1
  have hnext := Cursor.next_of_ink (c := l.cursor.past name) (by rw [hplace]) (by decide)
  rw [hplace] at hnext
  simp [keyed, Cursor.past_append, Cursor.past_cons, hplace, hnext]

/-- The text of a key, of which it is not known yet that it is one. -/
theorem step_name {name after : List Char} (h : l.AtToken) (hname : IsKey name)
    (hmarker : l.cursor.column ≠ 0 ∨ atMarker l.cursor.rest = false) (hafter : atGap after)
    (hrest : l.cursor.rest = name ++ ':' :: after) :
    l.step = .ok (l.behind [.scalar true (.chars name)] (l.cursor.past name) false, false) := by
  obtain ⟨ch, more, hcons, hch, hspace, hindicator, hmore⟩ :=
    (Lines.word hname.word : Lines 0 name name).exists_start hname.start (':' :: after)
  have hends : Ends (l.indent + 1) (':' :: after) [] false := .colon hafter
  have hscan := plainText_word hname.word hends hrest
  rw [List.append_nil] at hscan
  have htake : l.takePlain =
      .ok (l.behind [.scalar true (.chars name)] (l.cursor.past name) false) := by
    simp [takePlain, h.level, hscan, takeKeyed, h.markKey_eq, pushTo, push, behind, bind,
      Except.bind, pure, Except.pure]
  rw [h.step_eq (hrest.trans hcons), take_plain h.level hmarker hch hspace hindicator hmore, htake]
  rfl

/-- At the colon the text before it is found to be a key. -/
theorem step_colon {name after : List Char} (h : l.AtToken) (hallowed : l.keyAllowed)
    (hname : IsKey name) (hafter : atGap after) (hrest : l.cursor.rest = name ++ ':' :: after) :
    (l.behind [.scalar true (.chars name)] (l.cursor.past name) false).step =
      .ok ((l.enterHere .blockMapStart).keyed name, false) := by
  have hplace := Cursor.past_ink hrest fun ch hch => (hname.word.ink ch hch).1
  have hmarks : l.marks = [⟨0, l.count, l.indent == l.cursor.column, l.cursor.index, l.cursor.line,
      l.cursor.column⟩] := by rw [marks, if_pos hallowed]
  obtain ⟨named, hnamed⟩ : ∃ named,
      named = l.behind [.scalar true (.chars name)] (l.cursor.past name) false := ⟨_, rfl⟩
  have hcolon : named.cursor.rest = ':' :: after := by simp [hnamed, behind, hplace]
  have hbegins : Begins named.cursor.rest := by
    rw [hcolon]
    exact .inr ⟨rfl, by simp⟩
  -- the name is short and in this line, so it may still be a key
  have hfresh : named.dropStale = .ok named := by
    refine dropKeys_of_none fun key hkey => ?_
    simp only [hnamed, behind, hmarks, List.mem_singleton] at hkey
    have := hname.short
    subst hkey
    simp [hnamed, behind, hplace, this]
  have hleft : named.unwind named.cursor.column = named := by
    refine unwind_of_le ?_
    have := h.indent
    simp only [hnamed, behind, hplace]
    omega
  have htake : named.take ':' after = named.takeValue := by
    have hlevel : named.level = 0 := by rw [hnamed]; exact h.level
    simp [take, hcolon, atDocumentStart, atDocumentEnd, hlevel, hafter]
  have hvalue : named.takeValue = .ok ((l.enterHere .blockMapStart).keyed name) := by
    by_cases hfurther : l.indent < l.cursor.column
    · have hposition : l.count + 1 + 1 - l.count = 2 := by omega
      rw [enterHere_of_lt _ hfurther]
      simp [takeValue, hnamed, behind, hmarks, h.level, insert, enter, hfurther, hposition, pushTo,
        push, keyed, Cursor.past_append, Cursor.past_cons]
    · rw [enterHere_of_le _ (not_lt.mp hfurther)]
      simp [takeValue, hnamed, behind, hmarks, h.level, insert, enter, hfurther, pushTo, push, keyed,
        Cursor.past_append, Cursor.past_cons]
  rw [← hnamed, step_of_token hbegins hfresh hleft hcolon, htake, hvalue]
  rfl

/-- A key and its colon, the first ones of a block if they are further right than the block around. -/
theorem leads_key {name after : List Char} (h : l.AtToken) (hallowed : l.keyAllowed)
    (hname : IsKey name) (hmarker : l.cursor.column ≠ 0 ∨ atMarker l.cursor.rest = false)
    (hafter : atGap after) (hrest : l.cursor.rest = name ++ ':' :: after) :
    Leads l ((l.enterHere .blockMapStart).keyed name) := by
  have hplace := Cursor.rest_past hrest
  have hcolon : (l.cursor.past (name ++ [':'])).rest = after := Cursor.rest_past (by simpa using hrest)
  refine (Leads.of_step (step_name h hname hmarker hafter hrest) ?_).trans
    (Leads.of_step (step_colon h hallowed hname hafter hrest) ?_)
  · have := List.length_pos_iff.mpr hname.word.nonempty
    simp only [behind, hplace, hrest, List.length_append, List.length_cons]
    omega
  · simp [behind, keyed, hplace, hcolon]

/-! ## Items -/

/-- The state at an item, behind its mark and a space. -/
def itemed (l : Lexer) : Lexer :=
  { l with
    tokens := .item :: l.tokens
    count := l.count + 1
    cursor := l.cursor.past ['-', ' '] }

/-- The mark of an item of the innermost block. -/
theorem leads_item {after : List Char} (h : l.AtToken) (hallowed : l.keyAllowed)
    (hcolumn : l.cursor.column ≤ l.indent) (hbegins : Begins after)
    (hrest : l.cursor.rest = '-' :: ' ' :: after) : Leads l l.itemed := by
  have hnext : l.cursor.next.rest = ' ' :: after := Cursor.rest_next_of '-' hrest
  have htake : l.take '-' (' ' :: after) = .ok (l.pushTo .item l.cursor.next) := by
    have hitem : l.take '-' (' ' :: after) = l.takeItem := by
      simp [take, hrest, atDocumentStart, atDocumentEnd, atGap]
    obtain ⟨cursor, tokens, count, level, indent, outer, keyAllowed, keys⟩ := l
    obtain rfl : level = 0 := h.level
    obtain rfl : keys = [] := h.keys
    obtain rfl : keyAllowed = true := hallowed
    rw [hitem]
    simp [takeItem, enterHere_of_le _ hcolumn, dropKey, dropKeys, bind, Except.bind, pure,
      Except.pure]
  have hstep := h.step_eq hrest
  rw [htake] at hstep
  refine (Leads.of_step hstep ?_).trans (leads_spaces 1 h.keys h.level ?_ hbegins hnext)
  · simp [pushTo, push, hnext, hrest]
  · have := h.indent
    simp only [pushTo, push, Cursor.next_of_ink hrest (by decide)]
    omega

theorem itemed_cursor {after : List Char} (hrest : l.cursor.rest = '-' :: ' ' :: after) :
    l.itemed.cursor.rest = after ∧ l.itemed.cursor.column = l.cursor.column + 2 := by
  have hnext := Cursor.next_of_ink hrest (by decide)
  have hnext' := Cursor.next_of_ink (Cursor.rest_next_of '-' hrest) (by decide)
  rw [hnext] at hnext'
  simp [itemed, Cursor.past_cons, hnext, hnext']

/-- What an item holds begins a token. -/
theorem AtToken.itemed {after : List Char} (h : l.AtToken) (hbegins : Begins after)
    (hrest : l.cursor.rest = '-' :: ' ' :: after) : l.itemed.AtToken where
  level := h.level
  keys := h.keys
  begins := by rwa [(itemed_cursor hrest).1]
  indent := by
    have := h.indent
    rw [(itemed_cursor hrest).2]
    simp only [Lexer.itemed]
    omega

/-! ## One after the other -/

section

variable (tokens tokens' : List Token) (c c' : Cursor) (l : Lexer)

/-- No block ends at a place that is not further left than the innermost one. -/
theorem arrive_of_le (h : l.indent ≤ c.column) : l.arrive tokens c = l.after tokens c :=
  unwind_of_le h

/-- Tokens that were taken on the way count at the arrival. -/
theorem arrive_after : (l.after tokens c).arrive tokens' c' = l.arrive (tokens ++ tokens') c' := by
  simp [arrive, after, unwind, Nat.add_assoc]

theorem arrive_keyed (name : List Char) : (l.keyed name).arrive tokens c =
    l.arrive ([.key, .scalar true (.chars name), .value] ++ tokens) c := by
  simp [arrive, after, unwind, keyed, Nat.add_assoc, Nat.add_comm 3]

theorem arrive_itemed : l.itemed.arrive tokens c = l.arrive (.item :: tokens) c := by
  simp [arrive, after, unwind, itemed, Nat.add_assoc, Nat.add_comm 1]

/-- What is pushed does not depend on the place before. -/
theorem arrive_moved (keyAllowed : Bool) :
    (l.moved c keyAllowed).arrive tokens c' = l.arrive tokens c' := by
  simp [arrive, after, unwind, moved]

/-- A block ends further left. -/
theorem arrive_entered (hlevel : l.level = 0) (hfurther : l.indent < l.cursor.column)
    (hleft : c.column < l.cursor.column) :
    (l.enterHere .blockMapStart).arrive tokens c =
      l.arrive (.blockMapStart :: tokens ++ [.blockEnd]) c := by
  have hended : ((c.column : Int) < l.cursor.column) := by exact_mod_cast hleft
  rw [enterHere_of_lt _ hfurther]
  simp [arrive, after, unwind, hlevel, hended, List.replicate_succ', Nat.add_assoc, Nat.add_comm 1]
  exact Nat.add_comm _ _

end

/-- In the next line of the innermost block there is a token again; no block has ended, and none
begins. -/
theorem AtToken.after {n : Nat} {text : List Char} (tokens : List Token) (hlevel : l.level = 0)
    (hindent : l.indent = n) (hcloses : l.Closes n tail)
    (hrest : l.cursor.rest = text ++ (newline n ++ tail)) :
    let c := l.cursor.past (text ++ newline n)
    c.rest = tail ∧ c.column = n ∧ l.arrive tokens c = l.after tokens c ∧
      (l.after tokens c).AtToken ∧
      (l.after tokens c).enterHere .blockMapStart = l.after tokens c := by
  have hplace := Cursor.past_newline (Cursor.rest_past hrest)
  rw [← Cursor.past_append] at hplace
  rw [hplace]
  exact ⟨rfl, rfl, arrive_of_le _ _ _ hindent.le, ⟨hlevel, rfl, hcloses.begins, hindent.le⟩,
    enterHere_of_le _ hindent.ge⟩

end Lexer

end Stylesheet.Data.Yaml
