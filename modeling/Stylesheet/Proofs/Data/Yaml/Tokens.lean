import Mathlib
import Stylesheet.Proofs.Data.Yaml.Blocks
import Stylesheet.Proofs.Data.Yaml.Characters
import Stylesheet.Proofs.Data.Yaml.Reread

/-!
# Written data is cut into its tokens

Lists and maps are followed by induction on the data. The items of a list and the entries of a map
stand below each other, so that each is followed by a line feed, an indentation and the next token; what
stands behind the last one ends the block.

* `Lexer.leads_items`, `Lexer.leads_entries` : items and entries one after the other.
* `Lexer.cuts_of_writable` : any data wherever it can stand.
* `ofText_render` : a whole text.
-/

namespace Stylesheet.Data.Yaml

open Plain

/-! ## Tokens -/

def atomChars : Atom → List Char
  | .text s => s.toList
  | a => renderAtom 0 0 a

def isPlainAtom : Atom → Bool
  | .text s => isPlain s.toList
  | _ => true

def atomToken (a : Atom) : Token :=
  .scalar (isPlainAtom a) (.chars (atomChars a))

mutual

def tokensOf : Data → List Token
  | .atom a => [atomToken a]
  | .list [] => [.listStart, .listEnd]
  | .list (item :: items) => itemTokens (item :: items)
  | .map entries => .blockMapStart :: entryTokens entries ++ [.blockEnd]

def itemTokens : List Data → List Token
  | [] => []
  | item :: items => .item :: tokensOf item ++ itemTokens items

def entryTokens : List (Atom × Data) → List Token
  | [] => []
  | (key, value) :: entries =>
    [.key, atomToken key, .value] ++ tokensOf value ++ entryTokens entries

end

/-- A name is written as a plain scalar. -/
theorem atomToken_of_isName {name : String} (h : isName name.toList) :
    atomToken (.text name) = .scalar true (.chars name.toList) := by
  simp only [isName, Bool.and_eq_true] at h
  simp [atomToken, isPlainAtom, atomChars, h.1.1]

/-! ## Words -/

theorem isKey_of_isName {cs : List Char} (h : isName cs) : Lexer.IsKey cs := by
  simp only [isName, Bool.and_eq_true, Bool.not_eq_true'] at h
  obtain ⟨⟨hplain, hshort⟩, hspace⟩ := h
  have hscan := (isPlain_iff.mp hplain).2
  refine ⟨hscan.isWord (by simpa using hspace), hscan.start, ?_⟩
  simp only [isShortKey, Bool.and_eq_true, decide_eq_true_eq] at hshort
  omega

theorem isPlainChar_of_isDigit {ch : Char} (h : ch.isDigit) : isPlainChar ch := by
  have hrange : '0' ≤ ch ∧ ch ≤ '9' := by
    simp only [Char.isDigit, Bool.and_eq_true, decide_eq_true_eq] at h
    exact h
  simp only [isPlainChar, Bool.and_eq_true, decide_eq_true_eq]
  exact ⟨le_trans (by decide) hrange.1, le_trans hrange.2 (by decide)⟩

theorem ne_of_isDigit {ch ch' : Char} (h : ch.isDigit) (h' : ch'.isDigit = false) : ch ≠ ch' := by
  rintro rfl
  rw [h] at h'
  cases h'

/-- A number is one word: digits, perhaps with a sign before them. -/
theorem isWord_toString (n : Int) :
    IsWord (toString n).toList ∧ startsAsIndicator (toString n).toList = false := by
  have hdigits : ∀ ch ∈ Nat.toDigits 10 n.natAbs, ch.isDigit := fun ch hch =>
    Nat.isDigit_of_mem_toDigits (by decide) (by decide) hch
  have hink : ∀ ch ∈ Nat.toDigits 10 n.natAbs, isPlainChar ch ∧ ch ≠ ' ' := fun ch hch =>
    ⟨isPlainChar_of_isDigit (hdigits ch hch), ne_of_isDigit (hdigits ch hch) (by decide)⟩
  have hlast (before : List Char) : (before ++ Nat.toDigits 10 n.natAbs).getLast? ≠ some ':' := by
    rw [List.getLast?_append_of_ne_nil _ Nat.toDigits_ne_nil]
    intro heq
    cases hdigits ':' (List.mem_of_getLast? heq)
  obtain ⟨ch, cs, hcons, hch⟩ := Json.toDigits_eq_cons n.natAbs
  have hne {ch' : Char} (h : ch'.isDigit = false) : ch ≠ ch' := ne_of_isDigit hch h
  have hindicator : ch ∉ indicators := by
    intro hmem
    have hnone : ∀ ch' ∈ indicators, ch'.isDigit = false := by simp [indicators]
    rw [hnone ch hmem] at hch
    cases hch
  rw [Json.toList_toString]
  split
  · refine ⟨⟨by simp, ?_, by simp, hlast ['-']⟩, ?_⟩
    · rw [List.forall_mem_cons]
      exact ⟨⟨rfl, by decide⟩, hink⟩
    · rw [hcons]
      simp [startsAsIndicator, indicators, atSpace, hne (show '-'.isDigit = false from rfl),
        hne (show ' '.isDigit = false from rfl)]
  · refine ⟨⟨Nat.toDigits_ne_nil, hink, ?_, hlast []⟩, ?_⟩
    · rw [hcons]
      simpa using hne (show '#'.isDigit = false from rfl)
    · rw [hcons]
      simp [startsAsIndicator, hindicator, hne (show '-'.isDigit = false from rfl),
        hne (show '.'.isDigit = false from rfl), hne (show '?'.isDigit = false from rfl),
        hne (show ':'.isDigit = false from rfl)]

/-! ## Written values -/

def written (indent column : Nat) : Data → List Char
  | .list (item :: items) => renderItems column (item :: items)
  | .map (entry :: entries) => renderEntries column (entry :: entries)
  | d => renderLeaf indent column d

/-- What stands behind an item or entry: nothing, or the further ones from the next line on. -/
def further (column : Nat) (more : List Char) : List Char :=
  if more.isEmpty then [] else newline column ++ more

theorem further_of_ne_nil {column : Nat} {more : List Char} (h : more ≠ []) :
    further column more = newline column ++ more := by
  simp [further, h]

/-- Items are written one under the other, each after its dash. -/
theorem renderItems_cons (column : Nat) {d : Data} (hturn : ∀ inner, d ≠ .list inner)
    (items : List Data) :
    renderItems column (d :: items) = '-' :: ' ' :: (written (column + 2) (column + 2) d ++
      further column (renderItems column items)) := by
  cases d with
  | atom a => simp [renderItems, written, further]
  | list items => exact absurd rfl (hturn items)
  | map entries => cases entries <;> simp [renderItems, written, further, renderBlock, renderLeaf]

/-- A block of items begins a token, and no marker of a document. -/
theorem begins_items (column : Nat) {items : List Data} (hne : items ≠ []) (tail : List Char) :
    Begins (renderItems column items ++ tail) ∧
      ∀ n, atMarker (List.replicate n ' ' ++ (renderItems column items ++ tail)) = false := by
  obtain ⟨d, items, rfl⟩ := List.exists_cons_of_ne_nil hne
  obtain ⟨more, hmore⟩ : ∃ more, renderItems column (d :: items) = '-' :: ' ' :: more := by
    cases d <;> exact ⟨_, rfl⟩
  rw [hmore]
  refine ⟨.inr ⟨rfl, by simp⟩, fun n => ?_⟩
  cases n <;> rfl

theorem further_items (column : Nat) {items : List Data} (hne : items ≠ []) :
    further column (renderItems column items) = newline column ++ renderItems column items := by
  obtain ⟨d, items, rfl⟩ := List.exists_cons_of_ne_nil hne
  refine further_of_ne_nil ?_
  cases d <;> simp [renderItems]

/-- What stands behind the colon of an entry, if the value is no map. -/
def behindColon (column width : Nat) : Data → List Char
  | .list (item :: items) => newline column ++ renderItems column (item :: items)
  | d => ' ' :: renderLeaf (column + 2) (column + width + 2) d

/-- Entries are written one under the other, each after its key and colon. -/
theorem renderEntries_cons (column : Nat) {name : String} {d : Data} (hname : isName name.toList)
    (hturn : ∀ entries, d ≠ .map entries) (fields : List (String × Data)) :
    renderEntries column (fieldEntries ((name, d) :: fields)) = name.toList ++ ':' ::
      (behindColon column name.toList.length d ++
        further column (renderEntries column (fieldEntries fields))) := by
  simp only [isName, Bool.and_eq_true] at hname
  have hkey : renderKey? (.text name) = some name.toList := by
    simp [renderKey?, hname.1.2, renderShortKey, hname.1.1]
  rw [fieldEntries, List.map_cons, ← fieldEntries]
  cases d with
  | atom a => simp [renderEntries, hkey, behindColon, further]
  | list items => cases items <;> simp [renderEntries, hkey, behindColon, further]
  | map entries => exact absurd rfl (hturn entries)

theorem further_entries (column : Nat) {fields : List (String × Data)} (hne : fields ≠ [])
    (hnames : ∀ field ∈ fields, isName field.1.toList)
    (hturn : ∀ field ∈ fields, ∀ entries, field.2 ≠ .map entries) :
    further column (renderEntries column (fieldEntries fields)) =
      newline column ++ renderEntries column (fieldEntries fields) := by
  obtain ⟨⟨name, d⟩, fields, rfl⟩ := List.exists_cons_of_ne_nil hne
  rw [List.forall_mem_cons] at hnames hturn
  refine further_of_ne_nil ?_
  rw [renderEntries_cons column hnames.1 hturn.1]
  simp

theorem atMarker_name {name : List Char} (hstart : startsAsIndicator name = false) (n : Nat)
    (after : List Char) : atMarker (List.replicate n ' ' ++ (name ++ ':' :: after)) = false := by
  cases n with
  | succ n => rfl
  | zero =>
      rw [List.replicate_zero, List.nil_append, atMarker, Bool.or_eq_false_iff]
      rcases name with _ | ⟨a, _ | ⟨b, _ | ⟨c, name⟩⟩⟩
      · cases hstart
      · simp [atDocumentStart, atDocumentEnd]
      · simp [atDocumentStart, atDocumentEnd]
      · simp only [List.cons_append, atDocumentStart, atDocumentEnd]
        refine ⟨?_, ?_⟩
        · split
          · next heq =>
            simp only [List.cons.injEq] at heq
            obtain ⟨rfl, rfl, rfl, -⟩ := heq
            cases hstart
          · rfl
        · split
          · next heq =>
            simp only [List.cons.injEq] at heq
            obtain ⟨rfl, rfl, rfl, -⟩ := heq
            cases hstart
          · rfl

theorem begins_entries (column : Nat) {fields : List (String × Data)} (hne : fields ≠ [])
    (hnames : ∀ field ∈ fields, isName field.1.toList)
    (hturn : ∀ field ∈ fields, ∀ entries, field.2 ≠ .map entries) (tail : List Char) :
    Begins (renderEntries column (fieldEntries fields) ++ tail) ∧
      ∀ n, atMarker (List.replicate n ' ' ++ (renderEntries column (fieldEntries fields) ++ tail)) =
        false := by
  obtain ⟨⟨name, d⟩, fields, rfl⟩ := List.exists_cons_of_ne_nil hne
  rw [List.forall_mem_cons] at hnames hturn
  have hkey := isKey_of_isName hnames.1
  rw [renderEntries_cons column hnames.1 hturn.1]
  simp only [List.append_assoc, List.cons_append]
  exact ⟨(Lines.word hkey.word : Lines 0 _ _).begins _, fun n => atMarker_name hkey.start n _⟩

/-- What is written of a value starts with a token. -/
theorem begins_written {d : Data} (h : Writable d) (indent column : Nat) (tail : List Char) :
    Begins (written indent column d ++ tail) := by
  have of_ink {ch : Char} (hch : isPlainChar ch) (hspace : ch ≠ ' ') (hcomment : ch ≠ '#')
      (more : List Char) : Begins (ch :: more) := by
    refine .inr ⟨?_, by simpa using hcomment⟩
    rw [atGap_of_isPlainChar hch]
    simpa using hspace
  cases h with
  | null => exact of_ink rfl (by decide) (by decide) _
  | bool b => cases b <;> exact of_ink rfl (by decide) (by decide) _
  | @int n hn =>
      exact (Lines.word (isWord_toString n).1 : Lines 0 _ _).begins tail
  | text s =>
      simp only [written, renderLeaf, renderAtom, renderText]
      split
      · next hplain => exact ((isPlain_iff.mp hplain).2.lines indent column none).begins tail
      · split <;> exact of_ink rfl (by decide) (by decide) _
  | @list items h hturn =>
      cases items with
      | nil => exact of_ink rfl (by decide) (by decide) _
      | cons d items => exact (begins_items column (List.cons_ne_nil d items) tail).1
  | @map fields hne hdistinct hnames h hturn =>
      obtain ⟨field, fields, rfl⟩ := List.exists_cons_of_ne_nil hne
      exact (begins_entries column hne hnames hturn tail).1

/-- A block of items is ink when each item is. -/
theorem isInk_items {column : Nat} {items : List Data}
    (h : ∀ d ∈ items, ∀ indent column, isInk (written indent column d))
    (hturn : ∀ d ∈ items, ∀ inner, d ≠ .list inner) : isInk (renderItems column items) := by
  induction items with
  | nil => rfl
  | cons d items ih =>
      rw [List.forall_mem_cons] at h hturn
      have hmore := ih h.2 hturn.2
      rw [renderItems_cons column hturn.1]
      unfold further
      split <;> simp [h.1, hmore, isPlainChar]

theorem isInk_entries {column : Nat} {fields : List (String × Data)}
    (hnames : ∀ field ∈ fields, isName field.1.toList)
    (h : ∀ field ∈ fields, ∀ indent column, isInk (written indent column field.2))
    (hturn : ∀ field ∈ fields, ∀ entries, field.2 ≠ .map entries) :
    isInk (renderEntries column (fieldEntries fields)) := by
  induction fields with
  | nil => rfl
  | cons field fields ih =>
      obtain ⟨name, d⟩ := field
      rw [List.forall_mem_cons] at hnames h hturn
      have hmore := ih hnames.2 h.2 hturn.2
      have hname : isInk name.toList := by
        have hkey := isKey_of_isName hnames.1
        exact isInk_of_isPlainChar fun ch hch => (hkey.word.ink ch hch).1
      have hvalue : isInk (behindColon column name.toList.length d) := by
        have hd := h.1
        cases d with
        | atom a =>
            exact hd (column + 2) (column + name.toList.length + 2)
        | list items =>
            cases items with
            | nil => rfl
            | cons item items =>
                rw [behindColon, isInk_append, isInk_newline]
                exact hd 0 column
        | map entries => exact absurd rfl (hturn.1 entries)
      rw [renderEntries_cons column hnames.1 hturn.1]
      unfold further
      split <;> simp [hname, hvalue, hmore, isPlainChar]

/-- Nothing but printing characters of ASCII and line feeds is written. -/
theorem isInk_written {d : Data} (h : Writable d) (indent column : Nat) :
    isInk (written indent column d) := by
  induction h generalizing indent column with
  | null => simp [written, renderLeaf, renderAtom, isPlainChar]
  | bool b => cases b <;> simp [written, renderLeaf, renderAtom, isPlainChar]
  | @int n hn => exact isInk_of_isPlainChar fun ch hch => ((isWord_toString n).1.ink ch hch).1
  | text => exact isInk_renderText _ _ _
  | @list items h hturn ih =>
      cases items with
      | nil => rfl
      | cons d items => exact isInk_items ih hturn
  | @map fields hne hdistinct hnames h hturn ih =>
      obtain ⟨field, fields, rfl⟩ := List.exists_cons_of_ne_nil hne
      exact isInk_entries hnames ih hturn

/-! ## Values at their places -/

namespace Lexer

variable {l : Lexer} {tail : List Char}

/-- A place where a value can stand: items as far right as the block around, entries and
everything else further right. -/
def Holds (indent : Nat) (d : Data) (l : Lexer) : Prop :=
  match d with
  | .list (_ :: _) => l.keyAllowed ∧ l.indent = l.cursor.column ∧ l.cursor.column + 2 = indent
  | .map _ => l.keyAllowed ∧ l.indent < l.cursor.column ∧ l.cursor.column = indent
  | _ => l.indent < indent ∧ indent ≤ l.cursor.column

/-- Whether a value is cut into the tokens of what it is read back as wherever it can stand. -/
def Cuts (indent : Nat) (d : Data) : Prop :=
  ∀ (l : Lexer) (n : Nat) (tail : List Char), l.AtToken → 0 ≤ l.indent → l.Holds indent d →
    l.Closes n tail → l.cursor.rest = written indent l.cursor.column d ++ (newline n ++ tail) →
    Leads l (l.arrive (tokensOf (reread indent d))
      (l.cursor.past (written indent l.cursor.column d ++ newline n)))

/-- A plain word leads to its token, wherever it stands in a block. -/
theorem leads_word {n indent : Nat} {word : List Char} (h : l.AtToken) (hblock : 0 ≤ l.indent)
    (hcolumn : l.indent < l.cursor.column) (hindent : l.indent < indent) (hcloses : l.Closes n tail)
    (hword : IsWord word) (hstart : startsAsIndicator word = false)
    (hrest : l.cursor.rest = word ++ (newline n ++ tail)) :
    Leads l (l.arrive [.scalar true (.chars word)] (l.cursor.past (word ++ newline n))) :=
  leads_plain h hblock hcolumn hindent hcloses (.word hword) hstart hrest

theorem head?_ne_apostrophe (n : Nat) (tail : List Char) :
    (newline n ++ tail).head? ≠ some '\'' := by
  simp [newline]

/-- Every text is cut into one scalar token, plain or quoted. -/
theorem cuts_text (indent : Nat) (s : String) : Cuts indent (.text s) := by
  intro l n tail htoken hblock hplace hcloses hrest
  obtain ⟨hindent, hcolumn⟩ := hplace
  have hpositive : 0 < indent := by omega
  have hright : l.indent < l.cursor.column := by omega
  simp only [written, renderLeaf, renderAtom, renderText, reread, tokensOf, atomToken, isPlainAtom,
    atomChars, toList_rereadText, Quoted.isPlain_reread] at hrest ⊢
  -- a text is written in the first of three ways that suits it
  by_cases hplain : isPlain s.toList
  · have hscan := (isPlain_iff.mp hplain).2
    have hsame : Quoted.reread indent s.toList = s.toList := by simp [Quoted.reread, hplain]
    rw [if_pos hplain] at hrest ⊢
    rw [hplain, hsame]
    exact leads_plain htoken hblock hright hindent hcloses (hscan.lines indent _ none) hscan.start
      hrest
  · rw [if_neg hplain] at hrest ⊢
    rw [Bool.eq_false_iff.mpr hplain]
    by_cases hsingle : isSingle s.toList
    · have hsame : Quoted.reread indent s.toList = s.toList := by simp [Quoted.reread, hsingle]
      rw [if_pos hsingle] at hrest ⊢
      rw [hsame]
      exact leads_quoted false htoken hblock hright hcloses
        (Quoted.quotedText_single hpositive hsingle (head?_ne_apostrophe n tail) hrest) rfl hrest
    · have hworn : Quoted.reread indent s.toList = Quoted.worn indent true s.toList := by
        simp [Quoted.reread, hplain, hsingle]
      rw [if_neg hsingle] at hrest ⊢
      rw [hworn]
      exact leads_quoted true htoken hblock hright hcloses
        (Quoted.quotedText_double hpositive (Nat.le_succ_of_le hcolumn) (head?_ne_apostrophe n tail)
          hrest) rfl hrest

/-- An atom that is written as a word is cut into one plain token. -/
theorem cuts_word {indent : Nat} {a : Atom} {word : List Char} (hword : IsWord word)
    (hstart : startsAsIndicator word = false) (htoken : atomToken a = .scalar true (.chars word))
    (hrender : ∀ column, renderAtom indent column a = word) (htext : ∀ s, a ≠ .text s) :
    Cuts indent (.atom a) := by
  intro l n tail h hblock hplace hcloses hrest
  obtain ⟨hindent, hcolumn⟩ := hplace
  have hsame : reread indent (.atom a) = .atom a := by
    cases a with
    | text s => exact absurd rfl (htext s)
    | _ => rfl
  simp only [written, renderLeaf, hrender, hsame, tokensOf, htoken] at hrest ⊢
  exact leads_word h hblock (by omega) hindent hcloses hword hstart hrest

theorem cuts_nil (indent : Nat) : Cuts indent (.list []) := by
  intro l n tail h hblock hplace hcloses hrest
  exact leads_brackets h hblock (Int.lt_of_lt_of_le hplace.1 (Int.ofNat_le.mpr hplace.2)) hcloses
    hrest

/-! ## Lists -/

/-- Behind the mark of an item there is a place for its value. -/
theorem holds_itemed {column : Nat} {d : Data} (hallowed : l.keyAllowed) (hindent : l.indent = column)
    (hright : l.itemed.cursor.column = column + 2) (hturn : ∀ inner, d ≠ .list inner) :
    l.itemed.Holds (column + 2) d := by
  have hlimit : l.itemed.indent = column := hindent
  cases d with
  | atom a => exact ⟨by omega, by omega⟩
  | list inner => exact absurd rfl (hturn inner)
  | map entries => exact ⟨hallowed, by omega, hright⟩

/-- The items of a list, one after the other. -/
theorem leads_items {column n : Nat} {items : List Data} (hne : items ≠ [])
    (hwritable : ∀ d ∈ items, Writable d) (hcuts : ∀ d ∈ items, Cuts (column + 2) d)
    (hturn : ∀ d ∈ items, ∀ inner, d ≠ .list inner) (h : l.AtToken) (hallowed : l.keyAllowed)
    (hindent : l.indent = column) (hcolumn : l.cursor.column = column) (hcloses : l.Closes n tail)
    (hrest : l.cursor.rest = renderItems column items ++ (newline n ++ tail)) :
    Leads l (l.arrive (itemTokens (rereadItems (column + 2) items))
      (l.cursor.past (renderItems column items ++ newline n))) := by
  induction items generalizing l with
  | nil => exact absurd rfl hne
  | cons d items ih =>
      rw [List.forall_mem_cons] at hwritable hcuts hturn
      rw [renderItems_cons column hturn.1] at hrest ⊢
      have hmark : l.cursor.rest = '-' :: ' ' :: (written (column + 2) (column + 2) d ++
          (further column (renderItems column items) ++ (newline n ++ tail))) := by
        simpa using hrest
      have hbegins := begins_written hwritable.1 (column + 2) (column + 2)
        (further column (renderItems column items) ++ (newline n ++ tail))
      obtain ⟨hplace, hright⟩ := itemed_cursor hmark
      have htoken := h.itemed hbegins hmark
      refine (leads_item h hallowed (by omega) hbegins hmark).trans ?_
      rw [hcolumn] at hright
      have hholds := holds_itemed hallowed hindent hright hturn.1
      have hblock : 0 ≤ l.itemed.indent := by
        rw [show l.itemed.indent = column from hindent]
        exact Int.natCast_nonneg column
      -- the last item is closed by what closes the list, another one by the mark of the next item
      cases items with
      | nil =>
          have hlead := hcuts.1 _ _ _ htoken hblock hholds
            ⟨hcloses.begins, hcloses.marker, hcloses.indent⟩ (by rw [hplace, hright]; rfl)
          rw [hright, arrive_itemed] at hlead
          simpa [rereadItems, itemTokens, further, renderItems, itemed, Cursor.past_append,
            Cursor.past_cons] using hlead
      | cons d' items =>
          have hnext := begins_items column (List.cons_ne_nil d' items) (newline n ++ tail)
          have hcloses' : l.itemed.Closes column (renderItems column (d' :: items) ++
              (newline n ++ tail)) := ⟨hnext.1, hnext.2 column, hindent.ge⟩
          have hmore := further_items column (List.cons_ne_nil d' items)
          rw [hmore, List.append_assoc] at hplace
          have hlead := hcuts.1 _ _ _ htoken hblock hholds hcloses' (by rw [hplace, hright])
          obtain ⟨hnextRest, hnextColumn, harrive, hnextToken, -⟩ :=
            AtToken.after (tokensOf (reread (column + 2) d)) htoken.level hindent hcloses' hplace
          rw [hright, harrive] at hlead
          have hrest' := ih (List.cons_ne_nil d' items) hwritable.2 hcuts.2 hturn.2 hnextToken rfl
            hindent hnextColumn ⟨hcloses.begins, hcloses.marker, hcloses.indent⟩ hnextRest
          rw [arrive_after, arrive_itemed] at hrest'
          refine hlead.trans ?_
          rw [hmore, rereadItems, itemTokens]
          simpa [itemed, after, Cursor.past_append, Cursor.past_cons] using hrest'

/-! ## Maps -/

/-- The value of an entry. -/
theorem leads_value {column width n : Nat} {d : Data} (hwritable : Writable d)
    (hcuts : Cuts (column + 2) d) (hturn : ∀ entries, d ≠ .map entries) (hlevel : l.level = 0)
    (hkeys : l.keys = []) (hindent : l.indent = column)
    (hcolumn : l.cursor.column = column + width + 1) (hcloses : l.Closes n tail)
    (hrest : l.cursor.rest = behindColon column width d ++ (newline n ++ tail)) :
    Leads l (l.arrive (tokensOf (reread (column + 2) d))
      (l.cursor.past (behindColon column width d ++ newline n))) := by
  have hbegins (column' : Nat) := begins_written hwritable (column + 2) column' (newline n ++ tail)
  -- the value stands behind a gap, in this line or the next one
  have of_gap {gap : List Char} {place : Cursor} (keyAllowed : Bool)
      (hplace : l.cursor.past gap = place)
      (hgap : Leads l (l.moved place keyAllowed)) (hright : l.indent ≤ place.column)
      (hvalue : behindColon column width d = gap ++ written (column + 2) place.column d)
      (hread : place.rest = written (column + 2) place.column d ++ (newline n ++ tail))
      (hholds : (l.moved place keyAllowed).Holds (column + 2) d) :
      Leads l (l.arrive (tokensOf (reread (column + 2) d))
        (l.cursor.past (behindColon column width d ++ newline n))) := by
    have htoken : (l.moved place keyAllowed).AtToken :=
      ⟨hlevel, hkeys, hread ▸ hbegins place.column, hright⟩
    have hblock : 0 ≤ (l.moved place keyAllowed).indent := by
      rw [show (l.moved place keyAllowed).indent = column from hindent]
      exact Int.natCast_nonneg column
    have hlead := hcuts _ _ _ htoken hblock hholds
      ⟨hcloses.begins, hcloses.marker, hcloses.indent⟩ hread
    rw [arrive_moved] at hlead
    rw [hvalue, List.append_assoc, Cursor.past_append, hplace]
    exact hgap.trans hlead
  by_cases hlist : ∃ item items, d = .list (item :: items)
  · obtain ⟨item, items, rfl⟩ := hlist
    have hread : l.cursor.rest = newline column ++
        (renderItems column (item :: items) ++ (newline n ++ tail)) := by
      rw [hrest, behindColon, List.append_assoc]
    have hplace := Cursor.past_newline hread
    have hgap := leads_newline column hkeys hlevel hindent.le (hbegins column) hread
    rw [hplace] at hgap
    exact of_gap true hplace hgap hindent.le rfl rfl ⟨rfl, hindent, rfl⟩
  · have hvalue : behindColon column width d =
        [' '] ++ written (column + 2) (column + width + 2) d := by
      cases d with
      | atom a => rfl
      | list items =>
          cases items with
          | nil => rfl
          | cons item items => exact absurd ⟨item, items, rfl⟩ hlist
      | map entries => exact absurd rfl (hturn entries)
    rw [hvalue, List.append_assoc] at hrest
    have hplace := Cursor.past_ink hrest (by simp [isPlainChar])
    have hgap := leads_spaces 1 hkeys hlevel (by omega) (hbegins (column + width + 2)) hrest
    have hright : l.cursor.column + [' '].length = column + width + 2 := by
      rw [hcolumn]
      rfl
    rw [hright] at hplace
    rw [List.replicate_one, hplace] at hgap
    refine of_gap _ hplace hgap ?_ hvalue rfl ?_
    · show l.indent ≤ (column + width + 2 : Nat)
      omega
    · cases d with
      | atom a => exact ⟨by simp only [moved]; omega, by simp only [moved]; omega⟩
      | list items =>
          cases items with
          | nil => exact ⟨by simp only [moved]; omega, by simp only [moved]; omega⟩
          | cons item items => exact absurd ⟨item, items, rfl⟩ hlist
      | map entries => exact absurd rfl (hturn entries)

/-- The tokens of an entry come before those of the further ones. -/
theorem entryTokens_cons {name : String} {d : Data} {fields : List (String × Data)} (indent : Nat)
    (hname : isName name.toList) :
    entryTokens (rereadEntries indent (fieldEntries ((name, d) :: fields))) =
      [.key, .scalar true (.chars name.toList), .value] ++
        (tokensOf (reread indent d) ++ entryTokens (rereadEntries indent (fieldEntries fields))) := by
  rw [← atomToken_of_isName hname]
  rfl

/-- The entries of a map, one after the other; the first one begins the map. -/
theorem leads_entries {column n : Nat} {fields : List (String × Data)} (hne : fields ≠ [])
    (hnames : ∀ field ∈ fields, isName field.1.toList)
    (hwritable : ∀ field ∈ fields, Writable field.2)
    (hcuts : ∀ field ∈ fields, Cuts (column + 2) field.2)
    (hturn : ∀ field ∈ fields, ∀ entries, field.2 ≠ .map entries) (h : l.AtToken)
    (hallowed : l.keyAllowed) (hcolumn : l.cursor.column = column)
    (hcloses : (l.enterHere .blockMapStart).Closes n tail)
    (hrest : l.cursor.rest = renderEntries column (fieldEntries fields) ++ (newline n ++ tail)) :
    Leads l ((l.enterHere .blockMapStart).arrive
      (entryTokens (rereadEntries (column + 2) (fieldEntries fields)))
      (l.cursor.past (renderEntries column (fieldEntries fields) ++ newline n))) := by
  induction fields generalizing l with
  | nil => exact absurd rfl hne
  | cons field fields ih =>
      obtain ⟨name, d⟩ := field
      rw [List.forall_mem_cons] at hnames hwritable hcuts hturn
      have hkey := isKey_of_isName hnames.1
      have hindent : (l.enterHere .blockMapStart).indent = column := by
        rw [enterHere_indent _ h.indent, hcolumn]
      rw [renderEntries_cons column hnames.1 hturn.1] at hrest ⊢
      have hmark : l.cursor.rest = name.toList ++ ':' :: (behindColon column name.toList.length d ++
          (further column (renderEntries column (fieldEntries fields)) ++ (newline n ++ tail))) := by
        simpa using hrest
      obtain ⟨hplace, hright⟩ := keyed_cursor (l := l.enterHere .blockMapStart) hkey
        (by rw [enterHere_cursor, hmark])
      rw [enterHere_cursor, hcolumn] at hright
      have hmarker : atMarker l.cursor.rest = false := by
        rw [hmark]
        exact atMarker_name hkey.start 0 _
      refine (leads_key h hallowed hkey (.inr hmarker) ?_ hmark).trans ?_
      · cases d with
        | atom a => rfl
        | list items => cases items <;> rfl
        | map entries => exact absurd rfl (hturn.1 entries)
      have hlevel : ((l.enterHere .blockMapStart).keyed name.toList).level = 0 := by
        rw [keyed, enterHere_level, h.level]
      cases fields with
      | nil =>
          have hlead := leads_value hwritable.1 hcuts.1 hturn.1 hlevel rfl hindent hright
            ⟨hcloses.begins, hcloses.marker, hcloses.indent⟩ hplace
          rw [arrive_keyed] at hlead
          simpa [fieldEntries, rereadEntries, entryTokens, further, renderEntries, keyed,
            atomToken_of_isName hnames.1, Cursor.past_append, Cursor.past_cons] using hlead
      | cons field fields =>
          have hnext := begins_entries column (List.cons_ne_nil field fields) hnames.2 hturn.2
            (newline n ++ tail)
          have hcloses' : ((l.enterHere .blockMapStart).keyed name.toList).Closes column
              (renderEntries column (fieldEntries (field :: fields)) ++ (newline n ++ tail)) :=
            ⟨hnext.1, hnext.2 column, hindent.ge⟩
          have hmore := further_entries column (List.cons_ne_nil field fields) hnames.2 hturn.2
          rw [hmore, List.append_assoc] at hplace
          have hlead := leads_value hwritable.1 hcuts.1 hturn.1 hlevel rfl hindent hright hcloses'
            hplace
          -- the further entries do not begin another map
          obtain ⟨hnextRest, hnextColumn, harrive, hnextToken, hsame⟩ :=
            AtToken.after (tokensOf (reread (column + 2) d)) hlevel hindent hcloses' hplace
          rw [harrive] at hlead
          have hrest' := ih (List.cons_ne_nil field fields) hnames.2 hwritable.2 hcuts.2 hturn.2
            hnextToken rfl hnextColumn (by
              rw [hsame]
              exact ⟨hcloses.begins, hcloses.marker, hcloses.indent⟩) hnextRest
          rw [hsame, arrive_after, arrive_keyed] at hrest'
          refine hlead.trans ?_
          rw [hmore, entryTokens_cons (column + 2) hnames.1]
          simpa [keyed, after, Cursor.past_append, Cursor.past_cons] using hrest'

/-! ## All values -/

/-- **Written values.** Wherever it can stand, what is written of a value is cut into the tokens of what
it is read back as, up to the next token behind it. -/
theorem cuts_of_writable {d : Data} (h : Writable d) (indent : Nat) : Cuts indent d := by
  induction h generalizing indent with
  | null =>
      have hword : IsWord "null".toList := ⟨by simp, by simp [isPlainChar], by simp, by simp⟩
      exact cuts_word (a := .null) hword rfl rfl (fun _ => rfl) (by simp)
  | bool b =>
      have hword : IsWord (if b then "true" else "false").toList := by
        cases b <;> exact ⟨by simp, by simp [isPlainChar], by simp, by simp⟩
      exact cuts_word (a := .bool b) hword (by cases b <;> rfl) rfl (fun _ => rfl) (by simp)
  | @int n hn =>
      exact cuts_word (isWord_toString n).1 (isWord_toString n).2 rfl (fun _ => rfl) (by simp)
  | text s => exact cuts_text indent s
  | @list items h hturn ih =>
      cases items with
      | nil => exact cuts_nil indent
      | cons d items =>
          intro l n tail htoken hblock hholds hcloses hrest
          obtain ⟨hallowed, hindent, rfl⟩ := hholds
          exact leads_items (List.cons_ne_nil d items) h (fun d hd => ih d hd _) hturn htoken
            hallowed hindent rfl hcloses hrest
  | @map fields hne hdistinct hnames h hturn ih =>
      intro l n tail htoken hblock hholds hcloses hrest
      obtain ⟨hallowed, hfurther, rfl⟩ := hholds
      have hwritten : written l.cursor.column l.cursor.column (.ofFields fields) =
          renderEntries l.cursor.column (fieldEntries fields) := by
        obtain ⟨field, fields, rfl⟩ := List.exists_cons_of_ne_nil hne
        rfl
      -- what stands behind the map is indented less than the map
      have hcloses' : (l.enterHere .blockMapStart).Closes n tail := by
        refine ⟨hcloses.begins, hcloses.marker, ?_⟩
        rw [enterHere_indent _ htoken.indent]
        exact hcloses.indent.trans hfurther.le
      rw [hwritten] at hrest ⊢
      have hlead := leads_entries hne hnames h (fun field hfield => ih field hfield _) hturn htoken
        hallowed rfl hcloses' hrest
      rwa [arrive_entered _ _ _ htoken.level hfurther] at hlead
      have hplace := Cursor.past_newline (Cursor.rest_past hrest)
      rw [Cursor.past_append, hplace]
      have := hcloses.indent
      simp only
      omega

/-- At the end of a text all blocks end. -/
theorem run_end {tokens : List Token} {place : Cursor} (fuel : Nat) (hrest : place.rest = [])
    (hlevel : l.level = 0) (hindent : l.indent = 0) (houter : l.outer = [-1])
    (htokens : l.tokens = [.blockMapStart]) :
    run (fuel + 1) (l.after tokens place) = (.blockMapStart :: tokens ++ [.blockEnd], none) := by
  have hbegins : Begins (l.after tokens place).cursor.rest := .inl hrest
  have hfresh : (l.after tokens place).dropStale = .ok (l.after tokens place) :=
    dropKeys_of_nil _ rfl
  have hleft : (l.after tokens place).unwind (l.after tokens place).cursor.column =
      l.after tokens place := by
    refine unwind_of_le ?_
    rw [show (l.after tokens place).indent = 0 from hindent]
    exact Int.natCast_nonneg _
  -- no key is left open at the end of the text
  have hended : ((l.after tokens place).unwind (-1)).dropKey =
      .ok ((l.after tokens place).unwind (-1)) := dropKeys_of_nil _ (by simp [after])
  have hstep : (l.after tokens place).step = .ok ((l.after tokens place).unwind (-1), true) := by
    rw [step]
    simp only [skipGap_of_begins _ hbegins, hfresh, bind, Except.bind, hleft,
      show (l.after tokens place).cursor.rest = [] from hrest, hended]
    rfl
  rw [run, hstep]
  simp [after, unwind, hlevel, hindent, houter, htokens]

end Lexer

theorem head?_ne_mark {s : List Char} (h : isInk s) : s.head? ≠ some '\ufeff' := by
  cases s with
  | nil => nofun
  | cons ch s =>
      rw [isInk_cons, Bool.and_eq_true] at h
      intro heq
      obtain rfl : ch = '\ufeff' := by simpa using heq
      exact absurd h.1 (by decide)

/-- **Tokens.** What is written of a map is cut into the tokens of what it is read back as. -/
theorem ofText_render {d : Data} (h : Writable d) (hmap : ∃ entries, d = .map entries) :
    Token.ofText (render d).toList = (tokensOf (reread 0 d), none) := by
  obtain ⟨entries, rfl⟩ := hmap
  obtain ⟨fields, hne, hnames, hfields, hturn, hentries⟩ := h.exists_fields
  rw [hentries]
  obtain ⟨text, htext⟩ : ∃ text, text = renderEntries 0 (fieldEntries fields) ++ newline 0 := ⟨_, rfl⟩
  have hrender : (render (.ofFields fields)).toList = text := by
    obtain ⟨field, fields, rfl⟩ := List.exists_cons_of_ne_nil hne
    rw [render, String.toList_ofList, htext]
    rfl
  have hink : isInk text := by
    have hentries : isInk (renderEntries 0 (fieldEntries fields)) := isInk_entries hnames
      (fun field hfield => isInk_written (hfields field hfield)) hturn
    rw [htext, isInk_append, hentries, isInk_newline]
    rfl
  have hrest : text = renderEntries 0 (fieldEntries fields) ++ (newline 0 ++ []) := by
    rw [htext, List.append_nil]
  -- the first state is kept as a variable, so that no step unfolds it
  obtain ⟨start, hstart⟩ : ∃ start : Lexer, start = { cursor := { rest := text } } := ⟨_, rfl⟩
  have htoken : start.AtToken := by
    rw [hstart]
    refine ⟨rfl, rfl, ?_, Int.negSucc_lt_zero 0 |>.le⟩
    rw [hrest]
    exact (begins_entries 0 hne hnames hturn _).1
  have hentered : start.enterHere .blockMapStart = { start with
      tokens := [.blockMapStart], count := 1, indent := 0, outer := [-1] } := by
    rw [hstart]
    rfl
  have hcloses : (start.enterHere .blockMapStart).Closes 0 [] := by
    rw [hentered]
    exact ⟨.inl rfl, rfl, le_rfl⟩
  have hcursor : start.cursor.rest = text := by rw [hstart]
  obtain ⟨n, hlength, hrun⟩ := Lexer.leads_entries hne hnames hfields
    (fun field hfield => Lexer.cuts_of_writable (hfields field hfield) _) hturn htoken
    (by rw [hstart]) (by rw [hstart]) hcloses (hcursor.trans hrest)
  rw [← htext] at hlength hrun
  have hplace : (start.cursor.past text).rest = [] :=
    Cursor.rest_past (hcursor.trans (List.append_nil text).symm)
  rw [Lexer.arrive_of_le _ _ _ (by rw [hentered]; exact Int.natCast_nonneg _)] at hlength hrun
  have hend := hrun (text.length - n) _
    (Lexer.run_end _ hplace (by rw [hentered, hstart]) (by rw [hentered]) (by rw [hentered])
      (by rw [hentered]))
  -- there are at most as many steps as characters, so the fuel is enough
  have hfuel : text.length - n + 1 + n = text.length + 1 := by
    rw [hcursor] at hlength
    omega
  rw [hfuel] at hend
  rw [hrender, Token.ofText, if_pos (all_isAllowed_of_isInk hink)]
  simp only [head?_ne_mark hink, if_false]
  rw [← hstart, hend]
  rfl

end Stylesheet.Data.Yaml
