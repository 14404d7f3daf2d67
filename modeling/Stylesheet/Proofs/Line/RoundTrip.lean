import Mathlib
import Stylesheet.Proofs.Line.Parsing
import Stylesheet.Proofs.Text.Trim

/-!
# Writing a forest of lines and reading it again

A forest is written in preorder, every line on a physical line of its own behind one indentation
unit for each level above it. Reading the text gives the forest back, each line with its level as
depth and its preorder position as number; which character ends a physical line does not matter.

* `physicalLines_joinLines` : cutting joined lines apart.
* `parseLines_written` : reading what was written.
-/

namespace Stylesheet

open Line

/-! ## Ends of lines -/

inductive LineEnd where
  | lineFeed
  | carriageReturn
  /-- A carriage return and a line feed. -/
  | both
  deriving DecidableEq, Repr

def LineEnd.chars : LineEnd → List Char
  | lineFeed => ['\n']
  | carriageReturn => ['\r']
  | both => ['\r', '\n']

/-- Physical lines as one text; `ends` chooses what each line but the last one ends with. -/
def joinLines (ends : Nat → LineEnd) : List (List Char) → List Char
  | [] => []
  | [raw] => raw
  | raw :: next :: lines =>
    raw ++ ((ends 0).chars ++ joinLines (fun n => ends (n + 1)) (next :: lines))

def OneLine (raw : List Char) : Prop :=
  '\n' ∉ raw ∧ '\r' ∉ raw

instance (raw : List Char) : Decidable (OneLine raw) :=
  inferInstanceAs (Decidable ('\n' ∉ raw ∧ '\r' ∉ raw))

theorem oneLine_cons_iff {c : Char} {raw : List Char} :
    OneLine (c :: raw) ↔ c ≠ '\n' ∧ c ≠ '\r' ∧ OneLine raw := by
  simp only [OneLine, List.mem_cons, not_or, ne_eq, eq_comm (a := c)]
  tauto

/-- What is made of the characters of a text without an end of line has none either. -/
theorem OneLine.subset {raw cs : List Char} (h : OneLine raw) (hsubset : cs ⊆ raw) : OneLine cs :=
  ⟨fun hmem => h.1 (hsubset hmem), fun hmem => h.2 (hsubset hmem)⟩

/-- Ends of lines are blank. -/
theorem oneLine_of_isBlank {raw : List Char} (h : ∀ c ∈ raw, Text.isBlank c = false) :
    OneLine raw := by
  constructor
  · intro hmem
    cases h _ hmem
  · intro hmem
    cases h _ hmem

/-- Characters that end no line belong to the first physical line. -/
theorem physicalLines_append {raw : List Char} (h : OneLine raw) {cs first : List Char}
    {rest : List (List Char)} (hcs : physicalLines cs = first :: rest) :
    physicalLines (raw ++ cs) = (raw ++ first) :: rest := by
  induction raw with
  | nil => exact hcs
  | cons c raw ih =>
      obtain ⟨hlf, hcr, hraw⟩ := oneLine_cons_iff.mp h
      rw [List.cons_append, physicalLines.eq_def]
      split
      · next heq => cases heq
      · next heq => exact absurd (List.cons.inj heq).1 hcr
      · next heq =>
          cases heq
          rw [if_neg (by simp [hlf, hcr]), ih hraw]
          rfl

/-- An end of line is followed by a new line. A line feed after a carriage return would belong to
the same end. -/
theorem physicalLines_end (ending : LineEnd) {cs : List Char}
    (h : ending = .carriageReturn → cs.head? ≠ some '\n') :
    physicalLines (ending.chars ++ cs) = [] :: physicalLines cs := by
  cases ending with
  | lineFeed => simp [LineEnd.chars, physicalLines]
  | both => simp [LineEnd.chars, physicalLines]
  | carriageReturn =>
      cases cs with
      | nil => simp [LineEnd.chars, physicalLines]
      | cons c cs =>
          have hc : c ≠ '\n' := by simpa using h rfl
          show physicalLines ('\r' :: c :: cs) = _
          rw [physicalLines.eq_def]
          split
          · next heq => cases heq
          · next heq =>
              cases heq
              exact absurd rfl hc
          · next heq =>
              cases heq
              rw [if_pos (.inr rfl)]

theorem head?_joinLines (ends : Nat → LineEnd) {c : Char} {raw : List Char}
    (lines : List (List Char)) : (joinLines ends ((c :: raw) :: lines)).head? = some c := by
  cases lines <;> rfl

/-- Joined lines are cut apart where they were joined. No line is empty: the ends around it could
run together. -/
theorem physicalLines_joinLines (ends : Nat → LineEnd) {lines : List (List Char)} (hne : lines ≠ [])
    (h : ∀ raw ∈ lines, raw ≠ [] ∧ OneLine raw) : physicalLines (joinLines ends lines) = lines := by
  induction lines generalizing ends with
  | nil => exact absurd rfl hne
  | cons raw lines ih =>
      obtain ⟨-, hraw⟩ := h raw List.mem_cons_self
      cases lines with
      | nil =>
          simpa [joinLines] using physicalLines_append hraw (show physicalLines [] = [[]] by rfl)
      | cons next lines =>
          have hlines := ih (fun n => ends (n + 1)) (by simp) fun raw hraw =>
            h raw (List.mem_cons_of_mem _ hraw)
          obtain ⟨hnext, hone⟩ := h next (by simp)
          obtain ⟨c, cs, rfl⟩ := List.exists_cons_of_ne_nil hnext
          have hhead :
              (joinLines (fun n => ends (n + 1)) ((c :: cs) :: lines)).head? ≠ some '\n' := by
            rw [head?_joinLines]
            simpa using (oneLine_cons_iff.mp hone).1
          have hend := physicalLines_end (ends 0) fun _ => hhead
          rw [hlines] at hend
          rw [joinLines, physicalLines_append hraw hend, List.append_nil]

/-! ## Forests in a text -/

namespace Line

def writtenAll (unit : List Char) (level : Nat) : List Line → List (List Char)
  | [] => []
  | ⟨text, _, _, children⟩ :: rest =>
    ((List.replicate level unit).flatten ++ text.toList) ::
      (writtenAll unit (level + 1) children ++ writtenAll unit level rest)

/-- The texts of a forest at a level with their places: the level is the depth, and the numbers
count the lines in preorder from `number` on. -/
def placedAll (level number : Nat) : List Line → List Line
  | [] => []
  | ⟨text, _, _, children⟩ :: rest =>
    ⟨text, level, number, placedAll (level + 1) (number + 1) children⟩ ::
      placedAll level (number + 1 + (flattenAll children).length) rest

end Line

/-- What the text of a line can be. -/
structure IsLineText (text : List Char) : Prop where
  ne_nil : text ≠ []
  oneLine : OneLine text
  trimmed : Text.trim text = text

/-- What can be an indentation unit within a physical line. -/
structure IsBlankUnit (unit : List Char) : Prop extends IsUnit unit where
  blank : ∀ c ∈ unit, Text.isBlank c = true
  oneLine : OneLine unit

/-! ## Written lines are kept and indented as they were -/

section

variable {unit : List Char}

theorem isBlank_of_mem_units (hu : IsBlankUnit unit) (level : Nat) :
    ∀ c ∈ (List.replicate level unit).flatten, Text.isBlank c = true := by
  intro c hc
  obtain ⟨lead, hlead, hc⟩ := List.mem_flatten.mp hc
  rw [List.eq_of_mem_replicate hlead] at hc
  exact hu.blank c hc

/-- The units before a text are its indentation. -/
theorem indentation_written (hu : IsBlankUnit unit) (level : Nat) {text : List Char}
    (h : IsLineText text) :
    indentation ((List.replicate level unit).flatten ++ text) =
      (List.replicate level unit).flatten := by
  obtain ⟨c, cs, rfl⟩ := List.exists_cons_of_ne_nil h.ne_nil
  have hc := Text.isBlank_head_of_trimmed h.trimmed
  rw [indentation, List.takeWhile_append_of_pos (isBlank_of_mem_units hu level),
    List.takeWhile_cons_of_neg (by simp [hc]), List.append_nil]

/-- The units before a text are trimmed away. -/
theorem trim_written (hu : IsBlankUnit unit) (level : Nat) {text : List Char}
    (h : IsLineText text) : Text.trim ((List.replicate level unit).flatten ++ text) = text := by
  have hstart : Text.trimStart ((List.replicate level unit).flatten ++ text) =
      Text.trimStart text :=
    List.dropWhile_append_of_pos (isBlank_of_mem_units hu level)
  rw [Text.trim, hstart]
  exact h.trimmed

/-- A written line is kept, unless it is unindented and a silent comment. -/
theorem isKept_written (hu : IsBlankUnit unit) {level : Nat} {text : List Char}
    (h : IsLineText text) (hroot : level = 0 → ¬ ['/', '/'] <+: text) :
    isKept ((List.replicate level unit).flatten ++ text) = true := by
  obtain ⟨c, cs, rfl⟩ := List.exists_cons_of_ne_nil h.ne_nil
  have hc := Text.isBlank_head_of_trimmed h.trimmed
  have hnot : ¬ ['/', '/'] <+: (List.replicate level unit).flatten ++ c :: cs := by
    cases level with
    | zero => simpa using hroot rfl
    | succ level =>
        -- the first character is blank, and a slash is not
        obtain ⟨b, bs, rfl⟩ := List.exists_cons_of_ne_nil hu.ne_nil
        have hb : Text.isBlank b = true := hu.blank b List.mem_cons_self
        have hslash : '/' ≠ b := by
          rintro rfl
          exact absurd hb (by decide)
        simp [List.replicate_succ, hslash]
  have hall : ((List.replicate level unit).flatten ++ c :: cs).all Text.isBlank = false := by
    simp [hc]
  have hprefix :
      ['/', '/'].isPrefixOf ((List.replicate level unit).flatten ++ c :: cs) = false := by
    rw [← Bool.not_eq_true, List.isPrefixOf_iff_prefix]
    exact hnot
  rw [isKept, hall, hprefix]
  rfl

theorem oneLine_append {xs ys : List Char} (hx : OneLine xs) (hy : OneLine ys) :
    OneLine (xs ++ ys) := by
  simp [OneLine, hx.1, hx.2, hy.1, hy.2]

theorem oneLine_units (hu : IsBlankUnit unit) (level : Nat) :
    OneLine (List.replicate level unit).flatten := by
  constructor
  · intro hmem
    obtain ⟨lead, hlead, hc⟩ := List.mem_flatten.mp hmem
    rw [List.eq_of_mem_replicate hlead] at hc
    exact hu.oneLine.1 hc
  · intro hmem
    obtain ⟨lead, hlead, hc⟩ := List.mem_flatten.mp hmem
    rw [List.eq_of_mem_replicate hlead] at hc
    exact hu.oneLine.2 hc

/-! ## Whole forests -/

/-- The lines of a forest have texts that a line can have. -/
def IsWritable (forest : List Line) : Prop :=
  ∀ line ∈ flattenAll forest, IsLineText line.text.toList

theorem isWritable_cons_iff {text : String} {depth index : Int} {children rest : List Line} :
    IsWritable (⟨text, depth, index, children⟩ :: rest) ↔
      IsLineText text.toList ∧ IsWritable children ∧ IsWritable rest := by
  simp only [IsWritable, flattenAll_cons, List.mem_cons, List.mem_append]
  constructor
  · intro h
    exact ⟨h _ (.inl rfl), fun line hline => h line (.inr (.inl hline)),
      fun line hline => h line (.inr (.inr hline))⟩
  · rintro ⟨htext, hch, hrest⟩ line (rfl | hline | hline)
    · exact htext
    · exact hch line hline
    · exact hrest line hline

/-- A forest is written on as many lines as it has. -/
theorem length_writtenAll (level : Nat) : ∀ forest : List Line,
    (writtenAll unit level forest).length = (flattenAll forest).length
  | [] => by simp [writtenAll]
  | ⟨text, _, _, children⟩ :: rest => by
      simp [writtenAll, length_writtenAll (level + 1) children, length_writtenAll level rest]

/-- A forest is levelled once its lines have their places. -/
theorem levelled_placedAll (level number : Nat) : ∀ forest : List Line,
    Levelled level (placedAll level number forest)
  | [] => by
      rw [placedAll]
      exact .nil
  | ⟨_, _, _, children⟩ :: rest => by
      rw [placedAll]
      exact .cons (levelled_placedAll (level + 1) (number + 1) children)
        (levelled_placedAll level (number + 1 + (flattenAll children).length) rest)

/-- The numbers of the lines are their preorder positions. -/
theorem map_index_placedAll (level number : Nat) : ∀ forest : List Line,
    (flattenAll (placedAll level number forest)).map (·.index) =
      (List.range' number (flattenAll forest).length).map Nat.cast
  | [] => by simp [placedAll]
  | ⟨_, _, _, children⟩ :: rest => by
      have hnested := map_index_placedAll (level + 1) (number + 1) children
      have hafter := map_index_placedAll level (number + 1 + (flattenAll children).length) rest
      rw [placedAll, flattenAll_cons, flattenAll_cons, List.map_cons, List.map_append, hnested,
        hafter, ← List.map_append, List.range'_append_1, List.length_cons, List.length_append,
        List.range'_succ, List.map_cons]

/-- What is written for a forest becomes the lines of the forest in their places. The induction is
on the forest: what is nested beneath its first line, and the rest. -/
theorem tabulated_written (hu : IsBlankUnit unit) (level number : Nat) : ∀ {forest : List Line},
    IsWritable forest →
    List.Forall₂ (Tabulated unit) ((writtenAll unit level forest).zipIdx number)
      (flattenAll (placedAll level number forest))
  | [], _ => by simp [writtenAll, placedAll]
  | ⟨text, _, _, children⟩ :: rest, h => by
      obtain ⟨htext, hch, hrest⟩ := isWritable_cons_iff.mp h
      have hnested := tabulated_written hu (level + 1) (number + 1) hch
      have hafter := tabulated_written hu level (number + 1 + (flattenAll children).length) hrest
      rw [writtenAll, placedAll, flattenAll_cons, List.zipIdx_cons, List.zipIdx_append,
        length_writtenAll]
      refine .cons ⟨level, indentation_written hu level htext, ?_⟩ (List.rel_append hnested hafter)
      rw [Line.ofRaw, trim_written hu level htext, String.ofList_toList]

/-- Each line that is written is one physical line. -/
theorem written_oneLine (hu : IsBlankUnit unit) (level : Nat) : ∀ {forest : List Line},
    IsWritable forest → ∀ raw ∈ writtenAll unit level forest, raw ≠ [] ∧ OneLine raw
  | [], _ => by simp [writtenAll]
  | ⟨text, _, _, children⟩ :: rest, h => by
      obtain ⟨htext, hch, hrest⟩ := isWritable_cons_iff.mp h
      intro raw hraw
      rw [writtenAll, List.mem_cons, List.mem_append] at hraw
      rcases hraw with rfl | hraw | hraw
      · exact ⟨by simp [htext.ne_nil], oneLine_append (oneLine_units hu level) htext.oneLine⟩
      · exact written_oneLine hu (level + 1) hch raw hraw
      · exact written_oneLine hu level hrest raw hraw

/-- Each line that is written is kept by the reader. -/
theorem isKept_of_mem_written (hu : IsBlankUnit unit) (level : Nat) : ∀ {forest : List Line},
    IsWritable forest →
    (level = 0 → ∀ line ∈ forest, ¬ ['/', '/'] <+: line.text.toList) →
    ∀ raw ∈ writtenAll unit level forest, isKept raw = true
  | [], _, _ => by simp [writtenAll]
  | ⟨text, _, _, children⟩ :: rest, h, hroot => by
      obtain ⟨htext, hch, hrest⟩ := isWritable_cons_iff.mp h
      intro raw hraw
      rw [writtenAll, List.mem_cons, List.mem_append] at hraw
      rcases hraw with rfl | hraw | hraw
      · exact isKept_written hu htext fun hlevel => hroot hlevel _ List.mem_cons_self
      · exact isKept_of_mem_written hu (level + 1) hch (by simp) raw hraw
      · exact isKept_of_mem_written hu level hrest
          (fun hlevel line hline => hroot hlevel line (List.mem_cons_of_mem _ hline)) raw hraw

end

/-- The lines that are kept of the text of a forest are all that were written. -/
theorem keptLines_written {unit : List Char} (hu : IsBlankUnit unit) {forest : List Line}
    (h : IsWritable forest) (hroot : ∀ line ∈ forest, ¬ ['/', '/'] <+: line.text.toList)
    (ends : Nat → LineEnd) :
    keptLines (joinLines ends (writtenAll unit 0 forest)) =
      (writtenAll unit 0 forest).zipIdx 1 := by
  have hkept := isKept_of_mem_written hu 0 h fun _ => hroot
  cases forest with
  | nil =>
      -- the empty text is one blank line
      rw [writtenAll]
      rfl
  | cons line rest =>
      obtain ⟨text, depth, index, children⟩ := line
      have hne : writtenAll unit 0 (⟨text, depth, index, children⟩ :: rest) ≠ [] := by
        simp [writtenAll]
      rw [keptLines, physicalLines_joinLines ends hne (written_oneLine hu 0 h), List.filter_eq_self]
      rintro ⟨raw, number⟩ hraw
      exact hkept raw (List.fst_mem_of_mem_zipIdx hraw)

/-- **Reading what was written gives it back.** The text of a forest, written with any indentation
unit and any ends of lines, is parsed to the forest, in which every line stands at its level and has
its preorder position as number. -/
theorem parseLines_written {unit : List Char} (hu : IsBlankUnit unit) {forest : List Line}
    (h : IsWritable forest) (hroot : ∀ line ∈ forest, ¬ ['/', '/'] <+: line.text.toList)
    (ends : Nat → LineEnd) :
    parseLines (joinLines ends (writtenAll unit 0 forest)) = .ok (placedAll 0 1 forest) ∧
      (flattenAll (placedAll 0 1 forest)).map (·.index) =
        (List.range' 1 (flattenAll forest).length).map Nat.cast := by
  refine ⟨?_, map_index_placedAll 0 1 forest⟩
  refine parseLines_eq_ok_iff.mpr ⟨levelled_placedAll 0 1 forest, unit, hu.toIsUnit, ?_⟩
  rw [keptLines_written hu h hroot ends]
  exact tabulated_written hu 0 1 h

/-- A forest of three levels, written with tabs and with each of the ends of lines. A silent comment
that is not at the top is a line like others. -/
theorem parseLines_written_with_all_ends :
    let unit := ['\t']
    let forest : List Line :=
      [⟨"a", 5, 0, [⟨"// x", 0, 0, []⟩, ⟨"b c", 0, 0, [⟨"d", 0, 0, []⟩]⟩]⟩, ⟨"e", 0, 0, []⟩]
    let ends : Nat → LineEnd := fun n =>
      if n = 0 then .carriageReturn else if n = 1 then .both else .lineFeed
    let template := "a\r\t// x\r\n\tb c\n\t\td\ne".toList
    let placed : List Line :=
      [⟨"a", 0, 1, [⟨"// x", 1, 2, []⟩, ⟨"b c", 1, 3, [⟨"d", 2, 4, []⟩]⟩]⟩, ⟨"e", 0, 5, []⟩]
    IsBlankUnit unit ∧ IsWritable forest ∧ (∀ line ∈ forest, ¬ ['/', '/'] <+: line.text.toList) ∧
    joinLines ends (writtenAll unit 0 forest) = template ∧ parseLines template = .ok placed := by
  intro unit forest ends template placed
  have hu : IsBlankUnit unit :=
    ⟨⟨by simp [unit], by simp [unit]⟩, by simp [unit, Text.isBlank], by simp [unit], by simp [unit]⟩
  have h : IsWritable forest := by
    have htext : ∀ line ∈ flattenAll forest, line.text ∈ ["a", "// x", "b c", "d", "e"] := by
      simp [forest]
    intro line hline
    have hcases := htext line hline
    simp only [List.mem_cons, List.not_mem_nil, or_false] at hcases
    rcases hcases with heq | heq | heq | heq | heq <;> rw [heq] <;>
      exact ⟨by simp, ⟨by simp, by simp⟩, by cbv⟩
  have hroot : ∀ line ∈ forest, ¬ ['/', '/'] <+: line.text.toList := by
    simp [forest]
  have htemplate : joinLines ends (writtenAll unit 0 forest) = template := by
    dsimp only [ends, unit, forest, template]
    cbv
  have hplaced : placedAll 0 1 forest = placed := by
    dsimp only [forest, placed]
    cbv
  have hparse := (parseLines_written hu h hroot ends).1
  rw [htemplate, hplaced] at hparse
  exact ⟨hu, h, hroot, htemplate, hparse⟩

end Stylesheet
