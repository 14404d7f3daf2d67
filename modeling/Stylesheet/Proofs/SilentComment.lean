import Mathlib
import Stylesheet.Proofs.Assembly.TwoRuns
import Stylesheet.Proofs.Line.Alike
import Stylesheet.Proofs.Text.Trim

/-!
# Silent comments

A silent comment that is indented swallows the lines nested beneath it: without them and without
the comment itself a template comes to the same tree and the same constants and mixins. Only lines
that are kept without being interpreted still show it, those of other comments and the bodies of
mixins. A silent comment at the start of a line has nothing nested beneath it; it is dropped alone
and what follows stays where it was.

The two ways of dropping a comment meet in the kept lines. At the start of a line a comment is not
kept at all. Anywhere else it is the root of a tree of lines, and taking this tree away leaves a
forest that is alike (`Levelled.without`).

* `assembleTemplate_without_silentComment` : a template with a silent comment and without it.
-/

namespace Stylesheet

open Line Assembly

/-! ## Silent comments in a text -/

/-- Whether a physical line is a silent comment, indented or not. -/
def isSilent (raw : List Char) : Bool :=
  ['/', '/'].isPrefixOf (Text.trimStart raw)

/-- The physical lines after one that is indented by so many blanks, without the kept lines that
are nested beneath it. -/
def withoutNested (width : Nat) : List (List Char) → List (List Char)
  | [] => []
  | raw :: rest =>
    if isKept raw then
      if width < (indentation raw).length then withoutNested width rest else raw :: rest
    else raw :: withoutNested width rest

/-- Physical lines without a silent comment among them and without what is nested beneath it, which
is nothing if the comment is not indented. -/
def withoutComment (before : List (List Char)) (comment : List Char)
    (following : List (List Char)) : List (List Char) :=
  before ++
    if (indentation comment).isEmpty then following
    else withoutNested (indentation comment).length following

/-- Without its nested lines a comment is followed by the first kept line that is no further in. -/
theorem filter_withoutNested (width : Nat) (lines : List (List Char)) :
    (withoutNested width lines).filter isKept =
      (lines.filter isKept).dropWhile fun raw => width < (indentation raw).length := by
  induction lines with
  | nil => rfl
  | cons raw rest ih =>
      rw [withoutNested]
      split
      · next hkept =>
          rw [List.filter_cons_of_pos hkept]
          split
          · next hdeep => rw [ih, List.dropWhile_cons_of_pos (by simpa using hdeep)]
          · next hdeep =>
              rw [List.filter_cons_of_pos hkept, List.dropWhile_cons_of_neg (by simpa using hdeep)]
      · next hkept => rw [List.filter_cons_of_neg hkept, List.filter_cons_of_neg hkept, ih]

theorem indentation_append_trimStart (raw : List Char) :
    indentation raw ++ Text.trimStart raw = raw :=
  List.takeWhile_append_dropWhile

theorem exists_trimStart_of_isSilent {raw : List Char} (h : isSilent raw = true) :
    ∃ rest, Text.trimStart raw = '/' :: '/' :: rest := by
  obtain ⟨rest, hrest⟩ := List.isPrefixOf_iff_prefix.mp h
  exact ⟨rest, hrest.symm⟩

/-- A silent comment at the start of a line is not kept. -/
theorem isKept_of_unindented {raw : List Char} (h : isSilent raw = true)
    (hlead : indentation raw = []) : isKept raw = false := by
  obtain ⟨rest, hrest⟩ := exists_trimStart_of_isSilent h
  rw [← indentation_append_trimStart raw, hlead, List.nil_append, hrest]
  simp [isKept]

/-- A silent comment anywhere else is kept. -/
theorem isKept_of_indented {raw : List Char} (h : isSilent raw = true)
    (hlead : indentation raw ≠ []) : isKept raw = true := by
  obtain ⟨rest, hrest⟩ := exists_trimStart_of_isSilent h
  obtain ⟨c, cs, hc⟩ := List.exists_cons_of_ne_nil hlead
  have hraw : raw = c :: (cs ++ '/' :: '/' :: rest) := by
    rw [← hrest, ← List.cons_append, ← hc, indentation_append_trimStart]
  have hblank : Text.isBlank c = true := by
    have hall : (indentation raw).all Text.isBlank = true := List.all_takeWhile
    exact List.all_eq_true.mp hall c (by simp [hc])
  have hslash : '/' ≠ c := by
    rintro rfl
    exact absurd hblank (by decide)
  have hslashBlank : Text.isBlank '/' = false := by decide
  simp [isKept, hraw, hslashBlank, List.isPrefixOf, hslash]

/-- Lines that are silent comments in the text are so in the forest. -/
theorem shape_of_isSilent {raw : List Char} (h : isSilent raw = true) :
    Shape.of (Text.trim raw) = .silentComment := by
  obtain ⟨rest, hrest⟩ := exists_trimStart_of_isSilent h
  have hslash : Text.isBlank '/' = false := by decide
  rw [Text.trim, hrest, Text.trimEnd_cons hslash, Text.trimEnd_cons hslash]
  rfl

/-! ## Kept lines around a comment -/

theorem map_fst_filter_zipIdx (lines : List (List Char)) (start : Nat) :
    ((lines.zipIdx start).filter fun line => isKept line.1).map Prod.fst = lines.filter isKept := by
  conv_rhs => rw [← List.zipIdx_map_fst start lines]
  rw [List.filter_map]
  rfl

/-- Without their numbers the kept lines are the physical lines that are kept. -/
theorem map_fst_keptLines (template : List Char) :
    (keptLines template).map Prod.fst = (physicalLines template).filter isKept :=
  map_fst_filter_zipIdx _ 1

/-- The kept lines of a template around one of them. -/
theorem keptLines_around {template raw : List Char} {before following : List (List Char)}
    (hlines : physicalLines template = before ++ raw :: following) (hkept : isKept raw = true) :
    ∃ earlier later, keptLines template = earlier ++ (raw, before.length + 1) :: later ∧
      earlier.map Prod.fst = before.filter isKept ∧
      later.map Prod.fst = following.filter isKept := by
  refine ⟨(before.zipIdx 1).filter fun line => isKept line.1,
    (following.zipIdx (before.length + 2)).filter fun line => isKept line.1, ?_,
    map_fst_filter_zipIdx _ _, map_fst_filter_zipIdx _ _⟩
  unfold keptLines
  have hnumber : 1 + before.length = before.length + 1 := by omega
  rw [hlines, List.zipIdx_append, List.zipIdx_cons, List.filter_append,
    List.filter_cons_of_pos (by simpa using hkept), hnumber]

/-- Kept lines in two parts: those that are indented by more than so many blanks up to the first
one that is not, and the others. -/
theorem exists_nested (width : Nat) (later : List (List Char × Nat)) :
    ∃ nested after, later = nested ++ after ∧
      (∀ line ∈ nested, width < (indentation line.1).length) ∧
      (∀ line ∈ after.head?, (indentation line.1).length ≤ width) ∧
      after.map Prod.fst =
        (later.map Prod.fst).dropWhile fun raw => width < (indentation raw).length := by
  let deep (line : List Char × Nat) : Bool := width < (indentation line.1).length
  refine ⟨later.takeWhile deep, later.dropWhile deep, List.takeWhile_append_dropWhile.symm, ?_, ?_,
    by rw [List.dropWhile_map]; rfl⟩
  · intro line hline
    have hdeep := List.all_eq_true.mp List.all_takeWhile line hline
    simpa [deep] using hdeep
  · intro line hline
    have hdeep := List.head?_dropWhile_not deep later
    rw [Option.mem_def.mp hline] at hdeep
    simpa [deep] using hdeep

/-- Of two kept lines the one with more blanks in front of it is deeper. -/
theorem depth_lt_iff {unit : List Char} (hu : unit ≠ []) {kept kept' : List Char × Nat}
    {line line' : Line} (h : Tabulated unit kept line) (h' : Tabulated unit kept' line') :
    line.depth < line'.depth ↔ (indentation kept.1).length < (indentation kept'.1).length := by
  obtain ⟨depth, hlead, rfl⟩ := h
  obtain ⟨depth', hlead', rfl⟩ := h'
  have hpos : 0 < unit.length := List.length_pos_of_ne_nil hu
  show ((depth : Nat) : Int) < (depth' : Nat) ↔ _
  rw [hlead, hlead']
  simp [Nat.mul_lt_mul_right hpos]

/-! ## Runs without a silent comment -/

namespace Likeness

abbrev upToNumbers : Likeness :=
  successful False True fun _ => False

/-- The numbers of lines differ, and where lines are kept as they are the silent comment of a given
number may be missing. -/
abbrev lackingComment (number : Nat) : Likeness :=
  successful False True fun line => line.index = number

end Likeness

open Likeness

/-- A forest with a silent comment and the forest without it. -/
theorem parseLines_without {template shorter comment : List Char}
    {before following : List (List Char)}
    (hlines : physicalLines template = before ++ comment :: following)
    (hsilent : isSilent comment = true)
    (hshorter : (physicalLines shorter).filter isKept =
      (withoutComment before comment following).filter isKept)
    {forest : List Line} (h : parseLines template = .ok forest) :
    ∃ forest', parseLines shorter = .ok forest' ∧
      (lackingComment (before.length + 1)).Lines forest forest' := by
  obtain ⟨hlevelled, unit, hu, htabulated⟩ := parseLines_eq_ok_iff.mp h
  unfold withoutComment at hshorter
  by_cases hlead : indentation comment = []
  · -- the comment is dropped alone: the kept lines are the same
    refine parseLines_of_alike (fun _ _ => False.elim) hu hlevelled htabulated ?_
    have hdropped := isKept_of_unindented hsilent hlead
    rw [map_fst_keptLines, map_fst_keptLines, hshorter, hlines, hlead]
    simp [hdropped]
  · have hkept := isKept_of_indented hsilent hlead
    rw [if_neg (by simpa using hlead), List.filter_append, filter_withoutNested] at hshorter
    obtain ⟨earlier, later, haround, hearlier, hlater⟩ := keptLines_around hlines hkept
    obtain ⟨nested, after, rfl, hnested, hafter, hdrop⟩ :=
      exists_nested (indentation comment).length later
    rw [haround] at htabulated
    obtain ⟨linesBefore, rest, hflat, hbefore, hrest⟩ := exists_append_of_forall₂ htabulated
    obtain ⟨line, below, hline, hbelow, rfl⟩ := List.forall₂_cons_left_iff.mp hrest
    obtain ⟨linesNested, linesAfter, rfl, hnestedLines, hafterLines⟩ :=
      exists_append_of_forall₂ hbelow
    have hsame : (earlier ++ after).map Prod.fst = (keptLines shorter).map Prod.fst := by
      rw [map_fst_keptLines, hshorter, List.map_append, hearlier, hdrop, hlater]
    -- the lines around the comment are tabulated by the same unit
    obtain ⟨lines', htabulated', hflat'⟩ :=
      exists_tabulated (r := lackingComment (before.length + 1)) (fun _ _ => False.elim)
        (List.rel_append hbefore hafterLines) hsame
    -- what is nested beneath the comment is indented more, and what follows is not
    have hdeeper : ∀ inner ∈ linesNested, line.depth < inner.depth :=
      forall_mem_of_forall₂ hnestedLines hnested fun _ _ hinner hlead =>
        (depth_lt_iff hu.ne_nil hline hinner).mpr hlead
    have hends : EndsLevel (line.depth + 1) linesAfter := by
      intro next hnext
      cases hafterLines with
      | nil => cases hnext
      | cons hfirst _ =>
          cases hnext
          have hle := hafter _ rfl
          have hnot := mt (depth_lt_iff hu.ne_nil hline hfirst).mp (Nat.not_lt.mpr hle)
          omega
    have hgone : ∀ children,
        (lackingComment (before.length + 1)).gone { line with children } := by
      intro children
      obtain ⟨depth, -, rfl⟩ := hline
      refine ⟨?_, rfl⟩
      show Shape.of (String.ofList (Text.trim comment)).toList = _
      rw [String.toList_ofList, shape_of_isSilent hsilent]
    obtain ⟨forest', hlevelled', rfl, hl⟩ := hlevelled.without hflat hdeeper hends hgone hflat'
    exact ⟨forest', parseLines_eq_ok_iff.mpr ⟨hlevelled', unit, hu, htabulated'⟩, hl⟩

/-- **A silent comment is invisible.** A template with a silent comment that comes to a tree comes
to the same tree without the comment and what is nested beneath it, up to the numbers of lines, and
leaves the same constants and mixins. Only where lines are kept as they are, by other comments and
as bodies of mixins, the comment may be missing. The shorter template is any text that keeps the
lines that are left; blank lines and the ends of lines do not matter. -/
theorem assembleTemplate_without_silentComment {options : Options} {disk : Disk}
    {template shorter : String} {comment : List Char} {before following : List (List Char)}
    {limit : Nat} {state after : State} {tree : Node}
    (hlines : physicalLines template.toList = before ++ comment :: following)
    (hsilent : isSilent comment = true)
    (hshorter : (physicalLines shorter.toList).filter isKept =
      (withoutComment before comment following).filter isKept)
    (h : assembleTemplate options disk template state limit = (.ok tree, after)) :
    ∃ tree' after', assembleTemplate options disk shorter state limit = (.ok tree', after') ∧
      (lackingComment (before.length + 1)).Nodes [tree] [tree'] ∧
      (lackingComment (before.length + 1)).States after after' := by
  have hparsed : (lackingComment (before.length + 1)).Parsed (parseLines template.toList)
      (parseLines shorter.toList) := by
    cases hparse : parseLines template.toList with
    | error d => exact .excused trivial
    | ok forest =>
        obtain ⟨forest', hparse', hl⟩ := parseLines_without hlines hsilent hshorter hparse
        rw [hparse']
        exact .ok hl
  exact (document_matches (assemble_elsewheres (.inl rfl)) (.refl _) hparsed).ok_of_ok
    (.refl state) h

/-- A comment in the body of a mixin, with a line nested beneath it. -/
theorem without_silentComment_in_mixin :
    let before := ["=m".toList]
    let comment := "  // x".toList
    let following := ["    :p q".toList, "  b".toList, "+m".toList]
    let tree : Node := ⟨.root, none, none, [⟨.rule ⟨["b"], false⟩, some 4, none, []⟩]⟩
    let after : State := { mixins := ⟨[("m",
      [⟨"// x", 1, 2, [⟨":p q", 2, 3, []⟩]⟩, ⟨"b", 1, 4, []⟩])]⟩ }
    physicalLines "=m\n  // x\n    :p q\n  b\n+m".toList = before ++ comment :: following ∧
    isSilent comment = true ∧
    physicalLines "=m\n  b\n+m".toList = withoutComment before comment following ∧
    assembleTemplate {} (Disk.ofKnown []) "=m\n  // x\n    :p q\n  b\n+m" {} 3 =
      (.ok tree, after) ∧
    ∃ tree' after',
      assembleTemplate {} (Disk.ofKnown []) "=m\n  b\n+m" {} 3 = (.ok tree', after') ∧
      (lackingComment 2).Nodes [tree] [tree'] ∧ (lackingComment 2).States after after' := by
  intro before comment following tree after
  have hlines : physicalLines "=m\n  // x\n    :p q\n  b\n+m".toList =
      before ++ comment :: following := by cbv
  have hsilent : isSilent comment = true := by cbv
  have hshorter : physicalLines "=m\n  b\n+m".toList = withoutComment before comment following := by
    dsimp only [before, comment, following]
    cbv
  have h : assembleTemplate {} (Disk.ofKnown []) "=m\n  // x\n    :p q\n  b\n+m" {} 3 =
      (.ok tree, after) := by
    dsimp only [tree, after]
    cbv
  exact ⟨hlines, hsilent, hshorter, h,
    assembleTemplate_without_silentComment hlines hsilent (congrArg _ hshorter) h⟩

/-- Where a silent comment or what stands beneath it makes a difference. At the start of a line it
swallows nothing, and the deeper line after it belongs to the rule before it. Other comments and
mixins keep it as a line. And a comment at the start of a line does not end what is nested beneath
another one. -/
theorem silentComment_not_invisible :
    (physicalLines "a\n  :b c\n// note\n  :d e".toList =
        ["a".toList, "  :b c".toList, "// note".toList, "  :d e".toList] ∧
      isSilent "// note".toList = true ∧
      (indentation "// note".toList).length < (indentation "  :d e".toList).length ∧
      ∃ tree tree' after,
        assembleTemplate {} (Disk.ofKnown []) "a\n  :b c\n// note\n  :d e" = (.ok tree, after) ∧
        assembleTemplate {} (Disk.ofKnown []) "a\n  :b c" = (.ok tree', after) ∧
        ¬ upToNumbers.Nodes [tree] [tree']) ∧
    (∃ tree tree' after,
      assembleTemplate {} (Disk.ofKnown []) "/* c\n  // x" = (.ok tree, after) ∧
      assembleTemplate {} (Disk.ofKnown []) "/* c" = (.ok tree', after) ∧
      ¬ upToNumbers.Nodes [tree] [tree']) ∧
    (∃ tree after after',
      assembleTemplate {} (Disk.ofKnown []) "=m\n  // x" = (.ok tree, after) ∧
      assembleTemplate {} (Disk.ofKnown []) "=m" = (.ok tree, after') ∧
      ¬ upToNumbers.Mixins after.mixins after'.mixins) ∧
    ∃ tree tree' after,
      assembleTemplate {} (Disk.ofKnown []) "a\n  // x\n    b\n// y\n    :c d" =
        (.ok tree, after) ∧
      assembleTemplate {} (Disk.ofKnown []) "a\n// y\n    :c d" = (.ok tree', after) ∧
      ¬ upToNumbers.Nodes [tree] [tree'] := by
  refine ⟨⟨by cbv, by cbv, by cbv, ?unindented⟩, ?comment, ?mixin, ?between⟩
  case unindented =>
    refine ⟨⟨.root, none, none, [⟨.rule ⟨["a"], false⟩, some 1, none,
        [⟨.attr "b" "c", some 2, none, []⟩, ⟨.attr "d" "e", some 4, none, []⟩]⟩]⟩,
      ⟨.root, none, none, [⟨.rule ⟨["a"], false⟩, some 1, none,
        [⟨.attr "b" "c", some 2, none, []⟩]⟩]⟩, {}, by cbv, by cbv, ?_⟩
    rintro (_ | ⟨_, _, _, hrule, _⟩)
    rcases hrule with _ | ⟨_, _, _, hattrs, _⟩
    rcases hattrs with _ | ⟨_, _, _, _, hmore⟩
    cases hmore
  case comment =>
    refine ⟨⟨.root, none, none, [⟨.comment "/* c" true [⟨"// x", 1, 2, []⟩], some 1, none, []⟩]⟩,
      ⟨.root, none, none, [⟨.comment "/* c" true [], some 1, none, []⟩]⟩, {}, by cbv, by cbv, ?_⟩
    rintro (_ | ⟨_, _, _, hcomment, _⟩)
    rcases hcomment with _ | ⟨hcontent, _, _, _, _⟩
    rcases hcontent with _ | ⟨_ | _ | ⟨hgone, _⟩⟩
    exact hgone.2
  case mixin =>
    refine ⟨⟨.root, none, none, []⟩, { mixins := ⟨[("m", [⟨"// x", 1, 2, []⟩])]⟩ },
      { mixins := ⟨[("m", [])]⟩ }, by cbv, by cbv, ?_⟩
    rintro (_ | ⟨⟨_, hbody⟩, _⟩)
    rcases hbody with _ | _ | ⟨hgone, _⟩
    exact hgone.2
  case between =>
    refine ⟨⟨.root, none, none, [⟨.rule ⟨["a"], false⟩, some 1, none, []⟩]⟩,
      ⟨.root, none, none, [⟨.rule ⟨["a"], false⟩, some 1, none,
        [⟨.attr "c" "d", some 3, none, []⟩]⟩]⟩, {}, by cbv, by cbv, ?_⟩
    rintro (_ | ⟨_, _, _, hrule, _⟩)
    rcases hrule with _ | ⟨_, _, _, hattrs, _⟩
    cases hattrs

end Stylesheet
