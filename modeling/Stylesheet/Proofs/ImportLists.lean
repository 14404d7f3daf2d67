import Mathlib
import Stylesheet.Proofs.Assembly.Failing
import Stylesheet.Proofs.Continuation

/-!
# How lists of imports are read

An import names its targets in a list with commas between them. Blanks after a comma belong to
nothing; blanks before a comma are read as the end of the target that comes before it. Such a target
ends neither in `.sass` nor in `.css`, whatever was meant, so that it is looked for under a name
with blanks in it and, not being found, referred to as a style sheet.

* `Import.targets_written` : which targets are read from a list.
* `Import.resolve_of_blank_end` : what a target comes to that ends in a blank.
* `importLine_spacing` : what the blanks in a list come to, for the line as a whole.
-/

namespace Stylesheet

open Assembly

/-! ## Pieces of lists -/

namespace IsListPiece

variable {piece : List Char}

/-- Nothing is blank at the start of a piece, whatever follows it. -/
theorem trimStart_append (h : IsListPiece piece) (more : List Char) :
    Text.trimStart (piece ++ more) = piece ++ more := by
  obtain ⟨c, cs, rfl⟩ := List.exists_cons_of_ne_nil h.ne_nil
  exact Text.trimStart_cons (Text.isBlank_head_of_trimmed h.trimmed) _

/-- Nothing is blank at the end of a piece. -/
theorem exists_last (h : IsListPiece piece) :
    ∃ cs c, piece = cs ++ [c] ∧ Text.isBlank c = false := by
  have htrimmed := h.trimmed
  have hne : Text.trim piece ≠ [] := by
    rw [htrimmed]
    exact h.ne_nil
  obtain ⟨c, hlast, hc⟩ := Text.exists_last_of_trim hne
  rw [htrimmed] at hlast
  obtain ⟨cs, hcs⟩ := List.getLast?_eq_some_iff.mp hlast
  exact ⟨cs, c, hcs, hc⟩

/-- There is no comma in a piece, nor in the blanks around it. -/
theorem notMem_comma (h : IsListPiece piece) {before after : List Char}
    (hbefore : before.all Text.isBlank = true)
    (hafter : after.all Text.isBlank = true) : ',' ∉ before ++ (piece ++ after) := by
  have hcomma : Text.isBlank ',' = false := by decide
  intro hmem
  rcases List.mem_append.mp hmem with hmem | hmem
  · exact Text.notMem_of_blank hbefore hcomma hmem
  · rcases List.mem_append.mp hmem with hmem | hmem
    · exact h.no_comma hmem
    · exact Text.notMem_of_blank hafter hcomma hmem

end IsListPiece

namespace Import

/-! ## Lists as they are written -/

/-- A target of a list that is not its first one, with the blanks around the comma before it. -/
structure Further where
  beforeComma : List Char
  afterComma : List Char
  target : List Char
  beforeComma_blank : beforeComma.all Text.isBlank = true
  afterComma_blank : afterComma.all Text.isBlank = true
  isPiece : IsListPiece target

def written (first : List Char) : List Further → List Char
  | [] => first
  | next :: rest =>
    first ++ (next.beforeComma ++ ',' :: (next.afterComma ++ written next.target rest))

/-- The targets that are read from a list: blanks before a comma end the target before it. -/
def readFrom (first : List Char) : List Further → List (List Char)
  | [] => [first]
  | next :: rest => (first ++ next.beforeComma) :: readFrom next.target rest

variable {first : List Char}

/-- Where no blanks are written, the commas alone join the targets. -/
theorem exists_written_eq_intercalate (first : List Char) (further : List Further) :
    ∃ tight : List Further, written first tight =
        List.intercalate [','] (first :: further.map (·.target)) ∧
      readFrom first tight = first :: further.map (·.target) := by
  induction further generalizing first with
  | nil => exact ⟨[], (List.intercalate_singleton).symm, rfl⟩
  | cons next rest ih =>
      obtain ⟨tight, hwritten, hread⟩ := ih next.target
      refine ⟨⟨[], [], next.target, rfl, rfl, next.isPiece⟩ :: tight, ?_, ?_⟩
      · rw [List.map_cons, List.intercalate_cons_cons, ← hwritten, List.append_assoc]
        rfl
      · rw [readFrom, hread, List.append_nil]
        rfl

/-- The targets are read as they were meant if no blank stands before a comma, and only then. -/
theorem readFrom_eq_iff (first : List Char) (further : List Further) :
    readFrom first further = first :: further.map (·.target) ↔
      ∀ next ∈ further, next.beforeComma = [] := by
  induction further generalizing first with
  | nil => exact iff_of_true rfl nofun
  | cons next rest ih =>
      rw [readFrom, List.map_cons, List.cons.injEq, List.forall_mem_cons, ih]
      exact and_congr_left' List.append_right_eq_self

/-! ## Reading a list -/

/-- The last target ends the list. -/
theorem exists_written_eq_concat (hfirst : IsListPiece first) (further : List Further) :
    ∃ cs c, written first further = cs ++ [c] ∧ Text.isBlank c = false := by
  induction further generalizing first with
  | nil => exact hfirst.exists_last
  | cons next rest ih =>
      obtain ⟨cs, c, hcs, hc⟩ := ih next.isPiece
      refine ⟨first ++ (next.beforeComma ++ ',' :: (next.afterComma ++ cs)), c, ?_, hc⟩
      rw [written, hcs]
      simp only [List.append_assoc, List.cons_append]

/-- The first target starts the list. -/
theorem trimStart_written (hfirst : IsListPiece first) (further : List Further) :
    Text.trimStart (written first further) = written first further := by
  cases further with
  | nil =>
      have hstart := hfirst.trimStart_append []
      rwa [List.append_nil] at hstart
  | cons next rest => exact hfirst.trimStart_append _

theorem trim_written (hfirst : IsListPiece first) (further : List Further) :
    Text.trim (written first further) = written first further := by
  obtain ⟨cs, c, hcs, hc⟩ := exists_written_eq_concat hfirst further
  rw [Text.trim, trimStart_written hfirst, hcs]
  exact Text.trimEnd_concat hc cs

/-- A list is cut at its first comma. -/
theorem pieces_written_cons (hfirst : IsListPiece first) {blanks : List Char}
    (hblanks : blanks.all Text.isBlank = true) (next : Further) (rest : List Further) :
    Text.pieces ',' (blanks ++ written first (next :: rest)) =
      (blanks ++ (first ++ next.beforeComma)) ::
        Text.pieces ',' (next.afterComma ++ written next.target rest) := by
  rw [← Text.pieces_append (hfirst.notMem_comma hblanks next.beforeComma_blank)]
  simp only [written, List.append_assoc]

/-- The induction is on the targets still to come; the blanks that the comma before them left are
carried along. -/
theorem map_trimStart_pieces_written (hfirst : IsListPiece first) {blanks : List Char}
    (hblanks : blanks.all Text.isBlank = true) (further : List Further) :
    (Text.pieces ',' (blanks ++ written first further)).map Text.trimStart =
      readFrom first further := by
  induction further generalizing blanks first with
  | nil =>
      have hnone : ',' ∉ blanks ++ (first ++ []) := hfirst.notMem_comma hblanks rfl
      rw [List.append_nil] at hnone
      rw [written, Text.pieces_of_notMem hnone, List.map_singleton,
        Text.trimStart_append_of_blank hblanks]
      exact congrArg (fun piece => [piece]) (trimStart_written hfirst [])
  | cons next rest ih =>
      rw [pieces_written_cons hfirst hblanks, List.map_cons,
        Text.trimStart_append_of_blank hblanks, hfirst.trimStart_append,
        ih next.isPiece next.afterComma_blank, readFrom]

/-- Which targets are read from a list. -/
theorem targets_written (hfirst : IsListPiece first) (further : List Further) :
    targets (written first further) = readFrom first further := by
  unfold targets
  rw [trim_written hfirst]
  cases further with
  | nil =>
      rw [written, Text.pieces_of_notMem hfirst.no_comma]
      rfl
  | cons next rest =>
      have hcut : Text.pieces ',' ([] ++ written first (next :: rest)) = _ :=
        pieces_written_cons hfirst rfl next rest
      rw [List.nil_append, List.nil_append] at hcut
      rw [hcut, readFrom, ← map_trimStart_pieces_written next.isPiece next.afterComma_blank]

/-! ## Blanks at the end of a target -/

theorem isSuffixOf_eq_false {ending target : List Char} {c d : Char}
    (htarget : target.getLast? = some c) (hending : ending.getLast? = some d) (hne : d ≠ c) :
    ending.isSuffixOf target = false := by
  refine Bool.eq_false_iff.mpr fun hsuffix => ?_
  obtain ⟨before, rfl⟩ := List.isSuffixOf_iff_suffix.mp hsuffix
  rw [List.getLast?_append, hending] at htarget
  exact hne (Option.some.inj htarget)

/-- A target that ends in a blank has no ending that tells what it is, so it is looked for and, if
it is not found, taken for a style sheet. -/
theorem resolve_of_blank_end {target : List Char} {c : Char} (hlast : target.getLast? = some c)
    (hblank : Text.isBlank c = true) (isFile : String → Bool) (loadPaths : List String) :
    resolve isFile target loadPaths =
      match find? isFile (target ++ ".sass".toList) loadPaths with
      | some path => .file path
      | none => .fallback (String.ofList (target ++ ".css".toList)) := by
  have hs : 's' ≠ c := by
    rintro rfl
    exact absurd hblank (by decide)
  have hsass : ".sass".toList.isSuffixOf target = false := isSuffixOf_eq_false hlast rfl hs
  have hcss : ".css".toList.isSuffixOf target = false := isSuffixOf_eq_false hlast rfl hs
  unfold resolve withoutEnding?
  rw [hsass, hcss]
  rfl

/-! ## Lists as the values of imports -/

theorem isPrefixOf_append_cons {start : List Char} {c : Char} (hc : c ∉ start)
    (text rest : List Char) : start.isPrefixOf (text ++ c :: rest) = start.isPrefixOf text := by
  induction start generalizing text with
  | nil => cases text <;> rfl
  | cons d start ih =>
      obtain ⟨hne, hc⟩ := not_or.mp (mt List.mem_cons.mpr hc)
      cases text with
      | nil => simp [List.isPrefixOf, Ne.symm hne]
      | cons t text => simp [List.isPrefixOf, ih hc]

/-- What holds no blank and no comma starts a list only if it starts the first target. -/
theorem isPrefixOf_written {start : List Char} (hcomma : ',' ∉ start)
    (hblank : start.any Text.isBlank = false) (first : List Char) (further : List Further) :
    start.isPrefixOf (written first further) = start.isPrefixOf first := by
  cases further with
  | nil => rfl
  | cons next rest =>
      rw [written, ← List.append_assoc, isPrefixOf_append_cons hcomma]
      cases hbefore : next.beforeComma with
      | nil => rw [List.append_nil]
      | cons c blanks =>
          have hc : Text.isBlank c = true := List.all_eq_true.mp next.beforeComma_blank c (by simp [hbefore])
          refine isPrefixOf_append_cons (fun hmem => ?_) first blanks
          exact List.any_eq_false.mp hblank c hmem hc

/-- Whether a list is a reference is told by its first target. -/
theorem isReference_written (first : List Char) (further : List Further) :
    isReference (written first further) = isReference first := by
  unfold isReference
  rw [isPrefixOf_written (by decide) (by decide), isPrefixOf_written (by decide) (by decide),
    isPrefixOf_written (by decide) (by decide)]

end Import

/-! ## Lines that import a list -/

/-- The line that imports a list of targets, after a gap. -/
def importLine (gap list : List Char) (depth index : Int) (children : List Line) : Line :=
  ⟨String.ofList ("@import".toList ++ (gap ++ list)), depth, index, children⟩

/-- The name of the directive ends at the gap, and the list is what follows the gap. -/
theorem directiveParts_import {gap list : List Char} (hne : gap ≠ [])
    (hgap : gap.all Text.isBlank = true) (hlist : Text.trimStart list = list)
    (hnonempty : list ≠ []) :
    directiveParts ("@import".toList ++ (gap ++ list)) = ("import".toList, some list) := by
  obtain ⟨c, blanks, rfl⟩ := List.exists_cons_of_ne_nil hne
  have hc : Text.isBlank c = true := List.all_eq_true.mp hgap c List.mem_cons_self
  have hname : ∀ c ∈ "import".toList, (!Text.isBlank c) = true :=
    List.all_eq_true.mp (by decide)
  have htext : Text.trimStart (("@import".toList ++ (c :: blanks ++ list)).drop 1) =
      "import".toList ++ (c :: (blanks ++ list)) := rfl
  have hcut : (c :: (blanks ++ list)).takeWhile (fun c => !Text.isBlank c) = [] ∧
      (c :: (blanks ++ list)).dropWhile (fun c => !Text.isBlank c) = c :: blanks ++ list := by
    simp [hc]
  unfold directiveParts
  rw [htext]
  dsimp only
  rw [List.takeWhile_append_of_pos hname, List.dropWhile_append_of_pos hname, hcut.1, hcut.2,
    Text.trimStart_append_of_blank hgap, hlist]
  simp [hnonempty]

/-- Lines that import the same targets come to the same. -/
theorem build_importsTargets {elsewhere : Elsewhere} {context : Context} {text text' : String}
    {depth index : Int} {children : List Line} {value value' : List Char}
    (h : Line.ImportsTargets ⟨text, depth, index, children⟩ value)
    (h' : Line.ImportsTargets ⟨text', depth, index, children⟩ value')
    (htargets : Import.targets value = Import.targets value') :
    build elsewhere context ⟨text, depth, index, children⟩ =
      build elsewhere context ⟨text', depth, index, children⟩ := by
  rw [build_eq, build_eq, meaning_of_import h, meaning_of_import h', htargets]

section

variable {gap first : List Char}

/-- An import line whose list is no reference imports the list. -/
theorem importsTargets_written (hne : gap ≠ []) (hgap : gap.all Text.isBlank = true)
    (hfirst : IsListPiece first) (hplain : isReference first = false)
    (further : List Import.Further) (depth index : Int) (children : List Line) :
    (importLine gap (Import.written first further) depth index children).ImportsTargets
      (Import.written first further) := by
  have hnonempty : Import.written first further ≠ [] := by
    obtain ⟨cs, c, hcs, -⟩ := Import.exists_written_eq_concat hfirst further
    rw [hcs]
    exact List.append_ne_nil_of_right_ne_nil cs (List.cons_ne_nil c [])
  have hparts := directiveParts_import hne hgap (Import.trimStart_written hfirst further) hnonempty
  unfold Line.ImportsTargets importLine
  dsimp only
  rw [String.toList_ofList]
  refine ⟨rfl, "import".toList, hparts, ?_⟩
  simp [isImport, Import.isReference_written, hplain]

/-- **Only blanks before a comma count.** A list of targets, the first of which is not a reference,
is imported by the line that holds it, whatever blanks stand around its commas. The targets are read
with the blanks that come before their commas, so that they are read as they were meant exactly if
there are none; in this case the line comes to what the line comes to in which commas alone join
the targets. A target with a blank at its end is neither found missing nor known for a style sheet,
whatever its ending was: it is looked for under the name with the blank, and else referred to. -/
theorem importLine_spacing (hne : gap ≠ []) (hgap : gap.all Text.isBlank = true)
    (hfirst : IsListPiece first) (hplain : isReference first = false)
    (further : List Import.Further) (depth index : Int) (children : List Line) :
    let list := Import.written first further
    let targets := first :: further.map (·.target)
    (importLine gap list depth index children).ImportsTargets list ∧
    Import.targets list = Import.readFrom first further ∧
    (Import.targets list = targets ↔ ∀ next ∈ further, next.beforeComma = []) ∧
    ((∀ next ∈ further, next.beforeComma = []) → ∀ elsewhere context,
      build elsewhere context (importLine gap list depth index children) =
        build elsewhere context
          (importLine gap (List.intercalate [','] targets) depth index children)) ∧
    ∀ target ∈ Import.targets list, ∀ c, target.getLast? = some c → Text.isBlank c = true →
      ∀ isFile loadPaths, Import.resolve isFile target loadPaths =
        match Import.find? isFile (target ++ ".sass".toList) loadPaths with
        | some path => .file path
        | none => .fallback (String.ofList (target ++ ".css".toList)) := by
  dsimp only
  have hread := Import.targets_written hfirst further
  have himports := importsTargets_written hne hgap hfirst hplain further depth index children
  refine ⟨himports, hread, ?_, ?_, ?_⟩
  · rw [hread]
    exact Import.readFrom_eq_iff first further
  · intro hbefore elsewhere context
    -- the same targets with nothing around the commas
    obtain ⟨tight, hwritten, htight⟩ := Import.exists_written_eq_intercalate first further
    have himports' := importsTargets_written hne hgap hfirst hplain tight depth index children
    rw [← hwritten]
    refine build_importsTargets himports himports' ?_
    rw [hread, (Import.readFrom_eq_iff first further).mpr hbefore,
      Import.targets_written hfirst tight, htight]
  · intro target _ c hlast hblank isFile loadPaths
    exact Import.resolve_of_blank_end hlast hblank isFile loadPaths

/-- Of three targets the first one is read with a blank. -/
theorem importLine_spacing_of_three :
    let further : List Import.Further :=
      [⟨[' '], [], ['b'], by decide, rfl, by decide, by cbv, by decide⟩,
        ⟨[], ['\t', ' '], ['c'], rfl, by decide, by decide, by cbv, by decide⟩]
    let list := "a ,b,\t c".toList
    [' '] ≠ [] ∧ ([' '].all Text.isBlank = true) ∧ IsListPiece ['a'] ∧
    isReference ['a'] = false ∧ Import.written ['a'] further = list ∧
    (importLine [' '] list 0 1 []).ImportsTargets list ∧
    Import.targets list = [['a', ' '], ['b'], ['c']] ∧
    ∀ loadPaths, Import.resolve (fun _ => false) ['a', ' '] loadPaths = .fallback "a .css" := by
  intro further list
  have hgap : [' '].all Text.isBlank = true := by decide
  have hfirst : IsListPiece ['a'] := ⟨by decide, by cbv, by decide⟩
  have hplain : isReference ['a'] = false := by cbv
  obtain ⟨himports, htargets, -, -, hresolve⟩ :=
    importLine_spacing (List.cons_ne_nil ' ' []) hgap hfirst hplain further 0 1 []
  have hmem : ['a', ' '] ∈ Import.targets (Import.written ['a'] further) := by
    rw [htargets]
    exact List.mem_cons_self
  refine ⟨List.cons_ne_nil ' ' [], hgap, hfirst, hplain, rfl, himports, htargets, ?_⟩
  intro loadPaths
  have hnone : Import.find? (fun _ => false) (['a', ' '] ++ ".sass".toList) loadPaths = none :=
    List.find?_eq_none.mpr fun path _ => Bool.false_ne_true
  rw [hresolve _ hmem ' ' rfl (by decide), hnone]
  rfl

/-- With a blank before its comma a list can come to something else than without it, although the
files of both targets are there. -/
theorem blank_before_comma_counts :
    ¬ ∀ (gap first : List Char) (further : List Import.Further) (disk : Disk) (options : Options)
        (limit : Nat), gap ≠ [] → (gap.all Text.isBlank = true) → IsListPiece first →
      isReference first = false →
      Import.targets (Import.written first further) = first :: further.map (·.target) ∧
      (assembleTemplate options disk
          (String.ofList ("@import".toList ++ (gap ++ Import.written first further))) {} limit).1 =
        (assembleTemplate options disk
          (String.ofList ("@import".toList ++ (gap ++
            List.intercalate [','] (first :: further.map (·.target))))) {} limit).1 := by
  intro hclaim
  let disk := Disk.ofKnown [("./a.sass", .ok [120]), ("./b.sass", .ok [121])]
  let spaced : Import.Further :=
    ⟨[' '], [' '], ['b'], by decide, by decide, by decide, by cbv, by decide⟩
  have hgap : [' '].all Text.isBlank = true := by decide
  obtain ⟨-, hsame⟩ := hclaim [' '] ['a'] [spaced] disk {} 3 (List.cons_ne_nil ' ' []) hgap
    ⟨by decide, by cbv, by decide⟩ (by cbv)
  have hb : Import.resolve disk.isFile ['b'] ["."] = .file "./b.sass" := rfl
  have hy : disk.readText "./b.sass" = .ok "y" := by
    dsimp only [disk]
    cbv
  have hspaced : (assembleTemplate {} disk "@import a , b" {} 3).1 =
      .ok ⟨.root, none, none, [⟨.directive "@import url(a .css)", some 1, none, []⟩,
        ⟨.rule ⟨["y"], false⟩, some 1, some "./b.sass", []⟩]⟩ := by
    have hlines : parseLines "@import a , b".toList = .ok [⟨"@import a , b", 0, 1, []⟩] := by cbv
    have hparts : directiveParts "@import a , b".toList =
        ("import".toList, some "a , b".toList) := by cbv
    have hread : Import.targets "a , b".toList = [['a', ' '], ['b']] := by cbv
    have ha : Import.resolve disk.isFile ['a', ' '] ["."] = .fallback "a .css" := rfl
    unfold assembleTemplate document
    rw [hlines]
    simp only [assemble, arrange, build, meaning, Shape.of, hparts, hread, importTargets,
      importTarget, ha, hb, importFile, hy]
    cbv
  have htight : (assembleTemplate {} disk "@import a,b" {} 3).1 =
      .ok ⟨.root, none, none, [⟨.rule ⟨["x"], false⟩, some 1, some "./a.sass", []⟩,
        ⟨.rule ⟨["y"], false⟩, some 1, some "./b.sass", []⟩]⟩ := by
    have hlines : parseLines "@import a,b".toList = .ok [⟨"@import a,b", 0, 1, []⟩] := by cbv
    have hparts : directiveParts "@import a,b".toList =
        ("import".toList, some "a,b".toList) := by cbv
    have hread : Import.targets "a,b".toList = [['a'], ['b']] := by cbv
    have ha : Import.resolve disk.isFile ['a'] ["."] = .file "./a.sass" := rfl
    have hx : disk.readText "./a.sass" = .ok "x" := by
      dsimp only [disk]
      cbv
    unfold assembleTemplate document
    rw [hlines]
    simp only [assemble, arrange, build, meaning, Shape.of, hparts, hread, importTargets,
      importTarget, ha, hb, importFile, hx, hy]
    cbv
  have hresults := hspaced.symm.trans (Eq.trans hsame htight)
  cases hresults

end

end Stylesheet
