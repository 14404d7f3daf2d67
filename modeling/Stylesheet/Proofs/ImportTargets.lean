import Mathlib
import Stylesheet.Proofs.Assembly.Failing

/-!
# What the targets of imports come to

A target is looked for on the load paths in their order, at each with an underscore before its last
name and then without. The first path that can be read is the one that is compiled. A target for
which there is none is an error if it ends in `.sass`, and is referred to as a style sheet if not; a
target that ends in `.css` is referred to at once.

What is found is told from what is referred to by its ending, so that everything hangs on this: a
path at which a file is looked for ends in `.sass` whatever the target is.

* `Import.IsFirst` : the first path that can be read.
* `Import.resolve_eq_file_iff`, `Import.resolve_of_unreadable` : what a target comes to.
* `Import.css_suffix_iff` : what ends in `.css` is not a file that was found.
* `importTargets_eq_ok_iff` : what a list of targets comes to, target by target.
* `imports_first_candidate` : all of it for one target, and for a list.
-/

namespace Stylesheet

namespace Import

/-! ## Names of files -/

/-- The target without one `.sass` at its end. -/
def stem (target : List Char) : List Char :=
  (withoutEnding? ".sass" target).getD target

/-- The file that a target stands for. -/
def fileOf (target : List Char) : List Char :=
  stem target ++ ".sass".toList

variable {target file : List Char} {isFile : String → Bool} {loadPaths : List String}
  {loadPath path : String}

/-- An ending is taken off exactly the names that have it. -/
theorem withoutEnding?_eq_some_iff {ending : String} {cs before : List Char} :
    withoutEnding? ending cs = some before ↔ cs = before ++ ending.toList := by
  unfold withoutEnding?
  rw [Option.ite_none_right_eq_some, List.isSuffixOf_iff_suffix, Option.some.injEq,
    ← String.length_toList]
  constructor
  · rintro ⟨⟨whole, rfl⟩, rfl⟩
    simp
  · rintro rfl
    exact ⟨List.suffix_append before _, by simp⟩

theorem withoutEnding?_eq_none_iff {ending : String} {cs : List Char} :
    withoutEnding? ending cs = none ↔ ¬ ending.toList <:+ cs := by
  unfold withoutEnding?
  rw [← List.isSuffixOf_iff_suffix]
  split <;> simp_all

theorem stem_append (before : List Char) : stem (before ++ ".sass".toList) = before := by
  rw [stem, withoutEnding?_eq_some_iff.mpr rfl, Option.getD_some]

theorem stem_of_not_suffix (h : ¬ ".sass".toList <:+ target) : stem target = target := by
  rw [stem, withoutEnding?_eq_none_iff.mpr h, Option.getD_none]

theorem not_both_suffixes {cs : List Char} (hcss : ".css".toList <:+ cs) :
    ¬ ".sass".toList <:+ cs := by
  intro hsass
  have hsuffix := List.suffix_of_suffix_length_le hcss hsass (by decide)
  exact absurd (List.isSuffixOf_iff_suffix.mpr hsuffix) (by decide)

/-! ## Places of files -/

def lastName (file : List Char) : List Char :=
  (splitPath file).2

/-- What comes before the last name of a file where it is looked for on a load path: the load path and
the folder of the file, with a slash at the end. -/
def folderOn (file : List Char) (loadPath : String) : List Char :=
  let folder := joinPath loadPath.toList (splitPath file).1
  if folder.isEmpty || folder.getLast? = some '/' then folder else folder ++ ['/']

/-- Where a file is looked for on a load path. -/
def plainPath (file : List Char) (loadPath : String) : String :=
  String.ofList (folderOn file loadPath ++ lastName file)

/-- Where a file is looked for before that, with an underscore before its last name. -/
def partialPath (file : List Char) (loadPath : String) : String :=
  String.ofList (folderOn file loadPath ++ '_' :: lastName file)

/-- A path is its folder, slashes, and its last name, in which there is no slash. -/
theorem splitPath_spec (file : List Char) :
    ∃ slashes, slashes.all (· == '/') = true ∧
      file = (splitPath file).1 ++ (slashes ++ lastName file) ∧ '/' ∉ lastName file := by
  have hcut (p : Char → Bool) (cs : List Char) :
      cs = (cs.reverse.dropWhile p).reverse ++ (cs.reverse.takeWhile p).reverse := by
    rw [← List.reverse_append, List.takeWhile_append_dropWhile, List.reverse_reverse]
  have hname : '/' ∉ lastName file := by
    intro hmem
    have := List.mem_takeWhile_imp (List.mem_reverse.mp hmem)
    simp at this
  have hfile := hcut (· != '/') file
  have hfolder := hcut (· == '/') (file.reverse.dropWhile (· != '/')).reverse
  unfold lastName splitPath at *
  dsimp only at *
  -- a folder of slashes only keeps them
  split
  · exact ⟨[], rfl, hfile, hname⟩
  · refine ⟨((file.reverse.dropWhile (· != '/')).reverse.reverse.takeWhile (· == '/')).reverse,
      ?slashes, ?file, hname⟩
    case slashes =>
      rw [List.all_reverse]
      exact List.all_takeWhile
    case file =>
      rw [← List.append_assoc, ← hfolder]
      exact hfile

theorem joinPath_of_head {a b : List Char} (h : b.head? ≠ some '/') :
    joinPath a b = (if a.isEmpty || a.getLast? = some '/' then a else a ++ ['/']) ++ b := by
  unfold joinPath
  rw [if_neg h]
  split
  · rfl
  · rw [List.append_assoc, List.singleton_append]

/-- For every load path the partial comes before the plain file. -/
theorem candidates_eq (file : List Char) (loadPaths : List String) :
    candidates file loadPaths =
      loadPaths.flatMap fun loadPath => [partialPath file loadPath, plainPath file loadPath] := by
  obtain ⟨-, -, -, hname⟩ := splitPath_spec file
  have hhead : (lastName file).head? ≠ some '/' := fun h => hname (List.mem_of_mem_head? h)
  unfold candidates
  dsimp only
  congr 1
  funext loadPath
  rw [List.map_cons, List.map_cons, List.map_nil, ← lastName, joinPath_of_head (by simp),
    joinPath_of_head hhead]
  rfl

/-- The last name of a file ends as the file does. -/
theorem suffix_lastName {ending : List Char} (h : '/' ∉ ending) (before : List Char) :
    ending <:+ lastName (before ++ ending) := by
  refine ⟨(before.reverse.takeWhile (· != '/')).reverse, ?_⟩
  have hending : ∀ c ∈ ending.reverse, (c != '/') = true := by
    intro c hc
    refine bne_iff_ne.mpr ?_
    rintro rfl
    exact h (List.mem_reverse.mp hc)
  rw [lastName, splitPath]
  dsimp only
  rw [List.reverse_append, List.takeWhile_append_of_pos hending, List.reverse_append,
    List.reverse_reverse]

/-! ## The first path that can be read -/

/-- A file can be read on a load path, under one of its two names. -/
def Readable (isFile : String → Bool) (file : List Char) (loadPath : String) : Prop :=
  isFile (partialPath file loadPath) = true ∨ isFile (plainPath file loadPath) = true

/-- A path is the first one at which a file can be read: on no load path before its own one, and with
the underscore if that can be read. -/
inductive IsFirst (isFile : String → Bool) (file : List Char) : List String → String → Prop
  | hidden {loadPath : String} {rest : List String} :
      isFile (partialPath file loadPath) = true →
      IsFirst isFile file (loadPath :: rest) (partialPath file loadPath)
  | plain {loadPath : String} {rest : List String} :
      isFile (partialPath file loadPath) = false → isFile (plainPath file loadPath) = true →
      IsFirst isFile file (loadPath :: rest) (plainPath file loadPath)
  | later {loadPath path : String} {rest : List String} : ¬ Readable isFile file loadPath →
      IsFirst isFile file rest path → IsFirst isFile file (loadPath :: rest) path

/-- A load path is searched before those after it. -/
theorem find?_cons (isFile : String → Bool) (file : List Char) (loadPath : String)
    (rest : List String) :
    find? isFile file (loadPath :: rest) =
      if isFile (partialPath file loadPath) then some (partialPath file loadPath)
      else if isFile (plainPath file loadPath) then some (plainPath file loadPath)
      else find? isFile file rest := by
  unfold find?
  rw [candidates_eq, candidates_eq, List.flatMap_cons, List.cons_append, List.cons_append,
    List.nil_append, List.find?_cons, List.find?_cons]
  cases isFile (partialPath file loadPath) <;> cases isFile (plainPath file loadPath) <;> rfl

/-- The search finds the first path. -/
theorem find?_eq_some_iff :
    find? isFile file loadPaths = some path ↔ IsFirst isFile file loadPaths path := by
  constructor
  · intro h
    induction loadPaths with
    | nil => cases h
    | cons loadPath rest ih =>
        rw [find?_cons] at h
        split at h
        · next hhidden =>
            cases h
            exact .hidden hhidden
        · next hhidden =>
            split at h
            · next hplain =>
                cases h
                exact .plain (Bool.eq_false_iff.mpr hhidden) hplain
            · next hplain => exact .later (not_or.mpr ⟨hhidden, hplain⟩) (ih h)
  · intro h
    induction h with
    | hidden hhidden => rw [find?_cons, if_pos hhidden]
    | plain hhidden hplain =>
        rw [find?_cons, if_neg (Bool.eq_false_iff.mp hhidden), if_pos hplain]
    | later hnone _ ih =>
        obtain ⟨hhidden, hplain⟩ := not_or.mp hnone
        rw [find?_cons, if_neg hhidden, if_neg hplain, ih]

/-- Nothing is found exactly when no load path has a readable candidate. -/
theorem find?_eq_none_iff :
    find? isFile file loadPaths = none ↔ ∀ loadPath ∈ loadPaths, ¬ Readable isFile file loadPath := by
  induction loadPaths with
  | nil => exact iff_of_true rfl nofun
  | cons loadPath rest ih =>
      rw [find?_cons, List.forall_mem_cons, Readable]
      split
      · simp [*]
      · split
        · simp [*]
        · simp [*]

/-- There is a first candidate exactly when there is one at all. -/
theorem exists_isFirst_iff :
    (∃ path, IsFirst isFile file loadPaths path) ↔
      ∃ loadPath ∈ loadPaths, Readable isFile file loadPath := by
  have hfound : (∃ path, find? isFile file loadPaths = some path) ↔
      ¬ ∀ loadPath ∈ loadPaths, ¬ Readable isFile file loadPath := by
    rw [← find?_eq_none_iff, ← Ne, Option.ne_none_iff_exists']
  push Not at hfound
  rw [← hfound]
  exact exists_congr fun path => find?_eq_some_iff.symm

/-! ## What a target comes to -/

theorem resolve_of_css (h : ".css".toList <:+ target) (isFile : String → Bool)
    (loadPaths : List String) :
    resolve isFile target loadPaths = .reference (String.ofList target) := by
  unfold resolve
  rw [withoutEnding?_eq_none_iff.mpr (not_both_suffixes h)]
  exact if_pos (List.isSuffixOf_iff_suffix.mpr h)

/-- A target that is no style sheet's name and is found is resolved to its file. -/
theorem resolve_of_find (h : ¬ ".css".toList <:+ target)
    (hfind : find? isFile (fileOf target) loadPaths = some path) :
    resolve isFile target loadPaths = .file path := by
  unfold resolve
  split
  · next before hbefore =>
      rw [withoutEnding?_eq_some_iff.mp hbefore, fileOf, stem_append] at hfind
      rw [hfind]
  · next hnone =>
      rw [fileOf, stem_of_not_suffix (withoutEnding?_eq_none_iff.mp hnone)] at hfind
      rw [if_neg (mt List.isSuffixOf_iff_suffix.mp h), hfind]

/-- A target that is not found is missing, or falls back to a reference. -/
theorem resolve_of_unreadable (h : ¬ ".css".toList <:+ target)
    (hnone : ∀ loadPath ∈ loadPaths, ¬ Readable isFile (fileOf target) loadPath) :
    resolve isFile target loadPaths =
      if ".sass".toList <:+ target then .missing
      else .fallback (String.ofList (stem target ++ ".css".toList)) := by
  have hfind := find?_eq_none_iff.mpr hnone
  unfold resolve
  split
  · next before hbefore =>
      have htarget := withoutEnding?_eq_some_iff.mp hbefore
      rw [htarget, fileOf, stem_append] at hfind
      rw [hfind, htarget, if_pos (List.suffix_append _ _)]
  · next hwhole =>
      have hsass := withoutEnding?_eq_none_iff.mp hwhole
      rw [fileOf, stem_of_not_suffix hsass] at hfind
      rw [if_neg (mt List.isSuffixOf_iff_suffix.mp h), hfind, if_neg hsass,
        stem_of_not_suffix hsass]

/-- What a target comes to that is looked for: the first path that can be read. -/
theorem resolve_eq_file_iff (h : ¬ ".css".toList <:+ target) :
    resolve isFile target loadPaths = .file path ↔
      IsFirst isFile (fileOf target) loadPaths path := by
  rw [← find?_eq_some_iff]
  cases hfind : find? isFile (fileOf target) loadPaths with
  | some found => rw [resolve_of_find h hfind, Resolution.file.injEq, Option.some.injEq]
  | none =>
      rw [resolve_of_unreadable h (find?_eq_none_iff.mp hfind)]
      split <;> simp

/-! ## Endings -/

def Resolution.text? : Resolution → Option String
  | .file path => some path
  | .fallback name => some name
  | .reference name => some name
  | .missing => none

/-- A path at which a file is looked for ends as the last name of the file does. -/
theorem suffix_of_isFirst {ending : List Char} (h : IsFirst isFile file loadPaths path)
    (hname : ending <:+ lastName file) : ending <:+ path.toList := by
  induction h with
  | hidden =>
      rw [partialPath, String.toList_ofList]
      exact hname.trans ((List.suffix_cons _ _).trans (List.suffix_append _ _))
  | plain =>
      rw [plainPath, String.toList_ofList]
      exact hname.trans (List.suffix_append _ _)
  | later _ _ ih => exact ih

/-- What a target comes to ends in `.css` if and only if it is not a file that was found: the test of
the target's ending and a test of the result's ending never disagree. -/
theorem css_suffix_iff {text : String}
    (h : (resolve isFile target loadPaths).text? = some text) :
    ".css".toList <:+ text.toList ↔ ∀ path, resolve isFile target loadPaths ≠ .file path := by
  have hslash : '/' ∉ ".sass".toList := by decide
  by_cases hcss : ".css".toList <:+ target
  · rw [resolve_of_css hcss] at h ⊢
    cases h
    simpa using hcss
  · by_cases hfound : ∃ loadPath ∈ loadPaths, Readable isFile (fileOf target) loadPath
    · obtain ⟨path, hfirst⟩ := exists_isFirst_iff.mpr hfound
      have hresolve := (resolve_eq_file_iff hcss).mpr hfirst
      rw [hresolve] at h ⊢
      cases h
      -- the underscore and the load path stand before the last name, which ends in `.sass`
      have hsass : ".sass".toList <:+ lastName (fileOf target) := suffix_lastName hslash _
      have hnot := mt not_both_suffixes (not_not.mpr (suffix_of_isFirst hfirst hsass))
      exact iff_of_false hnot fun hne => hne _ rfl
    · have hnone : ∀ loadPath ∈ loadPaths, ¬ Readable isFile (fileOf target) loadPath :=
        fun loadPath hmem hreadable => hfound ⟨loadPath, hmem, hreadable⟩
      rw [resolve_of_unreadable hcss hnone] at h ⊢
      split at h
      · cases h
      · next hsass =>
          cases h
          have hname : (String.ofList (stem target ++ ".css".toList)).toList =
              stem target ++ ".css".toList := String.toList_ofList
          rw [if_neg hsass, hname]
          exact iff_of_true (List.suffix_append _ _) nofun

end Import

open Assembly

variable {elsewhere : Elsewhere} {context : Context} {line : Int} {target : List Char} {s : State}

/-! ## One target -/

/-- The target is looked for and not found. -/
def Context.Lacks (context : Context) (target : List Char) : Prop :=
  ∀ loadPath ∈ context.options.loadPaths,
    ¬ Import.Readable context.disk.isFile (Import.fileOf target) loadPath

/-- The path is the first one at which the target is found. -/
def Context.Finds (context : Context) (target : List Char) (path : String) : Prop :=
  Import.IsFirst context.disk.isFile (Import.fileOf target) context.options.loadPaths path

/-- A style sheet's name is passed through and nothing is read. -/
theorem outcome_importTarget_of_css (h : ".css".toList <:+ target) :
    (importTarget elsewhere context line target).outcome s =
      (.ok [reference context line (String.ofList target)], s) := by
  unfold importTarget
  rw [Import.resolve_of_css h]
  rfl

/-- A target that is found is noted and its file imported. -/
theorem outcome_importTarget_of_finds (hcss : ¬ ".css".toList <:+ target) {path : String}
    (h : context.Finds target path) :
    (importTarget elsewhere context line target).outcome s =
      (importFile elsewhere context line (String.ofList target) path).outcome
        { s with events := .resolved (String.ofList target) path :: s.events } := by
  unfold importTarget
  rw [(Import.resolve_eq_file_iff hcss).mpr h]
  rfl

/-- A target that is not found is refused, or passed through as a style sheet's name. -/
theorem outcome_importTarget_of_lacks (hcss : ¬ ".css".toList <:+ target)
    (h : context.Lacks target) :
    (importTarget elsewhere context line target).outcome s =
      if ".sass".toList <:+ target then
        (.error (.refused (Fault.at (.fileNotFound (String.ofList target)) (some line))), s)
      else
        (.ok [reference context line (String.ofList (Import.stem target ++ ".css".toList))],
          { s with events := .passedThrough (String.ofList target) :: s.events }) := by
  unfold importTarget
  rw [Import.resolve_of_unreadable hcss h]
  by_cases hsass : ".sass".toList <:+ target
  · rw [if_pos hsass, if_pos hsass]
    rfl
  · rw [if_neg hsass, if_neg hsass]
    rfl

/-- A target is found at one path, or it is found at none. -/
theorem Context.finds_or_lacks (context : Context) (target : List Char) :
    (∃ path, context.Finds target path) ∨ context.Lacks target := by
  by_cases h : ∃ path, context.Finds target path
  · exact .inl h
  · refine .inr fun loadPath hmem hreadable => h ?_
    exact Import.exists_isFirst_iff.mpr ⟨loadPath, hmem, hreadable⟩

/-- A file is imported if it can be read, and comes to the nodes of its lines. -/
theorem importFile_eq_ok {path shown : String} {nodes : List Node} {after : State}
    (h : (importFile elsewhere context line shown path).outcome s = (.ok nodes, after)) :
    ∃ template lines, context.disk.readText path = .ok template ∧
      parseLines template.toList = .ok lines ∧
      (elsewhere (context.inFile path) true lines).outcome
        { s with events := .importing path context.filename :: s.events } = (.ok nodes, after) := by
  cases htext : context.disk.readText path with
  | error fault =>
      unfold importFile at h
      rw [htext] at h
      cases fault <;> cases h
  | ok template =>
      cases hparse : parseLines template.toList with
      | ok lines =>
          exact ⟨template, lines, rfl, hparse, (importFile_eq_ok_iff htext hparse line shown).mp h⟩
      | error d =>
          -- what cannot be parsed fails before there are any nodes
          unfold importFile at h
          rw [htext] at h
          obtain ⟨_, _, -, h⟩ := outcome_bind_eq_ok_iff.mp h
          obtain ⟨root, _, h, -⟩ := outcome_bind_eq_ok_iff.mp h
          have hdocument := outcome_restoring_eq_ok_iff.mp (outcome_mapDiagnostic_eq_ok_iff.mp h)
          unfold document at hdocument
          rw [outcome_mapDiagnostic_eq_ok_iff, hparse] at hdocument
          cases hdocument

/-- The ways in which a target of an import comes to nodes: the file at the first path at which it is
found is compiled, or it is not found and referred to, or it is referred to at once. -/
inductive ImportsTarget (elsewhere : Elsewhere) (context : Context) (line : Int)
    (target : List Char) (s : State) : List Node → State → Prop
  | compiled {path template : String} {lines : List Line} {nodes : List Node} {after : State} :
      ¬ ".css".toList <:+ target → context.Finds target path →
      context.disk.readText path = .ok template → parseLines template.toList = .ok lines →
      (elsewhere (context.inFile path) true lines).outcome
        (s.importing (String.ofList target) path context.filename) = (.ok nodes, after) →
      ImportsTarget elsewhere context line target s nodes after
  | passed : ¬ ".css".toList <:+ target → context.Lacks target → ¬ ".sass".toList <:+ target →
      ImportsTarget elsewhere context line target s
        [reference context line (String.ofList (Import.stem target ++ ".css".toList))]
        { s with events := .passedThrough (String.ofList target) :: s.events }
  | referred : ".css".toList <:+ target →
      ImportsTarget elsewhere context line target s
        [reference context line (String.ofList target)] s

theorem importTarget_eq_ok_iff_importsTarget {nodes : List Node} {after : State} :
    (importTarget elsewhere context line target).outcome s = (.ok nodes, after) ↔
      ImportsTarget elsewhere context line target s nodes after := by
  constructor
  · intro h
    by_cases hcss : ".css".toList <:+ target
    · rw [outcome_importTarget_of_css hcss] at h
      cases h
      exact .referred hcss
    · rcases context.finds_or_lacks target with ⟨path, hfinds⟩ | hlacks
      · rw [outcome_importTarget_of_finds hcss hfinds] at h
        obtain ⟨template, lines, htext, hparse, hrun⟩ := importFile_eq_ok h
        exact .compiled hcss hfinds htext hparse hrun
      · rw [outcome_importTarget_of_lacks hcss hlacks] at h
        split at h
        · cases h
        · next hsass =>
            cases h
            exact .passed hcss hlacks hsass
  · intro h
    cases h with
    | compiled hcss hfinds htext hparse hrun =>
        rw [outcome_importTarget_of_finds hcss hfinds]
        exact (importFile_eq_ok_iff htext hparse line _).mpr hrun
    | passed hcss hlacks hsass =>
        rw [outcome_importTarget_of_lacks hcss hlacks, if_neg hsass]
    | referred hcss => exact outcome_importTarget_of_css hcss

/-! ## Lists of targets -/

/-- The targets of an import come to nodes one after the other, each from what the one before left. -/
inductive ImportsTargets (elsewhere : Elsewhere) (context : Context) (line : Int) :
    List (List Char) → State → List Node → State → Prop
  | nil {s : State} : ImportsTargets elsewhere context line [] s [] s
  | cons {target : List Char} {targets : List (List Char)} {s t u : State}
      {nodes more : List Node} : ImportsTarget elsewhere context line target s nodes t →
      ImportsTargets elsewhere context line targets t more u →
      ImportsTargets elsewhere context line (target :: targets) s (nodes ++ more) u

theorem importTargets_eq_ok_iff {targets : List (List Char)} {nodes : List Node} {after : State} :
    (importTargets elsewhere context line targets).outcome s = (.ok nodes, after) ↔
      ImportsTargets elsewhere context line targets s nodes after := by
  induction targets generalizing s nodes with
  | nil =>
      constructor
      · intro h
        cases h
        exact .nil
      · intro h
        cases h
        rfl
  | cons target targets ih =>
      rw [importTargets, outcome_bind_eq_ok_iff]
      constructor
      · rintro ⟨first, t, hfirst, h⟩
        obtain ⟨more, u, hmore, h⟩ := outcome_bind_eq_ok_iff.mp h
        cases h
        exact .cons (importTarget_eq_ok_iff_importsTarget.mp hfirst) (ih.mp hmore)
      · intro h
        cases h with
        | @cons _ _ _ t _ first more hfirst hmore =>
            exact ⟨first, t, importTarget_eq_ok_iff_importsTarget.mpr hfirst,
              outcome_bind_eq_ok_iff.mpr ⟨more, after, ih.mpr hmore, rfl⟩⟩

/-- A target that does not end in `.css` comes to the first path at which it can be read, whatever the
load paths are and whatever can be read; if there is none, it is missing when it ends in `.sass`, and
falls back to a style sheet when not. What it comes to ends in `.css` unless it is a file.

So an import compiles a file for a target if and only if one is found, and refers to a style sheet if
and only if the target ends in `.css` or is a bare name that is not found; no file is opened for a
target that is not found or that ends in `.css`, whatever the disk holds. -/
theorem imports_first_candidate (elsewhere : Elsewhere) (context : Context) (line : Int)
    (target : List Char) :
    (¬ ".css".toList <:+ target → ∀ (isFile : String → Bool) (loadPaths : List String),
      (∀ path, Import.resolve isFile target loadPaths = .file path ↔
        Import.IsFirst isFile (Import.fileOf target) loadPaths path) ∧
      ((∃ path, Import.IsFirst isFile (Import.fileOf target) loadPaths path) ↔
        ∃ loadPath ∈ loadPaths, Import.Readable isFile (Import.fileOf target) loadPath) ∧
      ((∀ loadPath ∈ loadPaths, ¬ Import.Readable isFile (Import.fileOf target) loadPath) →
        Import.resolve isFile target loadPaths =
          if ".sass".toList <:+ target then .missing
          else .fallback (String.ofList (Import.stem target ++ ".css".toList)))) ∧
    (∀ (isFile : String → Bool) (loadPaths : List String) (text : String),
      (Import.resolve isFile target loadPaths).text? = some text →
        (".css".toList <:+ text.toList ↔
          ∀ path, Import.resolve isFile target loadPaths ≠ .file path)) ∧
    (∀ targets s nodes after,
      (importTargets elsewhere context line targets).outcome s = (.ok nodes, after) ↔
        ImportsTargets elsewhere context line targets s nodes after) ∧
    (¬ ".css".toList <:+ target → ∀ s,
      (∀ path, context.Finds target path →
        (importTarget elsewhere context line target).outcome s =
          (importFile elsewhere context line (String.ofList target) path).outcome
            { s with events := .resolved (String.ofList target) path :: s.events }) ∧
      (context.Lacks target → ".sass".toList <:+ target →
        (importTarget elsewhere context line target).outcome s =
          (.error (.refused (Fault.at (.fileNotFound (String.ofList target)) (some line))), s))) ∧
    (".css".toList <:+ target ∨ context.Lacks target →
      ∀ disk : Disk, disk.isFile = context.disk.isFile → ∀ s,
        (importTarget elsewhere { context with disk } line target).outcome s =
          (importTarget elsewhere context line target).outcome s) := by
  refine ⟨fun hcss isFile loadPaths => ⟨fun path => Import.resolve_eq_file_iff hcss,
    Import.exists_isFirst_iff, Import.resolve_of_unreadable hcss⟩,
    fun isFile loadPaths text => Import.css_suffix_iff,
    fun targets s nodes after => importTargets_eq_ok_iff, ?target, ?unopened⟩
  case target =>
    refine fun hcss s => ⟨fun path hfinds => outcome_importTarget_of_finds hcss hfinds, ?_⟩
    intro hlacks hsass
    rw [outcome_importTarget_of_lacks hcss hlacks, if_pos hsass]
  case unopened =>
    intro h disk hdisk s
    by_cases hcss : ".css".toList <:+ target
    · rw [outcome_importTarget_of_css hcss, outcome_importTarget_of_css hcss]
      rfl
    · have hlacks := h.resolve_left hcss
      have hlacks' : Context.Lacks { context with disk } target := by
        unfold Context.Lacks
        rw [hdisk]
        exact hlacks
      rw [outcome_importTarget_of_lacks hcss hlacks, outcome_importTarget_of_lacks hcss hlacks']
      rfl

/-- A target in a folder with `.css` inside its name: it is found on the second load path with an
underscore before its last name, and without a file there it is referred to under its own name with
another `.css` at the end. -/
theorem imports_first_candidate_of_folder :
    Import.resolve (fun path => path == "b/lib/_x.css.y.sass") "lib/x.css.y".toList ["a", "b"] =
        .file "b/lib/_x.css.y.sass" ∧
      Import.resolve (fun _ => false) "lib/x.css.y".toList ["a", "b"] =
        .fallback "lib/x.css.y.css" := by
  have hcss : ¬ ".css".toList <:+ "lib/x.css.y".toList := by decide
  have hsass : ¬ ".sass".toList <:+ "lib/x.css.y".toList := by decide
  have hb : Import.partialPath (Import.fileOf "lib/x.css.y".toList) "b" = "b/lib/_x.css.y.sass" :=
    rfl
  obtain ⟨hresolve, -⟩ :=
    imports_first_candidate (fun _ _ _ => pure []) ⟨{}, .ofKnown [], []⟩ 1 "lib/x.css.y".toList
  refine ⟨?found, ?lacking⟩
  case found =>
    obtain ⟨hfile, -⟩ := hresolve hcss (fun path => path == "b/lib/_x.css.y.sass") ["a", "b"]
    have ha : ¬ Import.Readable (fun path => path == "b/lib/_x.css.y.sass")
        (Import.fileOf "lib/x.css.y".toList) "a" := by
      have hhidden : Import.partialPath (Import.fileOf "lib/x.css.y".toList) "a" =
          "a/lib/_x.css.y.sass" := rfl
      have hplain : Import.plainPath (Import.fileOf "lib/x.css.y".toList) "a" =
          "a/lib/x.css.y.sass" := rfl
      rw [Import.Readable, hhidden, hplain]
      simp
    rw [hfile, ← hb]
    exact .later ha (.hidden (by rw [hb]; rfl))
  case lacking =>
    obtain ⟨-, -, hfallback⟩ := hresolve hcss (fun _ => false) ["a", "b"]
    rw [hfallback (by simp [Import.Readable]), if_neg hsass]
    rfl

end Stylesheet
