import Mathlib
import Stylesheet.Proofs.Assembly.Provenance
import Stylesheet.Proofs.Expr.OneLine
import Stylesheet.Proofs.Line.Attributes
import Stylesheet.Proofs.Line.Consistency

/-!
# Texts of nodes on one line

A line of a template has no end of line in it, and the functions that take it apart only leave out
characters. So the selectors, names, values and texts of nodes have no end of line either; values of
expressions have none because constants have none, which is an invariant of the assembly. The lines
beneath a comment are lines of their own.

* `oneLine_of_attributeParts?`, `sublist_of_constantParts?`, `subset_of_mem_targets` : the parts of
  lines.
* `Sources.gives_unbroken` : what lines give to nodes, and to constants.
* `unbroken_of_assembleTemplate` : the nodes of a tree.
-/

namespace Stylesheet

/-! ## Parts of lines -/

theorem oneLine_ofList {cs : List Char} (h : OneLine cs) : OneLine (String.ofList cs).toList := by
  rwa [String.toList_ofList]

/-- The name and the value of an attribute are parts of the line. -/
theorem oneLine_of_attributeParts? {way : AttributeSyntax} {cs : List Char} {parts : AttributeParts}
    (hcs : OneLine cs) (h : attributeParts? way cs = some parts) :
    OneLine parts.name ∧ OneLine parts.value := by
  cases way with
  | normal =>
      cases (normalAttribute?_eq_some_iff hcs.1).mp h with
      | @computed name rest after run named equals gap =>
          have hrest : rest ⊆ ':' :: (name ++ rest) := by simp
          exact ⟨hcs.subset (by simp),
            hcs.subset (List.Subset.trans (suffix_of_equals equals).subset hrest)⟩
      | @plain name rest run named unmarked gap =>
          have hrest : rest ⊆ ':' :: (name ++ rest) := by simp
          exact ⟨hcs.subset (by simp),
            hcs.subset (List.Subset.trans (trimStart_suffix rest).subset hrest)⟩
  | alternate =>
      cases (alternateAttribute?_eq_some_iff hcs.1).mp h with
      | @plain name after run named gap =>
          have hafter : after ⊆ name ++ ':' :: after := by simp
          exact ⟨hcs.subset (by simp),
            hcs.subset (List.Subset.trans (trimStart_suffix after).subset hafter)⟩
      | @computed name rest after run named equals gap =>
          have hrest : rest ⊆ name ++ rest := by simp
          exact ⟨hcs.subset (by simp),
            hcs.subset (List.Subset.trans (suffix_of_equals equals).subset hrest)⟩

theorem sublist_of_cons {c : Char} {after cs : List Char} (h : (c :: after).Sublist cs) :
    after.Sublist cs :=
  (List.sublist_cons_self c after).trans h

/-- A constant's value is cut from its line without a character added. -/
theorem sublist_of_constantValue? {cs value : List Char} (h : constantValue? cs = some value) :
    value.Sublist cs := by
  unfold constantValue? at h
  split at h
  · obtain ⟨c, hc, rfl⟩ := Option.map_eq_some_iff.mp h
    exact List.singleton_sublist.mpr (List.mem_reverse.mp (List.mem_of_find?_eq_some hc))
  · cases h
    exact (List.takeWhile_sublist _).trans (Text.trimStart_sublist cs)

theorem sublist_of_constantParts? {cs : List Char} {parts : ConstantParts}
    (h : constantParts? cs = some parts) : parts.value.Sublist cs := by
  unfold constantParts? at h
  split at h
  · next rest =>
      have hsublist : (Text.trimStart (rest.dropWhile Text.isWord)).Sublist ('!' :: rest) :=
        ((Text.trimStart_sublist _).trans (List.dropWhile_sublist _)).cons _
      dsimp only at h
      split at h
      · cases h
      · split at h
        · -- a default: two bars before the equals sign
          next after hafter =>
            rw [hafter] at hsublist
            obtain ⟨value, hvalue, rfl⟩ := Option.map_eq_some_iff.mp h
            have hafter := sublist_of_cons (sublist_of_cons (sublist_of_cons hsublist))
            exact (sublist_of_constantValue? hvalue).trans hafter
        · next after hafter =>
            rw [hafter] at hsublist
            obtain ⟨value, hvalue, rfl⟩ := Option.map_eq_some_iff.mp h
            exact (sublist_of_constantValue? hvalue).trans (sublist_of_cons hsublist)
        · cases h
  · cases h

theorem sublist_of_directiveParts {cs name value : List Char}
    (h : directiveParts cs = (name, some value)) : value.Sublist cs := by
  unfold directiveParts at h
  obtain ⟨-, h⟩ := Prod.mk.inj h
  split at h
  · cases h
  · cases h
    refine (Text.trimStart_sublist _).trans ((List.dropWhile_sublist _).trans ?_)
    exact (Text.trimStart_sublist _).trans (List.drop_sublist 1 cs)

/-- Cutting a text adds no characters. -/
theorem Text.subset_of_mem_pieces {separator : Char} {cs piece : List Char}
    (h : piece ∈ pieces separator cs) : piece ⊆ cs := by
  induction cs generalizing piece with
  | nil =>
      rw [List.mem_singleton.mp h]
      exact List.Subset.refl _
  | cons c cs ih =>
      obtain ⟨first, rest, hpieces⟩ := List.exists_cons_of_ne_nil (pieces_ne_nil separator cs)
      rw [pieces, hpieces] at h
      rw [hpieces] at ih
      split at h
      · rcases List.mem_cons.mp h with rfl | h
        · exact List.nil_subset _
        · exact List.subset_cons_of_subset _ (ih h)
      · rcases List.mem_cons.mp h with rfl | h
        · exact List.cons_subset_cons _ (ih List.mem_cons_self)
        · exact List.subset_cons_of_subset _ (ih (List.mem_cons_of_mem _ h))

/-- A target has only characters of the list it stands in. -/
theorem subset_of_mem_targets {value target : List Char} (h : target ∈ Import.targets value) :
    target ⊆ value := by
  have hpiece : ∀ {piece : List Char}, piece ∈ Text.pieces ',' (Text.trim value) → piece ⊆ value :=
    fun h => List.Subset.trans (Text.subset_of_mem_pieces h) (Text.trim_sublist value).subset
  unfold Import.targets at h
  split at h
  · cases h
  · next first rest hpieces =>
      rw [hpieces] at hpiece
      rcases List.mem_cons.mp h with rfl | h
      · exact hpiece List.mem_cons_self
      · obtain ⟨piece, hmem, rfl⟩ := List.mem_map.mp h
        have hsubset := hpiece (List.mem_cons_of_mem _ hmem)
        exact List.Subset.trans (Text.trimStart_sublist piece).subset hsubset

/-- What is referred to is called by the target. -/
theorem oneLine_of_resolve {isFile : String → Bool} {target : List Char} {loadPaths : List String}
    {name : String} (htarget : OneLine target)
    (h : Import.resolve isFile target loadPaths = .fallback name ∨
      Import.resolve isFile target loadPaths = .reference name) : OneLine name.toList := by
  have hending : OneLine (target ++ ".css".toList) := oneLine_append htarget (by decide)
  unfold Import.resolve at h
  split at h
  · rcases h with h | h <;> split at h <;> cases h
  · split at h
    · rcases h with h | h <;> cases h
      exact oneLine_ofList htarget
    · rcases h with h | h <;> split at h <;> cases h
      exact oneLine_ofList hending

/-- No selector cut from one line holds a line break. -/
theorem oneLine_of_mem_ofText {cs : List Char} (hcs : OneLine cs) {text : String}
    (h : text ∈ (SelectorList.ofText cs).rules) : OneLine text.toList := by
  unfold SelectorList.ofText at h
  split at h
  · have htrimmed := (Text.trimEnd_sublist cs.dropLast).trans (List.dropLast_sublist cs)
    rw [List.mem_singleton.mp h]
    exact oneLine_ofList (hcs.subset htrimmed.subset)
  · rw [List.mem_singleton.mp h]
    exact oneLine_ofList hcs

/-! ## Lines and nodes -/

/-- The texts of a node have no end of line, and neither have the lines beneath a comment. -/
def Content.Unbroken : Content → Prop
  | .root => True
  | .rule selectors => ∀ text ∈ selectors.rules, Stylesheet.OneLine text.toList
  | .attr name value => Stylesheet.OneLine name.toList ∧ Stylesheet.OneLine value.toList
  | .comment text _ lines => Stylesheet.OneLine text.toList ∧
      ∀ line : Line, line.Within lines → Stylesheet.OneLine line.text.toList
  | .directive text => Stylesheet.OneLine text.toList

/-- No physical line holds a line break. -/
theorem oneLine_of_mem_physicalLines {cs raw : List Char} (h : raw ∈ physicalLines cs) :
    OneLine raw := by
  have hcut := cutInto_physicalLines cs
  generalize physicalLines cs = lines at h hcut
  induction hcut with
  | last hraw =>
      rw [List.mem_singleton.mp h]
      exact hraw
  | line ending hraw _ _ ih =>
      rcases List.mem_cons.mp h with rfl | h
      · exact hraw
      · exact ih h

/-- A line that stands in a text is one of its physical lines, without the blanks around it. -/
theorem Line.StandsIn.oneLine {line : Line} {text : String} (h : line.StandsIn text) :
    OneLine line.text.toList := by
  obtain ⟨⟨raw, number⟩, hkept, -, htext⟩ := h.kept
  obtain ⟨⟨i, -, hraw⟩, -⟩ := mem_keptLines_iff.mp hkept
  rw [htext, String.toList_ofList]
  have hphysical := oneLine_of_mem_physicalLines (List.mem_of_getElem? hraw)
  exact hphysical.subset (Text.trim_sublist raw).subset

namespace Sources

variable {src : Sources} {filename : Option String} {line : Line}

/-- A line that a run may read is one line, if no mixin is defined before the run. -/
theorem Allows.oneLine (hmixins : src.mixins.entries = []) (h : src.Allows filename line) :
    OneLine line.text.toList := by
  obtain ⟨_, _, -, hstands⟩ := h.exists_standsIn hmixins
  exact hstands.oneLine

/-- **What lines give to nodes.** Where no mixins are there from the start, nodes and constants have
texts without an end of line. -/
theorem gives_unbroken (hmixins : src.mixins.entries = []) :
    src.GivesOver (fun text => OneLine text.toList) fun _ _ content => content.Unbroken where
  told := by
    intro filename line content hallows htells
    have hline : OneLine line.text.toList := hallows.oneLine hmixins
    obtain ⟨htells, hcomputed⟩ := htells
    cases htells with
    | rule hshape => exact fun text htext => oneLine_of_mem_ofText hline htext
    | escapedRule hshape =>
        have hdrop : OneLine (line.text.toList.drop 1) := hline.subset (List.drop_subset 1 _)
        exact fun text htext => oneLine_of_mem_ofText hdrop htext
    | other hwrites hrule =>
        cases hwrites with
        | rule hshape hmore => exact absurd rfl (hrule _)
        | escapedRule hshape hmore => exact absurd rfl (hrule _)
        | attr hshape hparts =>
            obtain ⟨hname, hvalue⟩ := oneLine_of_attributeParts? hline hparts
            exact ⟨oneLine_ofList hname, oneLine_ofList hvalue⟩
        | @computed way name value _ _ hshape hparts _ =>
            obtain ⟨constants, css, hconstants, hcss, hcontent⟩ := hcomputed hshape hparts
            obtain ⟨hname, hvalue⟩ := oneLine_of_attributeParts? hline hparts
            rw [hcontent]
            -- the value is computed over constants that the invariant covers
            exact ⟨oneLine_ofList hname,
              Expr.oneLine_cssOf hconstants (oneLine_ofList hvalue) hcss⟩
        | comment hshape =>
            exact ⟨hline, fun inner hinner => (hallows.beneath hinner).oneLine hmixins⟩
        | directive hshape hparts himport => exact hline
        | @reference value target name himports htarget hresolve =>
            obtain ⟨-, _, hparts, -⟩ := himports
            have hvalue : OneLine value := hline.subset (sublist_of_directiveParts hparts).subset
            have hname := oneLine_of_resolve (hvalue.subset (subset_of_mem_targets htarget)) hresolve
            show OneLine ("@import url(" ++ name ++ ")").toList
            rw [String.toList_append, String.toList_append]
            exact oneLine_append (oneLine_append (by decide) hname) (by decide)
  joined := by
    intro _ _ _ _ selectors more hselectors _ hmore text htext
    rcases List.mem_append.mp htext with htext | htext
    · exact hselectors text htext
    · exact hmore text htext
  kept := by
    intro filename line parts constants css hallows hparts hconstants hcss
    have hvalue : OneLine parts.value :=
      (hallows.oneLine hmixins).subset (sublist_of_constantParts? hparts).subset
    exact Expr.oneLine_cssOf hconstants (oneLine_ofList hvalue) hcss

end Sources

/-- Each of the standard constants is one line. -/
theorem Constants.oneLine_standard : Constants.standard.All fun text => OneLine text.toList := by
  intro name text htext
  cases List.mem_singleton.mp (Table.mem_entries_of_get? htext)
  decide

/-- **The texts of nodes** in an assembled tree have no end of line. -/
theorem unbroken_of_assembleTemplate {options : Options} {disk : Disk} {template : String}
    {after : State} {limit : Nat} {tree : Node}
    (h : assembleTemplate options disk template {} limit = (.ok tree, after)) :
    ∀ node ∈ Node.walkAll tree.children, node.content.Unbroken :=
  Trait.on_of_assembleTemplate_over (Sources.gives_unbroken rfl) Constants.oneLine_standard h

end Stylesheet
