import Mathlib
import Stylesheet.Proofs.Assembly.Recursion
import Stylesheet.Proofs.Line.Parsing

/-!
# Assemblies without imports end

A line that includes a mixin jumps to a body that stands in a table, so no assembly gets smaller by
it. But the names of the mixins that are being included are all different, and all of them are
defined; and beneath the root the table does not grow, because a line that defines something there
is refused. So inclusions are never nested deeper than there are mixins, and a limit above this
number is never reached.

Imported files start without these names, and change the tables wherever they are imported. The
lines and the mixins that an assembly starts from must not import.

* `Siblings.Awaits.nodup`, `Siblings.Awaits.contains` : the names of the mixins that are included.
* `advance_inner_state` : beneath the root no line changes the state.
* `Siblings.Awaits.bounded` : what is known wherever an assembly has got to.
* `assemble_importFree_ends` : the assembly of any lines without imports.
-/

namespace Stylesheet

open Assembly

/-! ## Names in tables -/

namespace Table

variable {α : Type}

theorem contains_iff_mem_names {t : Table α} {name : String} :
    t.contains name = true ↔ name ∈ t.names := by
  simp [contains, get?, names, Option.isSome_map, List.find?_isSome]

/-- Different names that are all defined are no more than the table has. -/
theorem length_le_size {t : Table α} {names : List String} (hnodup : names.Nodup)
    (hdefined : ∀ name ∈ names, t.contains name = true) : names.length ≤ t.size := by
  have hsub : names ⊆ t.names := fun name hname => contains_iff_mem_names.mp (hdefined name hname)
  have hlength := (List.subperm_of_subset hnodup hsub).length_le
  simpa [Table.names, Table.size] using hlength

/-- Setting a name makes a table longer by one entry at most. -/
theorem size_set_le (t : Table α) (name : String) (value : α) :
    (t.set name value).size ≤ t.size + 1 := by
  obtain ⟨entries⟩ := t
  simp only [set, size]
  induction entries with
  | nil => simp [setEntries]
  | cons entry rest ih =>
      rw [setEntries]
      split
      · simp
      · simp only [List.length_cons]
        omega

theorem mem_set {t : Table α} {name : String} {value : α} {entry : String × α}
    (h : entry ∈ (t.set name value).entries) : entry = (name, value) ∨ entry ∈ t.entries := by
  obtain ⟨entries⟩ := t
  simp only [set] at h
  induction entries with
  | nil => exact .inl (by simpa [setEntries] using h)
  | cons first rest ih =>
      rw [setEntries] at h
      split at h
      · rcases List.mem_cons.mp h with rfl | h
        · exact .inl rfl
        · exact .inr (List.mem_cons_of_mem _ h)
      · rcases List.mem_cons.mp h with rfl | h
        · exact .inr List.mem_cons_self
        · rcases ih h with heq | hmem
          · exact .inl heq
          · exact .inr (List.mem_cons_of_mem _ hmem)

theorem mem_of_get? {t : Table α} {name : String} {value : α} (h : t.get? name = some value) :
    ∃ entry ∈ t.entries, entry.2 = value := by
  unfold get? at h
  obtain ⟨entry, hfind, rfl⟩ := Option.map_eq_some_iff.mp h
  exact ⟨entry, List.mem_of_find?_eq_some hfind, rfl⟩

end Table

/-! ## The mixins that are included -/

namespace Siblings

variable {b b' : Siblings} {names more : List String} {line : Line} {s t : State}

/-- The state is one between the lines of the siblings, before the first or after the last. -/
def Passes (b : Siblings) (s : State) : Prop :=
  ∃ pre post nodes left, b.lines = pre ++ post ∧
    (advance (assemble b.limit) b.context b.root none pre).outcome b.start = (.ok (nodes, left), s)

/-- The state before a line that is reached is one that its siblings pass through. -/
theorem Reaches.passes (h : b.Reaches line s) : b.Passes s := by
  obtain ⟨pre, post, nodes, left, hlines, hpre⟩ := h
  exact ⟨pre, line :: post, nodes, left, hlines, hpre⟩

/-- A stable property that holds where siblings start holds wherever they pass. -/
theorem Passes.keeps (h : b.Passes s) {P : State → Prop} (hP : State.Stable P)
    (hstart : P b.start) : P s := by
  obtain ⟨pre, -, nodes, left, -, hpre⟩ := h
  exact advance_keeps hP (assemble_keeps hP b.limit) b.root pre none _ _ _ hstart hpre

/-- Siblings that are opened have the mixins entered on the way on top of their stack. -/
theorem Opens.including_eq (h : b.Opens more b') :
    b'.context.including = more ++ b.context.including := by
  cases h with
  | nested _ _ _ => rfl
  | inclusion _ _ _ _ _ => rfl

/-- Each mixin entered takes one off the limit. -/
theorem Opens.limit_add (h : b.Opens more b') : b'.limit + more.length = b.limit := by
  cases h with
  | nested _ _ _ => rfl
  | inclusion _ _ _ _ hlimit => exact hlimit.symm

theorem Awaits.including_eq (h : b.Awaits names b') :
    b'.context.including = names ++ b.context.including := by
  induction h with
  | self => rfl
  | opened _ hopens ih => rw [hopens.including_eq, ih, List.append_assoc]

/-- Every mixin that is entered takes one level of nesting. -/
theorem Awaits.limit_add (h : b.Awaits names b') : b'.limit + names.length = b.limit := by
  induction h with
  | self => rfl
  | opened _ hopens ih =>
      have hstep := hopens.limit_add
      rw [List.length_append]
      omega

/-- No mixin is entered twice. -/
theorem Awaits.nodup (h : b.Awaits names b') (hstart : b.context.including = []) :
    names.Nodup := by
  induction h with
  | self => exact List.nodup_nil
  | opened hawaits hopens ih =>
      have hincluding := hawaits.including_eq
      rw [hstart, List.append_nil] at hincluding
      cases hopens with
      | nested _ _ _ => exact ih
      | inclusion _ _ _ hnew _ =>
          rw [hincluding] at hnew
          exact List.nodup_cons.mpr ⟨hnew, ih⟩

/-- The mixins that are entered are defined. -/
theorem Awaits.contains (h : b.Awaits names b') :
    ∀ name ∈ names, b'.start.mixins.contains name = true := by
  induction h with
  | self => simp
  | opened _ hopens ih => exact hopens.contains ih

/-- A mixin that is waited for is defined in every state passed meanwhile. -/
theorem Awaits.contains_of_passes (h : b.Awaits names b') (hs : b'.Passes s) :
    ∀ name ∈ names, s.mixins.contains name = true :=
  fun name hname => hs.keeps (stable_contains name) (h.contains name hname)

end Siblings

/-! ## Lines that do not import -/

/-- No line imports anything, however deep it is nested. -/
def ImportFree (lines : List Line) : Prop :=
  ∀ line : Line, line.Within lines → ¬ ∃ value, line.ImportsTargets value

def State.ImportFree (s : State) : Prop :=
  ∀ entry ∈ s.mixins.entries, Stylesheet.ImportFree entry.2

namespace ImportFree

variable {line : Line} {lines : List Line}

theorem not_imports (h : ImportFree lines) (hline : line ∈ lines) :
    ¬ ∃ value, line.ImportsTargets value :=
  h line (.here hline)

theorem children (h : ImportFree lines) (hline : line ∈ lines) : ImportFree line.children :=
  fun inner hinner => h inner (.beneath hline hinner)

theorem of_cons {rest : List Line} (h : ImportFree (line :: rest)) : ImportFree rest :=
  fun inner hinner => h inner (hinner.mono fun _ hmem => List.mem_cons_of_mem _ hmem)

theorem of_append_left {rest : List Line} (h : ImportFree (lines ++ rest)) : ImportFree lines :=
  fun inner hinner => h inner (hinner.mono fun _ hmem => List.mem_append_left _ hmem)

theorem head (h : ImportFree (line :: lines)) : ImportFree [line] :=
  of_append_left (show ImportFree ([line] ++ lines) from h)

/-- Lines that are no directives import nothing. -/
theorem of_flattenAll (h : (Line.flattenAll lines).all
    (fun line => Shape.of line.text.toList ≠ .directive) = true) : ImportFree lines := by
  rintro line hline ⟨value, hshape, -⟩
  have hflat := List.all_eq_true.mp h _ hline.mem_flattenAll
  simp [hshape] at hflat

end ImportFree

/-- Bodies of mixins that are assembled elsewhere leave the state as it is. -/
def Elsewhere.Still (elsewhere : Elsewhere) : Prop :=
  ∀ context lines s nodes t, ImportFree lines → s.ImportFree →
    (elsewhere context false lines).outcome s = (.ok nodes, t) → t = s

/-- What a line that does not import has done to the state: nothing, or it has defined a constant or
a mixin with the body. -/
inductive Changes {α : Type} (body : List Line) (s : State) : Meaning α → State → Prop
  | none {found : Meaning α} : Changes body s found s
  | constant (constants : Constants) : Changes body s .constant { s with constants }
  | mixin (name : String) : Changes body s .mixin { s with mixins := s.mixins.set name body }

variable {elsewhere : Elsewhere} {context : Context} {s t : State}

/-- A constant's definition changes the constants only. -/
theorem defineConstant_changes {text : List Char} {line : Int}
    (h : (defineConstant text line).outcome s = (.ok (), t)) :
    ∃ constants, t = { s with constants } := by
  unfold defineConstant at h
  split at h
  · cases h
  · next name conditional value _ =>
      obtain ⟨css, u, hcss, h⟩ := outcome_bind_eq_ok_iff.mp h
      rw [outcome_evaluate] at hcss
      obtain ⟨-, rfl⟩ := Prod.mk.inj hcss
      cases h
      exact ⟨_, rfl⟩

/-- A mixin's definition changes the mixins only, by the one body it is given. -/
theorem defineMixin_changes {text : List Char} {body : List Line} {line : Int}
    (h : (defineMixin text body line).outcome s = (.ok (), t)) :
    ∃ name, t = { s with mixins := s.mixins.set name body } := by
  dsimp only [defineMixin] at h
  split at h
  · cases h
  · cases h
    exact ⟨_, rfl⟩

/-- An inclusion leaves the state as it was when no body in reach imports. -/
theorem includeMixin_state (he : elsewhere.Still) (hs : s.ImportFree) {line : Line}
    {nodes : List Node}
    (h : (includeMixin elsewhere context line.text.toList line.index).outcome s =
      (.ok nodes, t)) : t = s := by
  obtain ⟨body, hbody, hnodes⟩ := includeMixin_eq_ok line h
  obtain ⟨entry, hentry, rfl⟩ := Table.mem_of_get? hbody
  exact he _ _ _ _ _ (hs entry hentry) hs hnodes

/-- A line that imports nothing changes the state by its own definition at most. -/
theorem meaning_changes (he : elsewhere.Still) {line : Line}
    (hline : ¬ ∃ value, line.ImportsTargets value) (hs : s.ImportFree) {found : Meaning Content}
    (h : (meaning elsewhere context line).outcome s = (.ok found, t)) :
    Changes line.children s found t := by
  by_cases hinclusion : Shape.of line.text.toList = .mixinInclusion
  · rw [meaning_of_inclusion hinclusion] at h
    obtain ⟨nodes, u, hnodes, hpure⟩ := outcome_bind_eq_ok_iff.mp h
    cases hpure
    rw [includeMixin_state he hs hnodes]
    exact .none
  · -- a constant or a mixin changes its own table, and nothing else changes one
    dsimp only [meaning] at h
    cases hshape : Shape.of line.text.toList with
    | attr way =>
        rw [hshape] at h
        obtain ⟨content, u, hcontent, hpure⟩ := outcome_bind_eq_ok_iff.mp h
        cases hpure
        obtain rfl : t = s :=
          attribute?_keeps (P := (· = s)) way _ line.index s content t rfl hcontent
        exact .none
    | constant =>
        rw [hshape] at h
        obtain ⟨_, u, hdefine, hpure⟩ := outcome_bind_eq_ok_iff.mp h
        cases hpure
        obtain ⟨constants, rfl⟩ := defineConstant_changes hdefine
        exact .constant constants
    | directive =>
        rw [hshape] at h
        obtain ⟨name, value, hparts⟩ :
            ∃ name value, directiveParts line.text.toList = (name, value) := ⟨_, _, rfl⟩
        dsimp only at h
        rw [hparts] at h
        dsimp only at h
        split at h
        · next himport =>
            cases value with
            | none => cases h
            | some value => exact absurd ⟨value, hshape, name, hparts, himport⟩ hline
        · cases h
          exact .none
    | mixinDefinition =>
        rw [hshape] at h
        obtain ⟨_, u, hdefine, hpure⟩ := outcome_bind_eq_ok_iff.mp h
        cases hpure
        obtain ⟨name, rfl⟩ := defineMixin_changes hdefine
        exact .mixin name
    | mixinInclusion => exact absurd hshape hinclusion
    | _ =>
        rw [hshape] at h
        cases h
        exact .none

theorem refuseNested_state {nested : Option Int} {found : Meaning Content}
    (h : (refuseNested nested found).outcome s = (.ok (), t)) : t = s :=
  (refuseNested_quiet nested found).state_eq h

mutual

/-- A line that becomes nodes leaves the state as it is. -/
theorem build_changes (he : elsewhere.Still) : ∀ {line : Line} {s t : State}
    {found : Meaning Node}, ImportFree [line] → s.ImportFree →
    (build elsewhere context line).outcome s = (.ok found, t) →
    Changes line.children s found t
  | ⟨text, depth, index, children⟩, s, t, found, hline, hs, h => by
    rw [build_eq] at h
    obtain ⟨meant, u, hmeaning, hrest⟩ := outcome_bind_eq_ok_iff.mp h
    obtain ⟨_, v, hnested, hlast⟩ := outcome_bind_eq_ok_iff.mp hrest
    clear h hrest
    obtain rfl := refuseNested_state hnested
    have hchanges := meaning_changes he (hline.not_imports List.mem_cons_self) hs hmeaning
    cases meant with
    | item content =>
        cases hchanges
        obtain ⟨nodes, w, hbeneath, hpure⟩ := outcome_bind_eq_ok_iff.mp hlast
        cases hpure
        -- lines beneath a node are not at the root, so they leave the state alone
        have hstate : t = s := by
          cases content with
          | comment text visible lines =>
              cases hbeneath
              rfl
          | _ =>
              exact advance_inner_state he (hline.children List.mem_cons_self) hs
                (arrange_eq_ok_iff.mp hbeneath)
        rw [hstate]
        exact .none
    | constant =>
        cases hlast
        cases hchanges with
        | none => exact .none
        | constant constants => exact .constant constants
    | mixin =>
        cases hlast
        cases hchanges with
        | none => exact .none
        | mixin name => exact .mixin name
    | silent =>
        cases hlast
        cases hchanges
        exact .none
    | nodes origin nodes =>
        cases hlast
        cases hchanges
        exact .none

/-- Beneath the root a line that changes the state is refused. -/
theorem advance_inner_state (he : elsewhere.Still) : ∀ {lines : List Line} {s t : State}
    {opened : Option OpenRule} {result : List Node × Option OpenRule}, ImportFree lines →
    s.ImportFree → (advance elsewhere context false opened lines).outcome s = (.ok result, t) →
    t = s
  | [], s, t, opened, result, _, _, h => by
    cases h
    rfl
  | line :: lines, s, t, opened, result, hlines, hs, h => by
    obtain ⟨found, u, nodes, left, v, more, hbuild, hcontinue, hmore, -⟩ :=
      advance_cons_eq_ok_iff.mp h
    obtain rfl := (continueRule_quiet _ _ _ _).state_eq hcontinue
    have hline : ImportFree [line] := hlines.head
    have hstate : v = s := by
      cases build_changes he hline hs hbuild with
      | none => rfl
      | constant constants => cases opened <;> cases hcontinue
      | mixin name => cases opened <;> cases hcontinue
    rw [hstate] at hmore
    exact advance_inner_state he hlines.of_cons hs hmore

end

/-- Below the root, lines without imports define nothing, at whatever limit. -/
theorem assemble_still (limit : Nat) : (assemble limit).Still := by
  induction limit with
  | zero =>
      intro context lines s nodes t _ _ h
      cases h
  | succ limit ih =>
      intro context lines s nodes t hlines hs h
      exact advance_inner_state ih hlines hs (arrange_eq_ok_iff.mp h)

/-- At the root every line defines one mixin at most, and its body does not import. -/
theorem advance_root_state (he : elsewhere.Still) {lines : List Line} {opened : Option OpenRule}
    {result : List Node × Option OpenRule} (hlines : ImportFree lines) (hs : s.ImportFree)
    (h : (advance elsewhere context true opened lines).outcome s = (.ok result, t)) :
    t.ImportFree ∧ t.mixins.size ≤ s.mixins.size + lines.length := by
  induction lines generalizing opened result s with
  | nil =>
      cases h
      exact ⟨hs, Nat.le_refl _⟩
  | cons line lines ih =>
      obtain ⟨found, u, nodes, left, v, more, hbuild, hcontinue, hmore, -⟩ :=
        advance_cons_eq_ok_iff.mp h
      obtain rfl := (continueRule_quiet _ _ _ _).state_eq hcontinue
      have hline : ImportFree [line] := hlines.head
      have hstep : v.ImportFree ∧ v.mixins.size ≤ s.mixins.size + 1 := by
        cases build_changes he hline hs hbuild with
        | none => exact ⟨hs, Nat.le_succ _⟩
        | constant constants => exact ⟨hs, Nat.le_succ _⟩
        | mixin name =>
            refine ⟨fun entry hentry => ?_, Table.size_set_le _ _ _⟩
            rcases Table.mem_set hentry with rfl | hentry
            · exact hlines.children List.mem_cons_self
            · exact hs entry hentry
      obtain ⟨hfree, hsize⟩ := ih hlines.of_cons hstep.1 hmore
      refine ⟨hfree, ?_⟩
      rw [List.length_cons]
      omega

/-! ## Wherever an assembly has got to -/

namespace Siblings

variable {b b' : Siblings} {names more : List String} {line : Line}

/-- Neither the siblings nor the mixins import, and there are no more mixins than the bound. -/
structure Bounded (bound : Nat) (b : Siblings) : Prop where
  lines : ImportFree b.lines
  start : b.start.ImportFree
  passes : ∀ s, b.Passes s → s.ImportFree ∧ s.mixins.size ≤ bound

/-- Siblings below the root that import nothing keep the state that they start with. -/
theorem Passes.state_eq (hs : b.Passes s) (hroot : b.root = false) (hlines : ImportFree b.lines)
    (hstart : b.start.ImportFree) : s = b.start := by
  obtain ⟨pre, post, nodes, left, heq, hpre⟩ := hs
  rw [hroot] at hpre
  rw [heq] at hlines
  exact advance_inner_state (assemble_still b.limit) hlines.of_append_left hstart hpre

/-- Beneath the root there are the mixins that there were before. -/
theorem Bounded.of_inner {bound : Nat} (hroot : b.root = false) (hlines : ImportFree b.lines)
    (hstart : b.start.ImportFree) (hsize : b.start.mixins.size ≤ bound) : b.Bounded bound where
  lines := hlines
  start := hstart
  passes s hs := by
    rw [hs.state_eq hroot hlines hstart]
    exact ⟨hstart, hsize⟩

/-- Siblings without imports know of no more mixins than there were and one for each line. -/
theorem Bounded.of_importFree (hlines : ImportFree b.lines) (hstart : b.start.ImportFree) :
    b.Bounded (b.start.mixins.size + b.lines.length) := by
  cases hroot : b.root with
  | false => exact .of_inner hroot hlines hstart (Nat.le_add_right _ _)
  | true =>
      refine ⟨hlines, hstart, ?_⟩
      rintro s ⟨pre, post, nodes, left, heq, hpre⟩
      rw [hroot] at hpre
      have hfree := hlines
      rw [heq] at hfree
      obtain ⟨hs, hsize⟩ :=
        advance_root_state (assemble_still b.limit) hfree.of_append_left hstart hpre
      refine ⟨hs, ?_⟩
      rw [heq, List.length_append]
      omega

/-- Siblings that are opened import as little as those that wait for them. -/
theorem Bounded.opened {bound : Nat} (h : b.Bounded bound) (hopens : b.Opens more b') :
    b'.Bounded bound := by
  cases hopens with
  | @nested line s t content hreaches hmeaning _ =>
      obtain ⟨hs, hsize⟩ := h.passes s hreaches.passes
      have hmem : line ∈ b.lines := by
        obtain ⟨pre, post, nodes, left, heq, -⟩ := hreaches
        rw [heq]
        simp
      have hchanges := meaning_changes (assemble_still b.limit) (h.lines.not_imports hmem) hs hmeaning
      cases hchanges
      exact .of_inner rfl (h.lines.children hmem) hs hsize
  | @inclusion line s body limit hreaches _ hbody _ _ =>
      obtain ⟨hs, hsize⟩ := h.passes s hreaches.passes
      obtain ⟨entry, hentry, rfl⟩ := Table.mem_of_get? hbody
      exact .of_inner rfl (hs entry hentry) hs hsize

theorem Awaits.bounded {bound : Nat} (h : b.Awaits names b') (hstart : b.Bounded bound) :
    b'.Bounded bound := by
  induction h with
  | self => exact hstart
  | opened _ hopens ih => exact ih.opened hopens

/-- Where a limit is reached there are more mixins than the limit allows levels. -/
theorem Awaits.limit_lt_of_exhausted {bound : Nat} (h : b.Awaits names b')
    (hincluding : b.context.including = []) (hstart : b.Bounded bound) (hexhausted : b'.Exhausted) :
    b.limit < bound := by
  obtain ⟨hlimit, line, s, hreaches, -, hdefined, hnew⟩ := hexhausted
  have hentered := h.including_eq
  rw [hincluding, List.append_nil] at hentered
  rw [hentered] at hnew
  have hnodup : (line.mixinName :: names).Nodup :=
    List.nodup_cons.mpr ⟨hnew, h.nodup hincluding⟩
  have hcontains : ∀ name ∈ line.mixinName :: names, s.mixins.contains name = true := by
    intro name hname
    rcases List.mem_cons.mp hname with rfl | hname
    · exact hdefined
    · exact h.contains_of_passes hreaches.passes name hname
  have hlength := Table.length_le_size hnodup hcontains
  have hsize := ((h.bounded hstart).passes s hreaches.passes).2
  have hadd := h.limit_add
  rw [List.length_cons] at hlength
  omega

/-- Siblings without imports never reach a limit that is as high as the bound. -/
theorem not_fails_nestingLimit {bound : Nat} (hincluding : b.context.including = [])
    (hstart : b.Bounded bound) (hle : bound ≤ b.limit) : ¬ b.Fails .nestingLimit := by
  intro hfails
  rcases b.fails_inside hfails with ⟨fault, line, heq⟩ | ⟨names, b', hawaits, hbreaks⟩
  · cases heq
  · have hbounded := hawaits.bounded hstart
    generalize hfailure : Failure.nestingLimit = failure at hbreaks
    cases hbreaks with
    | exhausted hexhausted =>
        have hlt := hawaits.limit_lt_of_exhausted hincluding hstart hexhausted
        omega
    | escapes hescapes =>
        rw [← hfailure] at hescapes
        cases hescapes
    | @imports line r inner himports _ =>
        obtain ⟨⟨pre, post, nodes, left, heq, -⟩, himport, -⟩ := himports
        have hmem : line ∈ b'.lines := by
          rw [heq]
          simp
        exact hbounded.lines.not_imports hmem ⟨_, himport⟩

end Siblings

/-! ## Any limit that is high enough -/

namespace Likeness

/-- The comparison of a run with one that may be nested more deeply. -/
def deeper : Likeness where
  number := Eq
  filename := Eq
  gone := fun _ => False
  excused := (· = .nestingLimit)
  number_refl := fun _ => rfl
  filename_refl := fun _ => rfl
  silent_of_gone := fun _ => False.elim
  excused_through := fun _ _ h => nomatch h
  strict := .inr ⟨fun _ => id, fun _ _ => id⟩

/-- A run that does not end at its limit has the same result under every deeper one. -/
theorem deeper_results {r r' : Except Failure (List Node) × State}
    (h : deeper.Results deeper.Nodes r r') (hlimit : r.1 ≠ .error .nestingLimit) :
    r'.1 = r.1 ∧ r'.2.tables = r.2.tables := by
  have hnumber : ∀ {n n'}, deeper.number n n' → n = n' := id
  have hgone : ∀ line, ¬ deeper.gone line := fun _ => id
  have htables : ∀ {t t'}, deeper.States t t' → t'.tables = t.tables :=
    fun ht => Prod.ext ht.constants.symm (ht.mixins.eq hnumber hgone).symm
  cases h with
  | ok hn ht =>
      refine ⟨?_, htables ht⟩
      dsimp only
      rw [hn.eq hnumber hgone id]
  | error hf ht =>
      refine ⟨?_, htables ht⟩
      dsimp only
      rw [hf.eq hnumber]
  | excused hexcused =>
      cases hexcused
      exact absurd rfl hlimit

end Likeness

open Likeness

/-- More room for nesting changes nothing where there was enough. -/
theorem outcome_assemble_of_le {limit limit' : Nat} (hle : limit ≤ limit') {root : Bool}
    {lines : List Line}
    (hlimit : ((assemble limit context root lines).outcome s).1 ≠ .error .nestingLimit) :
    ((assemble limit' context root lines).outcome s).1 =
        ((assemble limit context root lines).outcome s).1 ∧
      ((assemble limit' context root lines).outcome s).2.tables =
        ((assemble limit context root lines).outcome s).2.tables := by
  have helsewheres : deeper.Elsewheres (assemble limit) (assemble limit') :=
    assemble_elsewheres (.inr ⟨rfl, hle⟩)
  exact deeper_results (helsewheres (.refl context) root (.refl lines) s s (.refl s)) hlimit

/-- **Assembly without imports always ends.** From lines, at the root or not, and mixins that do not
import, assembled while no mixin is being included, the same result and the same tables are come to
under every limit on nesting above the number of mixins and lines, and the limit is no part of it:
the result is nodes or a failure other than that the limit is reached. Whatever siblings are being
assembled on the way, the names of the mixins that are being included are all different, all of them
are defined, and so there are no more of them than there are mixins. -/
theorem assemble_importFree_ends {lines : List Line} {start : State} (root : Bool)
    (hincluding : context.including = []) (hlines : ImportFree lines)
    (hstart : start.ImportFree) :
    (∃ result tables, result ≠ .error .nestingLimit ∧
      ∀ limit, start.mixins.size + lines.length < limit → ∃ after,
        (assemble limit context root lines).outcome start = (result, after) ∧
        after.tables = tables) ∧
    ∀ limit names b s, Siblings.Awaits ⟨limit, context, root, lines, start⟩ names b → b.Passes s →
      b.context.including = names ∧ names.Nodup ∧
      (∀ name ∈ names, s.mixins.contains name = true) ∧ names.length ≤ s.mixins.size := by
  constructor
  · let enough := start.mixins.size + lines.length
    let least := (assemble (enough + 1) context root lines).outcome start
    have hlimit : least.1 ≠ .error .nestingLimit := by
      intro hfails
      refine Siblings.not_fails_nestingLimit (b := ⟨enough, context, root, lines, start⟩) hincluding
        (.of_importFree hlines hstart) (Nat.le_refl _) ⟨least.2, ?_⟩
      exact Prod.ext hfails rfl
    refine ⟨least.1, least.2.tables, hlimit, fun limit hlt => ?_⟩
    obtain ⟨hresult, htables⟩ := outcome_assemble_of_le (Nat.succ_le_of_lt hlt) hlimit
    exact ⟨((assemble limit context root lines).outcome start).2, Prod.ext hresult rfl, htables⟩
  · intro limit names b s hawaits hpasses
    have hentered := hawaits.including_eq
    dsimp only at hentered
    rw [hincluding, List.append_nil] at hentered
    have hnodup := hawaits.nodup hincluding
    have hcontains := hawaits.contains_of_passes hpasses
    exact ⟨hentered, hnodup, hcontains, Table.length_le_size hnodup hcontains⟩

/-- Two mixins that include each other. Under every limit above the number of lines the inclusion of
the first one is refused where it comes round to itself. -/
theorem mutual_inclusion_ends :
    let context : Context := { options := {}, disk := Disk.ofKnown [] }
    let lines : List Line := [⟨"=a", 0, 1, [⟨"x", 1, 2, [⟨"+b", 2, 3, []⟩]⟩]⟩,
      ⟨"=b", 0, 4, [⟨"+a", 1, 5, []⟩]⟩, ⟨"+a", 0, 6, []⟩]
    context.including = [] ∧ ImportFree lines ∧ State.ImportFree {} ∧
      ∀ limit, 3 < limit →
        ((assemble limit context true lines).outcome {}).1 =
          .error (.refused ((Fault.mixinRecursion "a").at (some 5))) := by
  intro context lines
  have hlines : ImportFree lines := .of_flattenAll (by dsimp only [lines]; cbv)
  have hstart : State.ImportFree {} := by
    intro entry hentry
    cases hentry
  obtain ⟨⟨result, tables, -, hends⟩, -⟩ :=
    assemble_importFree_ends true (show context.including = [] from rfl) hlines hstart
  -- the result under one limit is the result under all of them
  have hfour : ((assemble 4 context true lines).outcome {}).1 =
      .error (.refused ((Fault.mixinRecursion "a").at (some 5))) := by
    dsimp only [context, lines]
    cbv
  obtain ⟨after, hresult, -⟩ := hends 4 (by decide)
  rw [hresult] at hfour
  refine ⟨rfl, hlines, hstart, fun limit hlt => ?_⟩
  obtain ⟨after', hresult', -⟩ := hends limit hlt
  rw [hresult']
  exact hfour

end Stylesheet
