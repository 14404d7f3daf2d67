import Mathlib
import Stylesheet.Proofs.Assembly.Transparency
import Stylesheet.Proofs.Expr.References
import Stylesheet.Proofs.Line.Continuation

/-!
# Files of defaults

A conditional definition `!name ||= value` gives a constant a value unless it has one already. Its
value is calculated in either case, so a file of such definitions is not simply passed over when it
is imported again. But what the constants in an expression were when it had a value, they are in
every larger table, and there it has the same value. The second time everything can be calculated,
and nothing is left to define.

* `Expr.evaluate_of_prefix` : a value over some constants is the value over more of them.
* `arrange_defaults` : what conditional definitions do, from one state and from all larger ones.
* `defaults_once` : importing a file of them once and once more.
-/

namespace Stylesheet

open Assembly

/-! ## Tables that grow

Conditional definitions put entries behind the ones that there are, which stay as they are. -/

namespace Table

variable {α : Type} {t larger : Table α} {name : String} {value : α}

/-- What is found in a table is found where further entries come behind. -/
theorem get?_of_prefix (h : t.entries <+: larger.entries) (hname : t.get? name = some value) :
    larger.get? name = some value := by
  obtain ⟨more, hmore⟩ := h
  obtain ⟨entry, hfind, rfl⟩ := Option.map_eq_some_iff.mp hname
  rw [get?, ← hmore, List.find?_append, hfind]
  rfl

theorem contains_of_prefix (h : t.entries <+: larger.entries) (hname : t.contains name = true) :
    larger.contains name = true := by
  obtain ⟨value, hvalue⟩ := Option.isSome_iff_exists.mp hname
  exact Option.isSome_iff_exists.mpr ⟨value, get?_of_prefix h hvalue⟩

/-- A name that is not defined yet comes last. -/
theorem entries_set_of_get? (h : t.get? name = none) :
    (t.set name value).entries = t.entries ++ [(name, value)] := by
  obtain ⟨entries⟩ := t
  simp only [set, get?, Option.map_eq_none_iff] at h ⊢
  induction entries with
  | nil => rfl
  | cons entry rest ih =>
      obtain ⟨n, v⟩ := entry
      by_cases hn : n = name
      · simp [hn] at h
      · simp only [List.find?_cons, hn, decide_false] at h
        rw [setEntries, if_neg hn, ih h, List.cons_append]

/-- Setting a name that is there already changes nothing. -/
theorem setIfAbsent_of_contains (h : t.contains name = true) : t.setIfAbsent name value = t := by
  rw [setIfAbsent, if_pos h]

theorem prefix_setIfAbsent (t : Table α) (name : String) (value : α) :
    t.entries <+: (t.setIfAbsent name value).entries := by
  rw [setIfAbsent]
  split
  · exact List.prefix_rfl
  · next hname =>
      have habsent : t.get? name = none := by simpa [contains] using hname
      rw [entries_set_of_get? habsent]
      exact List.prefix_append _ _

theorem contains_setIfAbsent_self (t : Table α) (name : String) (value : α) :
    (t.setIfAbsent name value).contains name = true := by
  rw [setIfAbsent]
  split
  · next hname => exact hname
  · rw [contains, get?_set_self]
    rfl

end Table

/-! ## Expressions over more constants -/

namespace Expr

variable {constants larger : Constants}

/-- An expression that has a value over some constants has it over more of them: every constant in
it is defined, and is the same. -/
theorem evaluate_of_prefix (h : constants.entries <+: larger.entries) {e : Expr} {v : Value}
    (he : e.evaluate constants = .ok v) : e.evaluate larger = .ok v := by
  induction e generalizing v with
  | literal w => exact he
  | constant name =>
      rw [evaluate] at he ⊢
      cases hname : constants.get? name with
      | none =>
          rw [hname] at he
          cases he
      | some text =>
          rw [hname] at he
          rw [Table.get?_of_prefix h hname]
          exact he
  | negate operand ih =>
      obtain ⟨w, hw, hneg⟩ := bind_eq_ok_iff.mp he
      exact bind_eq_ok_iff.mpr ⟨w, ih hw, hneg⟩
  | binary op left right ihleft ihright =>
      obtain ⟨l, hl, he⟩ := bind_eq_ok_iff.mp he
      obtain ⟨r, hr, he⟩ := bind_eq_ok_iff.mp he
      exact bind_eq_ok_iff.mpr ⟨l, ihleft hl, bind_eq_ok_iff.mpr ⟨r, ihright hr, he⟩⟩

/-- An expression that can be evaluated keeps its text when constants are added at the end. -/
theorem cssOf_of_prefix (h : constants.entries <+: larger.entries) {expression css : String}
    (hcss : cssOf constants expression = .ok css) : cssOf larger expression = .ok css := by
  obtain ⟨v, hv, hcss⟩ := bind_eq_ok_iff.mp hcss
  obtain ⟨e, hparse, hv⟩ := bind_eq_ok_iff.mp hv
  exact bind_eq_ok_iff.mpr
    ⟨v, bind_eq_ok_iff.mpr ⟨e, hparse, evaluate_of_prefix h hv⟩, hcss⟩

end Expr

/-! ## Conditional definitions -/

def IsDefault (text : List Char) : Prop :=
  ∃ name value, constantParts? text = some ⟨name, true, value⟩

/-- Every line of the template that counts is a conditional definition and is not indented. -/
def HoldsDefaults (template : List Char) : Prop :=
  ∀ line ∈ keptLines template, indentation line.1 = [] ∧ IsDefault (Text.trim line.1)

/-- A line that has the parts of a constant's definition has its shape. -/
theorem Shape.of_constantParts? {text : List Char} {parts : ConstantParts}
    (h : constantParts? text = some parts) : Shape.of text = .constant := by
  unfold constantParts? at h
  split at h
  · rfl
  · cases h

variable {elsewhere : Elsewhere} {context : Context} {s t : State}

/-- A conditional definition with nothing beneath it has its value calculated. A constant that is
defined keeps what it is. -/
theorem outcome_build_default {line : Line} {name value : List Char}
    (hchildless : line.children = [])
    (hparts : constantParts? line.text.toList = some ⟨name, true, value⟩) {found : Meaning Node} :
    (build elsewhere context line).outcome s = (.ok found, t) ↔
      found = .constant ∧ ∃ css, Expr.cssOf s.constants (String.ofList value) = .ok css ∧
        t = { s with constants := s.constants.setIfAbsent (String.ofList name) css } := by
  obtain ⟨text, depth, index, children⟩ := line
  dsimp only at hchildless hparts
  subst hchildless
  have hdefine : build elsewhere context ⟨text, depth, index, []⟩ = (do
      let css ← Assembly.evaluate value index
      modify fun state => { state with
        constants := state.constants.setIfAbsent (String.ofList name) css }
      pure .constant) := by
    rw [build_eq]
    simp only [meaning, Shape.of_constantParts? hparts, defineConstant, hparts, bind_assoc,
      pure_bind, if_true]
    rfl
  rw [hdefine, outcome_bind, outcome_evaluate]
  cases Expr.cssOf s.constants (String.ofList value) with
  | error refusal => simp
  | ok css =>
      constructor
      · intro h
        cases h
        exact ⟨rfl, css, rfl, rfl⟩
      · rintro ⟨rfl, _, ⟨⟩, rfl⟩
        rfl

/-- At the root a conditional definition leaves the lines after it to themselves. -/
theorem outcome_arrange_default {line : Line} {name value : List Char} {css : String}
    (hchildless : line.children = [])
    (hparts : constantParts? line.text.toList = some ⟨name, true, value⟩)
    (hcss : Expr.cssOf s.constants (String.ofList value) = .ok css) (rest : List Line) :
    (arrange elsewhere context true none (line :: rest)).outcome s =
      (arrange elsewhere context true none rest).outcome
        { s with constants := s.constants.setIfAbsent (String.ofList name) css } := by
  have hbuild : (build elsewhere context line).outcome s = (.ok .constant, _) :=
    (outcome_build_default hchildless hparts).mpr ⟨rfl, css, hcss, rfl⟩
  rw [arrange_cons, outcome_bind_of_ok hbuild]
  -- no selector list is open, so nothing is put in the place of the line
  have hplaced : continueRule true line.index none .constant = pure ([], none) := rfl
  simp only [hplaced, pure_bind, List.nil_append, bind_pure]

/-- Conditional definitions at the root give no nodes and leave the mixins alone. They put new
constants behind the ones that there were; and from any state in which these are defined, with the
same values, they can be gone through again and change nothing. -/
theorem arrange_defaults {lines : List Line} {nodes : List Node}
    (hlines : ∀ line ∈ lines, line.children = [] ∧ IsDefault line.text.toList)
    (h : (arrange elsewhere context true none lines).outcome s = (.ok nodes, t)) :
    nodes = [] ∧ t = { s with constants := t.constants } ∧
      s.constants.entries <+: t.constants.entries ∧
      (∀ line ∈ lines, ∀ parts, constantParts? line.text.toList = some parts →
        t.constants.contains (String.ofList parts.name) = true) ∧
      ∀ u : State, t.constants.entries <+: u.constants.entries →
        (arrange elsewhere context true none lines).outcome u = (.ok [], u) := by
  induction lines generalizing s nodes with
  | nil =>
      rw [arrange, outcome_pure] at h
      cases h
      refine ⟨rfl, rfl, List.prefix_rfl, by simp, fun u _ => ?_⟩
      rw [arrange, outcome_pure]
  | cons line rest ih =>
      obtain ⟨hchildless, name, value, hparts⟩ := hlines line List.mem_cons_self
      obtain ⟨found, middle, first, left, middle', more, hbuild, hplaced, hmore, rfl⟩ :=
        arrange_cons_eq_ok_iff.mp h
      obtain ⟨rfl, css, hcss, rfl⟩ := (outcome_build_default hchildless hparts).mp hbuild
      -- a definition puts nothing in its place and leaves no selector list open
      cases hplaced
      obtain ⟨rfl, hstate, hprefix, hdefined, hagain⟩ :=
        ih (fun l hl => hlines l (List.mem_cons_of_mem _ hl)) hmore
      have hgrown := (Table.prefix_setIfAbsent s.constants (String.ofList name) css).trans hprefix
      have hname : t.constants.contains (String.ofList name) = true :=
        Table.contains_of_prefix hprefix (Table.contains_setIfAbsent_self _ _ _)
      refine ⟨rfl, hstate, hgrown, ?_, fun u hu => ?_⟩
      · rintro l (_ | ⟨_, hl⟩) parts hl'
        · cases hparts.symm.trans hl'
          exact hname
        · exact hdefined l hl parts hl'
      · -- the value is the same as the first time, and this time there is nothing to define
        rw [outcome_arrange_default hchildless hparts
            (Expr.cssOf_of_prefix (hgrown.trans hu) hcss),
          Table.setIfAbsent_of_contains (Table.contains_of_prefix hu hname)]
        exact hagain u hu

/-! ## Files -/

/-- A template that is indented nowhere is parsed to its kept lines. -/
theorem parseLines_of_unindented {template : List Char}
    (h : ∀ line ∈ keptLines template, indentation line.1 = []) :
    parseLines template = .ok ((keptLines template).map fun line => .ofRaw line.1 0 line.2) := by
  have hplain : ∀ line ∈ (keptLines template).map fun line => Line.ofRaw line.1 0 line.2,
      line.children = [] ∧ line.depth = 0 := by
    intro line hline
    obtain ⟨kept, -, rfl⟩ := List.mem_map.mp hline
    exact ⟨rfl, rfl⟩
  refine parseLines_eq_ok_iff.mpr ⟨.of_childless hplain, [' '], ⟨by decide, by decide⟩, ?_⟩
  rw [Line.flattenAll_of_childless fun line hline => (hplain line hline).1]
  refine List.forall₂_map_right_iff.mpr (List.forall₂_same.mpr fun kept hkept => ?_)
  exact (tabulated_of_unindented (by decide) (h kept hkept)).mpr rfl

variable {limit : Nat} {line : Int} {target : List Char} {path : String} {before after : State}
  {nodes : List Node}

/-- **Importing defaults once more changes nothing.** A file holds nothing but conditional
definitions, any number of them, of any names and in terms of any constants. Once it has been
imported, from whatever constants, all its names are defined, behind the constants that there were
before, which keep their values. Importing it again from there comes to no nodes, too, and the
constants stay the same ones in the same order. -/
theorem defaults_once {template : String}
    (hpath : Import.resolve context.disk.isFile target context.options.loadPaths = .file path)
    (htext : context.disk.readText path = .ok template)
    (hdefaults : HoldsDefaults template.toList)
    (hfirst : (importTarget (assemble limit) context line target).outcome before =
      (.ok nodes, after)) :
    (nodes = [] ∧ after.mixins = before.mixins ∧
      before.constants.entries <+: after.constants.entries ∧
      ∀ kept ∈ keptLines template.toList, ∀ parts,
        constantParts? (Text.trim kept.1) = some parts →
        after.constants.contains (String.ofList parts.name) = true) ∧
    ∀ line' target',
      Import.resolve context.disk.isFile target' context.options.loadPaths = .file path →
      ∃ final,
        (importTarget (assemble limit) context line' target').outcome after = (.ok [], final) ∧
        final.constants = after.constants ∧ final.mixins = after.mixins ∧
        ∀ name value, before.constants.get? name = some value →
          after.constants.get? name = some value ∧ final.constants.get? name = some value := by
  have hparse := parseLines_of_unindented fun kept hkept => (hdefaults kept hkept).1
  have hlines : ∀ l ∈ (keptLines template.toList).map fun kept => Line.ofRaw kept.1 0 kept.2,
      l.children = [] ∧ IsDefault l.text.toList := by
    intro l hl
    obtain ⟨kept, hkept, rfl⟩ := List.mem_map.mp hl
    refine ⟨rfl, ?_⟩
    rw [Line.ofRaw, String.toList_ofList]
    exact (hdefaults kept hkept).2
  rw [importTarget_eq_ok_iff hpath htext hparse line] at hfirst
  cases limit with
  | zero => cases hfirst
  | succ limit =>
      obtain ⟨rfl, hstate, hprefix, hdefined, hagain⟩ := arrange_defaults hlines hfirst
      refine ⟨⟨rfl, ?_, hprefix, ?_⟩, fun line' target' hpath' => ?_⟩
      · rw [hstate]
      · intro kept hkept parts hparts
        refine hdefined _ (List.mem_map_of_mem hkept) parts ?_
        rwa [Line.ofRaw, String.toList_ofList]
      · refine ⟨_, (importTarget_eq_ok_iff hpath' htext hparse line').mpr (hagain _ List.prefix_rfl), rfl,
          rfl, fun name value hvalue => ?_⟩
        have hkept := Table.get?_of_prefix hprefix hvalue
        exact ⟨hkept, hkept⟩

/-- The file names `a` twice and in terms of each other `a` and `b`, of which `b` is defined
before. -/
theorem defaults_once_of_mutual_names :
    let template := "!a ||= x\n// n\n!b ||= !a\n!a ||= !b"
    let context : Context := {
      options := {}
      disk := Disk.ofKnown [("./_f.sass", .ok [33, 97, 32, 124, 124, 61, 32, 120, 10, 47, 47, 32,
        110, 10, 33, 98, 32, 124, 124, 61, 32, 33, 97, 10, 33, 97, 32, 124, 124, 61, 32, 33,
        98])] }
    let before : State := { constants := ⟨[("b", "k")]⟩ }
    let after : State := {
      constants := ⟨[("b", "k"), ("a", "x")]⟩
      events := [.importing "./_f.sass" none, .resolved "f" "./_f.sass"] }
    Import.resolve context.disk.isFile ['f'] context.options.loadPaths = .file "./_f.sass" ∧
    context.disk.readText "./_f.sass" = .ok template ∧ HoldsDefaults template.toList ∧
    (importTarget (assemble 1) context 1 ['f']).outcome before = (.ok [], after) ∧
    ∃ final, (importTarget (assemble 1) context 2 ['f']).outcome after = (.ok [], final) ∧
      final.constants = after.constants := by
  intro template context before after
  have hpath : Import.resolve context.disk.isFile ['f'] context.options.loadPaths =
      .file "./_f.sass" := by rfl
  have htext : context.disk.readText "./_f.sass" = .ok template := by cbv
  have hkept : keptLines template.toList =
      [("!a ||= x".toList, 1), ("!b ||= !a".toList, 3), ("!a ||= !b".toList, 4)] := by cbv
  have hfirstText : constantParts? "!a ||= x".toList = some ⟨['a'], true, ['x']⟩ := by cbv
  have hsecondText : constantParts? "!b ||= !a".toList = some ⟨['b'], true, ['!', 'a']⟩ := by cbv
  have hthirdText : constantParts? "!a ||= !b".toList = some ⟨['a'], true, ['!', 'b']⟩ := by cbv
  have hdefaults : HoldsDefaults template.toList := by
    intro line hline
    rw [hkept] at hline
    simp only [List.mem_cons, List.not_mem_nil, or_false] at hline
    obtain rfl | rfl | rfl := hline
    · exact ⟨by decide, _, _, hfirstText⟩
    · exact ⟨by decide, _, _, hsecondText⟩
    · exact ⟨by decide, _, _, hthirdText⟩
  have hfirst : (importTarget (assemble 1) context 1 ['f']).outcome before = (.ok [], after) := by
    have hparse : parseLines template.toList =
        .ok [⟨"!a ||= x", 0, 1, []⟩, ⟨"!b ||= !a", 0, 3, []⟩, ⟨"!a ||= !b", 0, 4, []⟩] := by cbv
    have hreference : ∀ (constants : Constants) (c : Char) (text : String), Text.isWord c = true →
        constants.get? (String.ofList [c]) = some text →
        Expr.cssOf constants (String.ofList ['!', c]) = (Value.ofString text).css :=
      fun constants c text hc hname =>
        Expr.cssOf_of_constant (Expr.parse_reference ⟨by simp, by simpa using hc⟩) hname
    have hx : Expr.cssOf ⟨[("b", "k")]⟩ (String.ofList ['x']) = .ok "x" := by cbv
    have ha : Expr.cssOf ⟨[("b", "k"), ("a", "x")]⟩ (String.ofList ['!', 'a']) = .ok "x" :=
      hreference _ 'a' "x" (by decide) rfl
    have hb : Expr.cssOf ⟨[("b", "k"), ("a", "x")]⟩ (String.ofList ['!', 'b']) = .ok "k" :=
      hreference _ 'b' "k" (by decide) rfl
    refine (importTarget_eq_ok_iff hpath htext hparse 1).mpr ?_
    -- only the first line defines a constant: `b` was there before, and `a` is from then on
    refine Eq.trans (outcome_arrange_default rfl hfirstText hx _) ?_
    refine Eq.trans (outcome_arrange_default rfl hsecondText ha _) ?_
    refine Eq.trans (outcome_arrange_default rfl hthirdText hb _) ?_
    rfl
  obtain ⟨-, hagain⟩ := defaults_once hpath htext hdefaults hfirst
  obtain ⟨final, hfinal, hconstants, -⟩ := hagain 2 ['f'] hpath
  exact ⟨hpath, htext, hdefaults, hfirst, final, hfinal, hconstants⟩

end Stylesheet
