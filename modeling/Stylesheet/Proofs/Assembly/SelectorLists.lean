import Mathlib
import Stylesheet.Proofs.Assembly.Quiet
import Stylesheet.Proofs.Assembly.TwoRuns

/-!
# Selector lists over several lines

A rule whose line ends in a comma is continued by the next rule. So sibling lines fall into groups,
each of which ends with the first line that leaves no list open, and every group of several lines
comes to one rule with the selectors of all of them. This module takes apart what `arrange` does in
one go: the lines are built first, one after the other (`buildAll`), and then grouped.

Siblings that are built are refused for their selector lists in three ways (`Breach`): beneath a
rule with an open list something stands, a line after an open list is no rule, or the last list is
open. The first breach decides.

* `groups_unique` : lines fall into groups in one way only.
* `arrange_tellsFirstBreach` : siblings that are built come to nodes unless there is a breach.
* `arrange_groups` : what siblings come to, group by group, or the first breach.
-/

namespace Stylesheet

open Assembly

/-! ## Built lines -/

/-- A line and what it was built to. -/
structure Built where
  line : Line
  found : Meaning Node

namespace Built

def selectors? (b : Built) : Option SelectorList :=
  match b.found with
  | .item ⟨.rule selectors, _, _, _⟩ => some selectors
  | _ => none

def rules (b : Built) : List String :=
  (b.selectors?.map SelectorList.rules).getD []

/-- Whether a line was built to a rule whose last selector ends in a comma. -/
def isOpen (b : Built) : Bool :=
  b.selectors?.any SelectorList.continued

def nodes (b : Built) : List Node :=
  match b.found with
  | .item node => [node]
  | .nodes _ nodes => nodes
  | _ => []

def children (b : Built) : List Node :=
  match b.found with
  | .item node => node.children
  | _ => []

/-- What a line was built to may stand where it is put, at the root or not. -/
def Fits (root : Bool) (b : Built) : Prop :=
  place root b.line.index b.found = pure b.nodes

end Built

def buildAll (elsewhere : Elsewhere) (context : Context) : List Line → Assembly (List Built)
  | [] => pure []
  | line :: lines => do
    let found ← build elsewhere context line
    pure (⟨line, found⟩ :: (← buildAll elsewhere context lines))

/-! ## Groups -/

/-- Lines that belong together: all but the last one leave their selector list open, and that one
does not. -/
def IsGroup (group : List Built) : Prop :=
  ∃ opening last, group = opening ++ [last] ∧ (∀ b ∈ opening, b.isOpen = true) ∧
    last.isOpen = false

/-- Nothing stands beneath the lines that leave their list open, and a list that was left open goes
on with a rule. -/
def IsJoinable (group : List Built) : Prop :=
  ∀ opening last, group = opening ++ [last] →
    (∀ b ∈ opening, b.children = []) ∧ (opening ≠ [] → last.selectors? ≠ none)

/-- The nodes of a group in a file. A single line gives what it was built to. Several lines give one
rule: it has the selectors of all of them, it stands where the first one does, and what is beneath
the last one is beneath it. -/
def groupNodes (filename : Option String) : List Built → List Node
  | [] => []
  | [b] => b.nodes
  | first :: second :: rest =>
    [⟨.rule ⟨(first :: second :: rest).flatMap Built.rules, false⟩, some first.line.index, filename,
      ((second :: rest).getLast (List.cons_ne_nil _ _)).children⟩]

/-- What the first line of a row of groups is part of does not depend on the row. -/
theorem IsGroup.eq_of_append {group group' rest rest' : List Built} (h : IsGroup group)
    (h' : IsGroup group') (happend : group ++ rest = group' ++ rest') : group = group' := by
  obtain ⟨opening, last, rfl, hopen, hlast⟩ := h
  obtain ⟨opening', last', rfl, hopen', hlast'⟩ := h'
  have hspan : ∀ {opening : List Built} {last : Built} (rest : List Built),
      (∀ b ∈ opening, b.isOpen = true) → last.isOpen = false →
      (opening ++ [last] ++ rest).takeWhile Built.isOpen = opening := by
    intro opening last rest hopen hlast
    rw [List.append_assoc, List.takeWhile_append_of_pos hopen]
    simp [hlast]
  have hopening : opening = opening' := by
    rw [← hspan rest hopen hlast, ← hspan rest' hopen' hlast', happend]
  rw [← hopening, List.append_assoc, List.append_assoc] at happend
  have hrest := List.append_cancel_left happend
  rw [hopening, (List.cons.inj hrest).1]

/-- Lines fall into groups in one way only. -/
theorem groups_unique {groups groups' : List (List Built)} (h : ∀ group ∈ groups, IsGroup group)
    (h' : ∀ group ∈ groups', IsGroup group) (hflatten : groups'.flatten = groups.flatten) :
    groups' = groups := by
  have hne : ∀ {group : List Built}, IsGroup group → group ≠ [] := by
    rintro _ ⟨opening, last, rfl, -, -⟩
    simp
  induction groups generalizing groups' with
  | nil =>
      cases groups' with
      | nil => rfl
      | cons group rest =>
          have hnil := List.append_eq_nil_iff.mp (List.flatten_cons.symm.trans hflatten)
          exact absurd hnil.1 (hne (h' group List.mem_cons_self))
  | cons group groups ih =>
      cases groups' with
      | nil =>
          have hnil := List.append_eq_nil_iff.mp (List.flatten_cons.symm.trans hflatten.symm)
          exact absurd hnil.1 (hne (h group List.mem_cons_self))
      | cons group' groups' =>
          rw [List.flatten_cons, List.flatten_cons] at hflatten
          -- where a group ends is told by its lines alone
          have hgroup : group' = group :=
            (h' group' List.mem_cons_self).eq_of_append (h group List.mem_cons_self) hflatten
          subst hgroup
          rw [ih (fun g hg => h g (List.mem_cons_of_mem _ hg))
            (fun g hg => h' g (List.mem_cons_of_mem _ hg)) (List.append_cancel_left hflatten)]

/-! ## One line after an open list -/

variable {elsewhere : Elsewhere} {context : Context} {root : Bool}

/-- The rule that lines leave open which come one after the other, if there are any. -/
def openRule? (filename : Option String) : List Built → Option OpenRule
  | [] => none
  | first :: rest =>
    some ⟨⟨(first :: rest).flatMap Built.rules, true⟩, some first.line.index, filename⟩

/-- A line is built to an item under its own number and in the file that is assembled. -/
theorem build_item {line : Line} {s t : State} {node : Node}
    (h : (build elsewhere context line).outcome s = (.ok (.item node), t)) :
    node.line = some line.index ∧ node.filename = context.filename := by
  obtain ⟨text, depth, index, children⟩ := line
  rw [build_eq] at h
  obtain ⟨found, u, -, h⟩ := outcome_bind_eq_ok_iff.mp h
  obtain ⟨_, v, -, h⟩ := outcome_bind_eq_ok_iff.mp h
  cases found with
  | item content =>
      obtain ⟨nodes, w, -, h⟩ := outcome_bind_eq_ok_iff.mp h
      cases h
      exact ⟨rfl, rfl⟩
  | _ => cases h

/-- An item of a line that was built stands under the line's number in the file. -/
def Built.IsPlacedIn (filename : Option String) (b : Built) : Prop :=
  ∀ node, b.found = .item node → node.line = some b.line.index ∧ node.filename = filename

theorem Built.isPlacedIn_of_build {b : Built} {s t : State}
    (h : (build elsewhere context b.line).outcome s = (.ok b.found, t)) :
    b.IsPlacedIn context.filename := by
  intro node hnode
  rw [hnode] at h
  exact build_item h

/-- Lines are built one after the other, each in the state the one before left. -/
theorem buildAll_cons_eq_ok_iff {line : Line} {lines : List Line} {s t : State}
    {built : List Built} :
    (buildAll elsewhere context (line :: lines)).outcome s = (.ok built, t) ↔
      ∃ found u rest, (build elsewhere context line).outcome s = (.ok found, u) ∧
        (buildAll elsewhere context lines).outcome u = (.ok rest, t) ∧
        built = ⟨line, found⟩ :: rest := by
  rw [buildAll, outcome_bind_eq_ok_iff]
  constructor
  · rintro ⟨found, u, hfound, h⟩
    obtain ⟨rest, v, hrest, hpure⟩ := outcome_bind_eq_ok_iff.mp h
    cases hpure
    exact ⟨found, u, rest, hfound, hrest, rfl⟩
  · rintro ⟨found, u, rest, hfound, hrest, rfl⟩
    exact ⟨found, u, hfound, outcome_bind_eq_ok_iff.mpr ⟨rest, t, hrest, rfl⟩⟩

/-- A line that is no rule ends no list: an open one is refused, otherwise the line is put in
place. -/
theorem continueRule_of_no_rule (root : Bool) {b : Built} (h : b.selectors? = none)
    (opened : Option OpenRule) :
    continueRule root b.line.index opened b.found =
      Likeness.placeClosed root b.line.index opened b.found := by
  obtain ⟨line, found⟩ := b
  cases found with
  | item node =>
      obtain ⟨content, number, filename, children⟩ := node
      cases content with
      | rule selectors => cases h
      | _ => rfl
  | _ => rfl

/-- A rule whose own list is open is refused if something stands beneath it, and leaves a list open
otherwise. -/
theorem continueRule_of_open (root : Bool) {b : Built} (h : b.isOpen = true)
    (hplaced : b.IsPlacedIn context.filename) (opening : List Built) :
    continueRule root b.line.index (openRule? context.filename opening) b.found =
      if b.children = [] then pure ([], openRule? context.filename (opening ++ [b]))
      else Assembly.refuse .openSelectorList (some b.line.index) := by
  obtain ⟨line, found⟩ := b
  cases found with
  | item node =>
      obtain ⟨hline, hfilename⟩ := hplaced node rfl
      obtain ⟨content, number, filename, children⟩ := node
      obtain rfl : number = some line.index := hline
      obtain rfl : filename = context.filename := hfilename
      cases content with
      | rule selectors =>
          obtain ⟨rules, continued⟩ := selectors
          obtain rfl : continued = true := h
          cases opening with
          | nil =>
              cases children <;> simp [continueRule, OpenRule.join, openRule?, Built.children,
                Built.rules, Built.selectors?]
          | cons first rest =>
              cases children <;> simp [continueRule, OpenRule.join, openRule?, Built.children,
                Built.rules, Built.selectors?, SelectorList.append]
      | _ => cases h
  | _ => cases h

/-- A rule whose own list is closed ends the group of the lines before it that are open. -/
theorem continueRule_of_closed {b : Built} (hrule : b.selectors? ≠ none) (h : b.isOpen = false)
    (opening : List Built) :
    continueRule root b.line.index (openRule? context.filename opening) b.found =
      pure (groupNodes context.filename (opening ++ [b]), none) := by
  obtain ⟨line, found⟩ := b
  cases found with
  | item node =>
      obtain ⟨content, number, filename, children⟩ := node
      cases content with
      | rule selectors =>
          obtain ⟨rules, continued⟩ := selectors
          obtain rfl : continued = false := h
          cases opening with
          | nil => rfl
          | cons first rest =>
              cases rest <;> simp [continueRule, OpenRule.join, openRule?, groupNodes,
                Built.children, Built.rules, Built.selectors?, SelectorList.append]
      | _ => exact absurd rfl hrule
  | _ => exact absurd rfl hrule

/-! ## Siblings that come to nodes -/

/-- What is put in place is what the line was built to. -/
theorem Built.fits_of_place {b : Built} {s t : State} {nodes : List Node}
    (h : (place root b.line.index b.found).outcome s = (.ok nodes, t)) :
    b.Fits root ∧ nodes = b.nodes := by
  obtain ⟨line, found⟩ := b
  have hfits : ∀ {x : Assembly (List Node)}, x.outcome s = (.ok nodes, t) →
      x = pure (Built.mk line found).nodes → nodes = (Built.mk line found).nodes := by
    intro x hx hpure
    rw [hpure] at hx
    cases hx
    rfl
  have hplace : (Built.mk line found).Fits root := by
    unfold Fits
    cases found with
    | item node =>
        dsimp only [place] at h ⊢
        split at h
        · cases h
        · next hinner => rw [if_neg hinner]; rfl
    | nodes origin nodes =>
        dsimp only [place] at h ⊢
        split at h
        · cases h
        · next hinner => rw [if_neg hinner]; rfl
    | silent => rfl
    | constant =>
        cases root with
        | true => rfl
        | false => cases h
    | mixin =>
        cases root with
        | true => rfl
        | false => cases h
  exact ⟨hplace, hfits h hplace⟩

theorem isOpen_eq_false_of_no_rule {b : Built} (h : b.selectors? = none) : b.isOpen = false := by
  unfold Built.isOpen
  rw [h]
  rfl

theorem selectors_ne_none_of_open {b : Built} (h : b.isOpen = true) : b.selectors? ≠ none := by
  intro hnone
  rw [isOpen_eq_false_of_no_rule hnone] at h
  cases h

/-- A group ends with a line that leaves no list open. -/
theorem isGroup_append {opening : List Built} {b : Built}
    (hopening : ∀ b ∈ opening, b.isOpen = true) (hb : b.isOpen = false) :
    IsGroup (opening ++ [b]) :=
  ⟨opening, b, rfl, hopening, hb⟩

/-- The childless rules that open a list are joinable with the rule that closes it. -/
theorem isJoinable_append {opening : List Built} {b : Built}
    (hopening : ∀ b ∈ opening, b.children = []) (hb : opening ≠ [] → b.selectors? ≠ none) :
    IsJoinable (opening ++ [b]) := by
  intro opening' last happend
  obtain ⟨rfl, hlast⟩ := List.append_inj' happend rfl
  cases hlast
  exact ⟨hopening, hb⟩

/-- A line that is joined to open lines closes their group, or leaves the list open with nothing
beneath it. -/
theorem continueRule_eq_ok {b : Built} {opening : List Built} {s t : State} {nodes : List Node}
    {left : Option OpenRule} (hplaced : b.IsPlacedIn context.filename)
    (h : (continueRule root b.line.index (openRule? context.filename opening) b.found).outcome s =
      (.ok (nodes, left), t)) :
    (b.isOpen = false ∧ (opening ≠ [] → b.selectors? ≠ none) ∧
      nodes = groupNodes context.filename (opening ++ [b]) ∧ left = none) ∨
    (b.isOpen = true ∧ b.children = [] ∧ nodes = [] ∧
      left = openRule? context.filename (opening ++ [b])) := by
  cases hselectors : b.selectors? with
  | none =>
      rw [continueRule_of_no_rule root hselectors] at h
      cases opening with
      | cons first rest => cases h
      | nil =>
          obtain ⟨placed, w, hplace, hpure⟩ := outcome_bind_eq_ok_iff.mp h
          cases hpure
          exact .inl ⟨isOpen_eq_false_of_no_rule hselectors, absurd rfl,
            (Built.fits_of_place hplace).2, rfl⟩
  | some selectors =>
      cases hopen : b.isOpen with
      | false =>
          rw [continueRule_of_closed (by simp [hselectors]) hopen] at h
          cases h
          exact .inl ⟨rfl, fun _ => by simp, rfl, rfl⟩
      | true =>
          rw [continueRule_of_open root hopen hplaced] at h
          split at h
          · next hchildren =>
              cases h
              exact .inr ⟨rfl, hchildren, rfl, rfl⟩
          · cases h

/-- Siblings that come to nodes after lines that are open: each line is built, and the groups into
which they fall together with the open lines give the nodes. -/
theorem groups_of_arrange (opening : List Built) {lines : List Line} {s t : State}
    {nodes : List Node} (hopening : ∀ b ∈ opening, b.isOpen = true ∧ b.children = [])
    (h : (arrange elsewhere context root (openRule? context.filename opening) lines).outcome s =
      (.ok nodes, t)) :
    ∃ (built : List Built) (groups : List (List Built)),
      (buildAll elsewhere context lines).outcome s = (.ok built, t) ∧
      groups.flatten = opening ++ built ∧ (∀ group ∈ groups, IsGroup group ∧ IsJoinable group) ∧
      nodes = groups.flatMap (groupNodes context.filename) := by
  induction lines generalizing opening s nodes with
  | nil =>
      cases opening with
      | cons first rest =>
          rw [openRule?, arrange] at h
          cases h
      | nil =>
          rw [openRule?, arrange] at h
          cases h
          exact ⟨[], [], rfl, rfl, by simp, rfl⟩
  | cons line lines ih =>
      obtain ⟨found, u, first, left, v, more, hbuild, hcontinue, hmore, rfl⟩ :=
        arrange_cons_eq_ok_iff.mp h
      obtain rfl := (continueRule_quiet _ _ _ _).state_eq hcontinue
      obtain ⟨b, rfl, rfl⟩ : ∃ b : Built, b.line = line ∧ b.found = found :=
        ⟨⟨line, found⟩, rfl, rfl⟩
      rcases continueRule_eq_ok (Built.isPlacedIn_of_build hbuild) hcontinue with
        ⟨hclosed, hrule, rfl, rfl⟩ | ⟨hopen, hchildren, rfl, rfl⟩
      · -- the line closes the group of the open lines, and a new row of groups begins
        obtain ⟨built, groups, hbuilt, hflatten, hgroups, rfl⟩ := ih [] (by simp) hmore
        refine ⟨b :: built, (opening ++ [b]) :: groups,
          buildAll_cons_eq_ok_iff.mpr ⟨_, _, built, hbuild, hbuilt, rfl⟩, ?_, ?_, ?_⟩
        · rw [List.flatten_cons, hflatten]
          simp
        · intro group hgroup
          rcases List.mem_cons.mp hgroup with rfl | hgroup
          · exact ⟨isGroup_append (fun b hb => (hopening b hb).1) hclosed,
              isJoinable_append (fun b hb => (hopening b hb).2) hrule⟩
          · exact hgroups group hgroup
        · rw [List.flatMap_cons]
      · -- the line belongs to the open ones
        have hopening' : ∀ b' ∈ opening ++ [b], b'.isOpen = true ∧ b'.children = [] := by
          intro b' hb'
          rcases List.mem_append.mp hb' with hb' | hb'
          · exact hopening b' hb'
          · rw [List.mem_singleton.mp hb']
            exact ⟨hopen, hchildren⟩
        obtain ⟨built, groups, hbuilt, hflatten, hgroups, rfl⟩ :=
          ih (opening ++ [b]) hopening' hmore
        refine ⟨b :: built, groups, buildAll_cons_eq_ok_iff.mpr ⟨_, _, built, hbuild, hbuilt, rfl⟩,
          ?_, hgroups, rfl⟩
        rw [hflatten, List.append_assoc]
        rfl

/-! ## Breaches -/

/-- The first of the lines before a place that leave a list open there, if one is open. -/
def openedBefore? (built : List Built) (i : Nat) : Option Built :=
  ((built.take i).rtakeWhile Built.isOpen).head?

/-- What is wrong with the selector lists of built lines at a place, and the number of the line at
which it is told. -/
inductive Breach (built : List Built) : Nat → Int → Prop
  /-- Something stands beneath a rule whose list is open. -/
  | nested {i : Nat} {b : Built} : built[i]? = some b → b.isOpen = true → b.children ≠ [] →
      Breach built i b.line.index
  /-- A list is open, and the line that should continue it is no rule. -/
  | interrupted {i : Nat} {b first : Built} : built[i]? = some b → b.selectors? = none →
      openedBefore? built i = some first → Breach built i first.line.index
  /-- A list is open at the end. -/
  | unfinished {first : Built} : openedBefore? built built.length = some first →
      Breach built built.length first.line.index

/-- A breach before which there is none. -/
def FirstBreach (built : List Built) (i : Nat) (line : Int) : Prop :=
  Breach built i line ∧ ∀ j < i, ∀ other, ¬ Breach built j other

/-- What can be wrong at the place of a line. -/
theorem breach_at_line_iff (before : List Built) {rest : List Built} {b : Built} {line : Int} :
    Breach (before ++ b :: rest) before.length line ↔
      b.isOpen = true ∧ b.children ≠ [] ∧ line = b.line.index ∨
      b.selectors? = none ∧ ∃ first, (before.rtakeWhile Built.isOpen).head? = some first ∧
        line = first.line.index := by
  have hget : (before ++ b :: rest)[before.length]? = some b := by simp
  have hopened : openedBefore? (before ++ b :: rest) before.length =
      (before.rtakeWhile Built.isOpen).head? := by
    rw [openedBefore?, List.take_left]
  constructor
  · intro h
    generalize hi : before.length = i at h
    rw [hi] at hget hopened
    cases h with
    | nested hb hopen hchildren =>
        cases hget.symm.trans hb
        exact .inl ⟨hopen, hchildren, rfl⟩
    | interrupted hb hrule hfirst =>
        cases hget.symm.trans hb
        exact .inr ⟨hrule, _, hopened.symm.trans hfirst, rfl⟩
    | unfinished hfirst => simp at hi
  · rintro (⟨hopen, hchildren, rfl⟩ | ⟨hrule, first, hfirst, rfl⟩)
    · exact .nested hget hopen hchildren
    · exact .interrupted hget hrule (hopened.trans hfirst)

/-- What can be wrong at the end. -/
theorem breach_at_end_iff {built : List Built} {i : Nat} {line : Int} (hi : built.length ≤ i) :
    Breach built i line ↔ i = built.length ∧
      ∃ first, (built.rtakeWhile Built.isOpen).head? = some first ∧ line = first.line.index := by
  have hopened : openedBefore? built built.length = (built.rtakeWhile Built.isOpen).head? := by
    rw [openedBefore?, List.take_length]
  have hget : built[i]? = none := List.getElem?_eq_none hi
  constructor
  · intro h
    cases h with
    | nested hb _ _ => cases hget.symm.trans hb
    | interrupted hb _ _ => cases hget.symm.trans hb
    | unfinished hfirst => exact ⟨rfl, _, hopened.symm.trans hfirst, rfl⟩
  · rintro ⟨rfl, first, hfirst, rfl⟩
    exact .unfinished (hopened.trans hfirst)

/-- The first breach is told at one line. -/
theorem FirstBreach.line_eq {built : List Built} {i i' : Nat} {line line' : Int}
    (h : FirstBreach built i line) (h' : FirstBreach built i' line') : line = line' := by
  -- of two first places neither comes before the other
  obtain rfl : i = i' := by
    rcases Nat.lt_trichotomy i i' with hlt | rfl | hlt
    · exact absurd h.1 (h'.2 i hlt line)
    · rfl
    · exact absurd h'.1 (h.2 i' hlt line')
  rcases Nat.lt_or_ge i built.length with hi | hi
  · obtain ⟨before, b, rest, rfl, rfl⟩ : ∃ before b rest, built = before ++ b :: rest ∧
        i = before.length :=
      ⟨built.take i, built[i], built.drop (i + 1), by simp, by simp [Nat.min_eq_left hi.le]⟩
    rcases (breach_at_line_iff _).mp h.1 with ⟨hopen, -, rfl⟩ | ⟨hrule, first, hfirst, rfl⟩
    · rcases (breach_at_line_iff _).mp h'.1 with ⟨-, -, rfl⟩ | ⟨hrule', -⟩
      · rfl
      · exact absurd hrule' (selectors_ne_none_of_open hopen)
    · rcases (breach_at_line_iff _).mp h'.1 with ⟨hopen', -⟩ | ⟨-, first', hfirst', rfl⟩
      · exact absurd hrule (selectors_ne_none_of_open hopen')
      · cases hfirst.symm.trans hfirst'
        rfl
  · obtain ⟨-, first, hfirst, rfl⟩ := (breach_at_end_iff hi).mp h.1
    obtain ⟨-, first', hfirst', rfl⟩ := (breach_at_end_iff hi).mp h'.1
    cases hfirst.symm.trans hfirst'
    rfl

/-! ## Siblings that are built -/

/-- Building keeps the lines, one for one. -/
theorem map_line_of_buildAll {lines : List Line} {s t : State} {built : List Built}
    (h : (buildAll elsewhere context lines).outcome s = (.ok built, t)) :
    built.map Built.line = lines := by
  induction lines generalizing s built with
  | nil =>
      cases h
      rfl
  | cons line lines ih =>
      obtain ⟨found, u, rest, -, hrest, rfl⟩ := buildAll_cons_eq_ok_iff.mp h
      rw [List.map_cons, ih hrest]

/-- An assembly comes to nodes if there is no breach in built lines, and otherwise it tells of the
first one. -/
def TellsFirstBreach (x : Assembly (List Node)) (built : List Built) (s t : State) : Prop :=
  (∃ nodes, x.outcome s = (.ok nodes, t) ∧ ∀ i line, ¬ Breach built i line) ∨
    ∃ i line u, x.outcome s = (.error (.refused (Fault.openSelectorList.at (some line))), u) ∧
      FirstBreach built i line

/-- A line that is built and joined without a breach leaves it to the lines after it. -/
theorem TellsFirstBreach.cons {opened left : Option OpenRule} {line : Line} {lines : List Line}
    {built : List Built} {s t u : State} {found : Meaning Node} {nodes : List Node}
    (hbuild : (build elsewhere context line).outcome s = (.ok found, u))
    (hcontinue : continueRule root line.index opened found = pure (nodes, left))
    (h : TellsFirstBreach (arrange elsewhere context root left lines) built u t) :
    TellsFirstBreach (arrange elsewhere context root opened (line :: lines)) built s t := by
  have hcons : (arrange elsewhere context root opened (line :: lines)).outcome s =
      ((do pure (nodes ++ (← arrange elsewhere context root left lines))) :
        Assembly (List Node)).outcome u := by
    rw [arrange_cons, outcome_bind_of_ok hbuild, hcontinue, pure_bind]
  unfold TellsFirstBreach
  rw [hcons]
  rcases h with ⟨more, hmore, hno⟩ | ⟨i, number, v, herror, hfirst⟩
  · exact .inl ⟨nodes ++ more, outcome_bind_eq_ok_iff.mpr ⟨more, t, hmore, rfl⟩, hno⟩
  · exact .inr ⟨i, number, v, outcome_bind_pure_eq_error_iff.mpr herror, hfirst⟩

/-- A line that is built, and refused where the first breach is. -/
theorem TellsFirstBreach.refuse {opened : Option OpenRule} {line : Line} {lines : List Line}
    {built : List Built} {s t u : State} {found : Meaning Node} {i : Nat} {number : Int}
    (hbuild : (build elsewhere context line).outcome s = (.ok found, u))
    (hcontinue : continueRule root line.index opened found =
      Assembly.refuse .openSelectorList (some number))
    (h : FirstBreach built i number) :
    TellsFirstBreach (arrange elsewhere context root opened (line :: lines)) built s t := by
  refine .inr ⟨i, number, u, ?_, h⟩
  rw [arrange_cons, outcome_bind_of_ok hbuild, hcontinue]
  rfl

/-- A line that may stand where it is put is joined to the open lines before it without a breach, or
it is refused where its breach is told. -/
theorem continueRule_or_breach (before : List Built) {b : Built} (rest : List Built)
    (hplaced : b.IsPlacedIn context.filename) (hfits : b.Fits root) :
    (∃ nodes, continueRule root b.line.index
        (openRule? context.filename (before.rtakeWhile Built.isOpen)) b.found =
          pure (nodes, openRule? context.filename ((before ++ [b]).rtakeWhile Built.isOpen)) ∧
        ∀ number, ¬ Breach (before ++ b :: rest) before.length number) ∨
    ∃ number, continueRule root b.line.index
        (openRule? context.filename (before.rtakeWhile Built.isOpen)) b.found =
          Assembly.refuse .openSelectorList (some number) ∧
        Breach (before ++ b :: rest) before.length number := by
  simp only [breach_at_line_iff]
  cases hselectors : b.selectors? with
  | none =>
      have hclosed := isOpen_eq_false_of_no_rule hselectors
      rw [continueRule_of_no_rule root hselectors,
        List.rtakeWhile_concat_neg _ _ _ (by simp [hclosed])]
      cases hopening : before.rtakeWhile Built.isOpen with
      | nil =>
          refine .inl ⟨b.nodes, ?_, by simp [hclosed]⟩
          rw [openRule?, Likeness.placeClosed, hfits, pure_bind]
      | cons first others =>
          exact .inr ⟨first.line.index, rfl, .inr ⟨rfl, first, rfl, rfl⟩⟩
  | some selectors =>
      cases hopen : b.isOpen with
      | false =>
          rw [continueRule_of_closed (by simp [hselectors]) hopen,
            List.rtakeWhile_concat_neg _ _ _ (by simp [hopen])]
          exact .inl ⟨_, rfl, by simp⟩
      | true =>
          rw [continueRule_of_open root hopen hplaced, List.rtakeWhile_concat_pos _ _ _ hopen]
          by_cases hchildren : b.children = []
          · rw [if_pos hchildren]
            exact .inl ⟨[], rfl, by simp [hchildren]⟩
          · rw [if_neg hchildren]
            exact .inr ⟨b.line.index, rfl, .inl ⟨rfl, hchildren, rfl⟩⟩

/-- Siblings that are built, of which those before are so far without a breach: the first breach
is told, or the siblings come to nodes. The induction is on the lines, and the open lines are the
last ones of those before. -/
theorem arrange_tellsFirstBreach {lines : List Line} (before : List Built) {built : List Built}
    {s t : State}
    (hbuilt : (buildAll elsewhere context lines).outcome s = (.ok built, t))
    (hfits : ∀ b ∈ built, b.Fits root)
    (hbefore : ∀ j < before.length, ∀ line, ¬ Breach (before ++ built) j line) :
    TellsFirstBreach (arrange elsewhere context root
      (openRule? context.filename (before.rtakeWhile Built.isOpen)) lines)
      (before ++ built) s t := by
  induction lines generalizing before built s with
  | nil =>
      cases hbuilt
      rw [List.append_nil] at hbefore ⊢
      -- a list that is open at the end is a breach behind the last line
      cases hopening : before.rtakeWhile Built.isOpen with
      | nil =>
          refine .inl ⟨[], by rw [openRule?, arrange]; rfl, fun i line hbreach => ?_⟩
          rcases Nat.lt_or_ge i before.length with hi | hi
          · exact hbefore i hi line hbreach
          · obtain ⟨-, first, hfirst, -⟩ := (breach_at_end_iff hi).mp hbreach
            rw [hopening] at hfirst
            cases hfirst
      | cons first rest =>
          refine .inr ⟨before.length, first.line.index, t, by rw [openRule?, arrange]; rfl, ?_,
            hbefore⟩
          exact (breach_at_end_iff (Nat.le_refl _)).mpr ⟨rfl, first, by rw [hopening]; rfl, rfl⟩
  | cons line lines ih =>
      obtain ⟨found, u, rest, hbuild, hrest, rfl⟩ := buildAll_cons_eq_ok_iff.mp hbuilt
      obtain ⟨b, rfl, rfl⟩ : ∃ b : Built, b.line = line ∧ b.found = found :=
        ⟨⟨line, found⟩, rfl, rfl⟩
      have heta : Built.mk b.line b.found = b := rfl
      rw [heta] at hfits hbefore ⊢
      rcases continueRule_or_breach before rest (Built.isPlacedIn_of_build hbuild)
          (hfits b List.mem_cons_self) with
        ⟨nodes, hcontinue, hnone⟩ | ⟨number, hcontinue, hbreach⟩
      · -- what is left is decided with the line among those before
        have hmove : before ++ b :: rest = before ++ [b] ++ rest := by simp
        refine .cons hbuild hcontinue ?_
        rw [hmove]
        refine ih (before ++ [b]) hrest (fun b' hb' => hfits b' (List.mem_cons_of_mem _ hb'))
          fun j hj line => ?_
        rw [← hmove]
        rcases Nat.lt_succ_iff_lt_or_eq.mp (by simpa using hj) with hlt | rfl
        · exact hbefore j hlt line
        · exact hnone line
      · exact .refuse hbuild hcontinue ⟨hbreach, hbefore⟩

/-- **Selector lists over several lines.** Siblings come to nodes only if each of their lines is
built, and then the lines fall into groups in one way only, and each group gives its nodes: a single
line what it was built to, several lines one rule. Siblings that are built and may stand where they
are put are refused for an open selector list exactly if there is a breach, and the first breach
says at which line; otherwise they come to nodes. -/
theorem arrange_groups (elsewhere : Elsewhere) (context : Context) (root : Bool)
    (lines : List Line) (state : State) :
    (∀ nodes after, (arrange elsewhere context root none lines).outcome state = (.ok nodes, after) →
      ∃ (built : List Built) (groups : List (List Built)),
        (buildAll elsewhere context lines).outcome state = (.ok built, after) ∧
        built.map Built.line = lines ∧ groups.flatten = built ∧
        (∀ group ∈ groups, IsGroup group ∧ IsJoinable group) ∧
        (∀ groups' : List (List Built), groups'.flatten = built →
          (∀ group ∈ groups', IsGroup group) → groups' = groups) ∧
        nodes = groups.flatMap (groupNodes context.filename)) ∧
    ∀ built after, (buildAll elsewhere context lines).outcome state = (.ok built, after) →
      (∀ b ∈ built, b.Fits root) →
      (∀ line, (∃ u, (arrange elsewhere context root none lines).outcome state =
          (.error (.refused (Fault.openSelectorList.at (some line))), u)) ↔
        ∃ i, FirstBreach built i line) ∧
      ((∃ nodes, (arrange elsewhere context root none lines).outcome state = (.ok nodes, after)) ↔
        ∀ i line, ¬ Breach built i line) := by
  refine ⟨fun nodes after h => ?_, fun built after hbuilt hfits => ?_⟩
  · obtain ⟨built, groups, hbuilt, hflatten, hgroups, hnodes⟩ :=
      groups_of_arrange [] (by simp) h
    refine ⟨built, groups, hbuilt, map_line_of_buildAll hbuilt, hflatten, hgroups,
      fun groups' hflatten' hgroups' => ?_, hnodes⟩
    exact groups_unique (fun group hgroup => (hgroups group hgroup).1) hgroups'
      (hflatten'.trans hflatten.symm)
  · rcases arrange_tellsFirstBreach [] hbuilt hfits (by simp) with
      ⟨nodes, hnodes, hno⟩ | ⟨i, line, u, herror, hfirst⟩
    · refine ⟨fun line => ⟨fun h => ?_, fun h => ?_⟩, fun _ => hno, fun _ => ⟨nodes, hnodes⟩⟩
      · obtain ⟨u, hu⟩ := h
        cases hnodes.symm.trans hu
      · obtain ⟨i, hi, -⟩ := h
        exact absurd hi (hno i line)
    · refine ⟨fun line' => ⟨fun h => ?_, fun h => ?_⟩, fun h => ?_, fun h => ?_⟩
      · obtain ⟨u', hu⟩ := h
        cases herror.symm.trans hu
        exact ⟨i, hfirst⟩
      · obtain ⟨i', hfirst'⟩ := h
        rw [hfirst'.line_eq hfirst]
        exact ⟨u, herror⟩
      · obtain ⟨nodes, hnodes⟩ := h
        cases herror.symm.trans hnodes
      · exact absurd hfirst.1 (h i line)

/-- A list over two lines before a rule of its own, and a list that an attribute interrupts. -/
theorem arrange_groups_of_list_and_interruption :
    let context : Context := { options := {}, disk := Disk.ofKnown [] }
    let lines : List Line := [⟨"a,", 0, 1, []⟩, ⟨"b", 0, 2, [⟨":c d", 1, 3, []⟩]⟩, ⟨"e", 0, 4, []⟩]
    let nodes : List Node := [⟨.rule ⟨["a", "b"], false⟩, some 1, none,
      [⟨.attr "c" "d", some 3, none, []⟩]⟩, ⟨.rule ⟨["e"], false⟩, some 4, none, []⟩]
    let interrupted : List Line := [⟨"a,", 0, 1, []⟩, ⟨":c d", 0, 2, []⟩]
    let built : List Built :=
      [⟨⟨"a,", 0, 1, []⟩, .item ⟨.rule ⟨["a"], true⟩, some 1, none, []⟩⟩,
        ⟨⟨":c d", 0, 2, []⟩, .item ⟨.attr "c" "d", some 2, none, []⟩⟩]
    (arrange (assemble 0) context true none lines).outcome {} = (.ok nodes, {}) ∧
      (∃ (found : List Built) (groups : List (List Built)),
        (buildAll (assemble 0) context lines).outcome {} = (.ok found, {}) ∧
        groups.flatten = found ∧ nodes = groups.flatMap (groupNodes none)) ∧
      (buildAll (assemble 0) context interrupted).outcome {} = (.ok built, {}) ∧
      (∀ b ∈ built, b.Fits true) ∧ FirstBreach built 1 1 ∧
      ∃ u, (arrange (assemble 0) context true none interrupted).outcome {} =
        (.error (.refused (Fault.openSelectorList.at (some 1))), u) := by
  intro context lines nodes interrupted built
  have hnodes : (arrange (assemble 0) context true none lines).outcome {} = (.ok nodes, {}) := by
    dsimp only [context, lines, nodes]
    cbv
  have hbuilt : (buildAll (assemble 0) context interrupted).outcome {} = (.ok built, {}) := by
    dsimp only [context, interrupted, built]
    cbv
  have hfits : ∀ b ∈ built, b.Fits true := by
    intro b hb
    rcases List.mem_cons.mp hb with rfl | hb
    · rfl
    · rw [List.mem_singleton.mp hb]
      rfl
  have hfirst : FirstBreach built 1 1 := by
    refine ⟨(breach_at_line_iff [built[0]]).mpr (.inr ⟨by rfl, built[0], by rfl, rfl⟩), ?_⟩
    intro j hj other hbreach
    obtain rfl : j = 0 := by omega
    rcases (breach_at_line_iff []).mp hbreach with ⟨-, hne, -⟩ | ⟨hnone, -⟩
    · exact hne rfl
    · cases hnone
  obtain ⟨found, groups, hfound, -, hflatten, -, -, hgroups⟩ :=
    (arrange_groups (assemble 0) context true lines {}).1 nodes {} hnodes
  exact ⟨hnodes, ⟨found, groups, hfound, hflatten, hgroups⟩, hbuilt, hfits, hfirst,
    (((arrange_groups (assemble 0) context true interrupted {}).2 built {} hbuilt hfits).1 1).mpr
      ⟨1, hfirst⟩⟩

end Stylesheet
