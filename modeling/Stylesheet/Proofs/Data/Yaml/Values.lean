import Mathlib
import Stylesheet.Data.Yaml
import Stylesheet.Proofs.Data.Yaml.Atoms
import Stylesheet.Proofs.Node.Data

/-!
# The values of written data

Every list and map becomes a box, which waits to be filled. Boxes are filled in the order in which they
were made; what stands in a box is an atom or a box that may wait still. `Sound` is what holds at any
time, and `FilledTo` what has been filled: where no box waits any more, the data is seen in the boxes.

* `Build.gives_step` : one box is filled.
* `Build.gives_fillAll` : all boxes are filled.
* `appears_of_stands` : data is seen in filled boxes.
* `parse_render` : what is seen of written data in its values.
-/

namespace Stylesheet.Data.Yaml

/-! ## Lists and maps by their numbers -/

mutual

/-- The lists and maps that data consists of, in the order in which they begin. -/
def containers : Data → List Data
  | .atom _ => []
  | .list items => .list items :: itemContainers items
  | .map entries => .map entries :: entryContainers entries

def itemContainers : List Data → List Data
  | [] => []
  | d :: ds => containers d ++ itemContainers ds

def entryContainers : List (Atom × Data) → List Data
  | [] => []
  | (_, d) :: entries => containers d ++ entryContainers entries

end

mutual

/-- Data has as many containers as boxes are made for it. -/
theorem length_containers : ∀ d : Data, (containers d).length = boxCount d
  | .atom _ => rfl
  | .list items => congrArg (· + 1) (length_itemContainers items)
  | .map entries => congrArg (· + 1) (length_entryContainers entries)

theorem length_itemContainers : ∀ items : List Data,
    (itemContainers items).length = itemBoxCount items
  | [] => rfl
  | d :: ds => by
    rw [itemContainers, List.length_append, length_containers d, length_itemContainers ds,
      itemBoxCount]

theorem length_entryContainers : ∀ entries : List (Atom × Data),
    (entryContainers entries).length = entryBoxCount entries
  | [] => rfl
  | (_, d) :: entries => by
    rw [entryContainers, List.length_append, length_containers d, length_entryContainers entries,
      entryBoxCount]

end

mutual

/-- Data is not nested deeper than it has lists and maps. -/
theorem depth_le_boxCount : ∀ d : Data, d.depth ≤ boxCount d + 1
  | .atom _ => Nat.le_refl _
  | .list items => Nat.succ_le_succ (depthAll_le_boxCount items)
  | .map entries => Nat.succ_le_succ (depthEntries_le_boxCount entries)

theorem depthAll_le_boxCount : ∀ items : List Data, depthAll items ≤ itemBoxCount items + 1
  | [] => Nat.zero_le _
  | d :: ds => by
    have hfirst := depth_le_boxCount d
    have hmore := depthAll_le_boxCount ds
    rw [depthAll, itemBoxCount]
    omega

theorem depthEntries_le_boxCount : ∀ entries : List (Atom × Data),
    depthEntries entries ≤ entryBoxCount entries + 1
  | [] => Nat.zero_le _
  | (_, d) :: entries => by
    have hfirst := depth_le_boxCount d
    have hmore := depthEntries_le_boxCount entries
    rw [depthEntries, entryBoxCount]
    omega

end

/-- Whether data begins with a number among all lists and maps. -/
def Known (all : List Data) (number : Nat) (d : Data) : Prop :=
  containers d <+: all.drop number

variable {all : List Data} {number : Nat} {d : Data}

theorem prefix_cons {x : Data} {xs : List Data} (h : x :: xs <+: all.drop number) :
    all[number]? = some x ∧ xs <+: all.drop (number + 1) := by
  obtain ⟨more, hmore⟩ := h
  have hdrop := congrArg (List.drop 1) hmore
  have hhead := congrArg List.head? hmore
  simp only [List.cons_append, List.head?_cons, List.head?_drop] at hhead
  rw [List.drop_drop] at hdrop
  exact ⟨hhead.symm, more, by simpa using hdrop⟩

theorem prefix_append {xs ys : List Data} (h : xs ++ ys <+: all.drop number) :
    xs <+: all.drop number ∧ ys <+: all.drop (number + xs.length) := by
  obtain ⟨more, hmore⟩ := h
  have hdrop := congrArg (List.drop xs.length) hmore
  rw [List.append_assoc, List.drop_left, List.drop_drop] at hdrop
  exact ⟨⟨ys ++ more, by rw [← hmore, List.append_assoc]⟩, more, hdrop⟩

/-! ## States -/

/-- What is found in the place of data that begins with a number: the atom, or what the list or map has
become. -/
def Stands (s : Building) (number : Nat) (d : Data) (ref : Ref) : Prop :=
  match d with
  | .atom a => ref = .atom a
  | _ => s.made.getD number none = some ref

/-- What is found in the places of data one after the other. -/
inductive StandAll (s : Building) : Nat → List Data → List Ref → Prop
  | nil (number : Nat) : StandAll s number [] []
  | cons {number : Nat} {d : Data} {ds : List Data} {ref : Ref} {refs : List Ref}
      (h : Stands s number d ref) (hmore : StandAll s (number + boxCount d) ds refs) :
      StandAll s number (d :: ds) (ref :: refs)

/-- What a box holds when it is filled from a list or map that has a number. -/
def Holds (s : Building) (number : Nat) (d : Data) (box : Box) : Prop :=
  match d with
  | .atom _ => False
  | .list items => ∃ refs, box = .list refs ∧ StandAll s (number + 1) items refs
  | .map entries => ∃ fields : List (String × Ref),
      box = .map (fields.map fun field => (.text field.1, field.2)) ∧
        fields.map (fun field => Atom.text field.1) = entries.map (·.1) ∧
        StandAll s (number + 1) (entries.map (·.2)) (fields.map (·.2))

/-- What holds between any two steps: no map has been changed, every list or map has become at most one
box, and every box waits for what became it. -/
structure Sound (all : List Data) (s : Building) : Prop where
  unchanged : ∀ number, s.changed.getD number none = none
  made : ∀ number ref, s.made.getD number none = some ref → ∃ m d, ref = .box m ∧
    all[number]? = some d ∧ s.waiting[m]? = some (m, treeOf number d)
  waiting : ∀ (m : Nat) x, s.waiting[m]? = some x → ∃ number d, x = (m, treeOf number d) ∧
    s.made.getD number none = some (.box m) ∧ Known all number d ∧ Writable d ∧
      ∀ a, d ≠ .atom a
  boxes_size : s.boxes.size = s.waiting.size
  made_size : s.made.size = all.length
  count : s.waiting.size = s.made.countP Option.isSome

/-- There are no more boxes than lists and maps. -/
theorem Sound.waiting_size_le {s : Building} (h : Sound all s) : s.waiting.size ≤ all.length := by
  rw [h.count, ← h.made_size]
  exact Array.countP_le_size

/-- Whether what has become of lists and maps stays. -/
def Keeps (s s' : Building) : Prop :=
  ∀ number ref, s.made.getD number none = some ref → s'.made.getD number none = some ref

/-- A later state: the boxes that were there stay too. -/
structure Extends (s s' : Building) : Prop where
  made : Keeps s s'
  waiting : ∀ (m : Nat) x, s.waiting[m]? = some x → s'.waiting[m]? = some x
  boxes : ∀ (m : Nat) box, s.boxes[m]? = some box → s'.boxes[m]? = some box

section

variable {s s' s'' : Building}

theorem Extends.refl (s : Building) : Extends s s :=
  ⟨fun _ _ h => h, fun _ _ h => h, fun _ _ h => h⟩

theorem Extends.trans (h : Extends s s') (h' : Extends s' s'') : Extends s s'' :=
  ⟨fun n ref hn => h'.made n ref (h.made n ref hn), fun m x hm => h'.waiting m x (h.waiting m x hm),
    fun m box hm => h'.boxes m box (h.boxes m box hm)⟩

namespace Keeps

theorem stands {ref : Ref} (h : Keeps s s') (hstands : Stands s number d ref) :
    Stands s' number d ref := by
  cases d with
  | atom a => exact hstands
  | list items => exact h _ _ hstands
  | map entries => exact h _ _ hstands

theorem standAll {ds : List Data} {refs : List Ref} (h : Keeps s s')
    (hstands : StandAll s number ds refs) : StandAll s' number ds refs := by
  induction hstands with
  | nil => exact .nil _
  | cons hfirst _ ih => exact .cons (h.stands hfirst) ih

theorem holds {box : Box} (h : Keeps s s') (hholds : Holds s number d box) :
    Holds s' number d box := by
  cases d with
  | atom a => exact hholds
  | list items =>
      obtain ⟨refs, hbox, hrefs⟩ := hholds
      exact ⟨refs, hbox, h.standAll hrefs⟩
  | map entries =>
      obtain ⟨fields, hbox, hnames, hrefs⟩ := hholds
      exact ⟨fields, hbox, hnames, h.standAll hrefs⟩

end Keeps

end

namespace Build

variable {s : Building} {fuel : Nat}

/-! ## Values -/

theorem gives_get : Gives (get : Build Building) s s s := rfl

theorem gives_modify (f : Building → Building) : Gives (modify f : Build Unit) s () (f s) := rfl

theorem gives_lift {α : Type} {x : Except YamlFault α} {a : α} (h : x = .ok a) :
    Gives (liftM x : Build α) s a s := by
  rw [h]
  rfl

/-- An atom's tree gives the atom back. -/
theorem gives_atom {a : Atom} (h : Writable (.atom a)) :
    Gives (value (fuel + 1) (atomTree a)) s (.atom a) s := by
  obtain ⟨kind, hkind, htree, hread⟩ := read_atomTree h
  have hwritten : Gives (writtenOf (fuel + 1) (atomTree a)) s (.chars (atomChars a)) s := by
    rw [htree]
    exact (Gives.pure _ s).bind (.pure _ s)
  have hmade : Gives (madeOf (fuel + 1) kind (atomTree a)) s (.atom a) s := by
    simp only [List.mem_cons, List.not_mem_nil, or_false] at hkind
    rw [htree] at hwritten ⊢
    rcases hkind with rfl | rfl | rfl | rfl <;>
      exact hwritten.bind ((gives_lift hread).bind (.pure _ s))
  rw [htree] at hmade ⊢
  exact (Gives.pure _ s).bind hmade

/-- A list or map that has become a box stands for it again. -/
theorem gives_once_again {number : Nat} {make : Build Ref} {ref : Ref}
    (h : s.made.getD number none = some ref) : Gives (once number make) s ref s := by
  refine gives_get.bind ?_
  rw [h]
  exact .pure _ s

/-- The state after a list or map has become a new box, which waits. -/
def opened (number : Nat) (empty : Box) (tree : Tree) (s : Building) : Building :=
  { s with
    boxes := s.boxes.push empty
    waiting := s.waiting.push (s.boxes.size, tree)
    made := s.made.setIfInBounds number (some (.box s.boxes.size)) }

/-- A container that is met for the first time opens a box of its own. -/
theorem gives_once {number : Nat} {empty : Box} {tree : Tree} (h : s.made.getD number none = none) :
    Gives (once number (newBox empty tree)) s (.box s.boxes.size) (opened number empty tree s) := by
  refine gives_get.bind ?_
  rw [h]
  have hnew : Gives (newBox empty tree) s (.box s.boxes.size)
      { s with
        boxes := s.boxes.push empty
        waiting := s.waiting.push (s.boxes.size, tree) } :=
    gives_get.bind ((gives_modify _).bind (.pure _ _))
  exact hnew.bind ((gives_modify _).bind (.pure _ _))

/-- Opening a box notes it under its container's number only. -/
theorem made_opened {number : Nat} {empty : Box} {tree : Tree} (hnumber : number < s.made.size)
    (other : Nat) : (opened number empty tree s).made.getD other none =
      if number = other then some (.box s.boxes.size) else s.made.getD other none := by
  by_cases h : number = other
  · subst h
    simp [opened, hnumber]
  · simp [opened, h]

/-- A new box leaves everything sound. -/
theorem sound_opened {number : Nat} (h : Sound all s) (hknown : Known all number d)
    (hwritable : Writable d) (hatom : ∀ a, d ≠ .atom a) (hat : all[number]? = some d)
    (hmade : s.made.getD number none = none) (empty : Box) :
    Sound all (opened number empty (treeOf number d) s) ∧
      Extends s (opened number empty (treeOf number d) s) := by
  have hnumber : number < s.made.size := by
    rw [h.made_size]
    exact (List.getElem?_eq_some_iff.mp hat).1
  have hwaiting (m : Nat) (x : Nat × Tree) (hx : s.waiting[m]? = some x) :
      (opened number empty (treeOf number d) s).waiting[m]? = some x := by
    have hm : m < s.waiting.size := (Array.getElem?_eq_some_iff.mp hx).1
    simp only [opened, Array.getElem?_push, if_neg hm.ne, hx]
  -- what became a box before is still that box
  have hkeeps : Keeps s (opened number empty (treeOf number d) s) := by
    intro other ref href
    rw [made_opened hnumber, if_neg]
    · exact href
    · rintro rfl
      rw [hmade] at href
      cases href
  refine ⟨⟨h.unchanged, fun other ref href => ?_, fun m x hx => ?_, ?_, ?_, ?_⟩,
    ⟨hkeeps, hwaiting, fun m box hbox => ?_⟩⟩
  · rw [made_opened hnumber] at href
    split at href
    · next heq =>
      subst heq
      cases href
      refine ⟨s.boxes.size, d, rfl, hat, ?_⟩
      simp [opened, h.boxes_size]
    · obtain ⟨m, d', hbox, hat', hm⟩ := h.made other ref href
      exact ⟨m, d', hbox, hat', hwaiting m _ hm⟩
  · simp only [opened, Array.getElem?_push] at hx
    split at hx
    · next heq =>
      cases hx
      refine ⟨number, d, by rw [heq, h.boxes_size], ?_, hknown, hwritable, hatom⟩
      rw [made_opened hnumber, if_pos rfl, heq, h.boxes_size]
    · obtain ⟨number', d', heq, hmade', hrest⟩ := h.waiting m x hx
      exact ⟨number', d', heq, hkeeps _ _ hmade', hrest⟩
  · simp [opened, h.boxes_size]
  · simp [opened, h.made_size]
  · have hnone : s.made[number] = none := by simpa [Array.getD, hnumber] using hmade
    simp [opened, Array.setIfInBounds, hnumber, Array.countP_set, hnone, h.count]
  · have hm : m < s.boxes.size := (Array.getElem?_eq_some_iff.mp hbox).1
    simp only [opened, Array.getElem?_push, if_neg hm.ne, hbox]

/-- What the tree in a place becomes is what stands there. -/
theorem gives_value (fuel : Nat) {number : Nat} (h : Sound all s) (hknown : Known all number d)
    (hwritable : Writable d) : ∃ ref s', Gives (value (fuel + 1) (treeOf number d)) s ref s' ∧
      Sound all s' ∧ Extends s s' ∧ Stands s' number d ref := by
  have of_container (empty : Box) (hat : all[number]? = some d) (hatom : ∀ a, d ≠ .atom a)
      (hstands : ∀ s ref, Stands s number d ref ↔ s.made.getD number none = some ref)
      (hvalue : ∀ s ref s', Gives (once number (newBox empty (treeOf number d))) s ref s' →
        Gives (value (fuel + 1) (treeOf number d)) s ref s') :
      ∃ ref s', Gives (value (fuel + 1) (treeOf number d)) s ref s' ∧ Sound all s' ∧ Extends s s' ∧
        Stands s' number d ref := by
    -- a tree that has become a box already is that box
    cases hmade : s.made.getD number none with
    | some ref =>
        exact ⟨ref, s, hvalue _ _ _ (gives_once_again hmade), h, .refl s, (hstands s ref).mpr hmade⟩
    | none =>
        obtain ⟨hsound, hextends⟩ := sound_opened h hknown hwritable hatom hat hmade empty
        have hnumber : number < s.made.size := by
          rw [h.made_size]
          exact (List.getElem?_eq_some_iff.mp hat).1
        refine ⟨_, _, hvalue _ _ _ (gives_once hmade), hsound, hextends, (hstands _ _).mpr ?_⟩
        rw [made_opened hnumber, if_pos rfl]
  cases d with
  | atom a => exact ⟨.atom a, s, gives_atom hwritable, h, .refl s, rfl⟩
  | list items =>
      exact of_container (.list []) (prefix_cons hknown).1 nofun (fun _ _ => .rfl)
        fun s _ _ hgives => (Gives.pure _ s).bind hgives
  | map entries =>
      exact of_container (.map []) (prefix_cons hknown).1 nofun (fun _ _ => .rfl)
        fun s _ _ hgives => (Gives.pure _ s).bind hgives

/-! ## Boxes -/

/-- Items give references to boxes that stand for them. -/
theorem gives_items (fuel : Nat) {items : List Data} {number : Nat} (h : Sound all s)
    (hknown : itemContainers items <+: all.drop number) (hwritable : ∀ d ∈ items, Writable d) :
    ∃ refs s', Gives ((itemTrees number items).mapM (value (fuel + 1))) s refs s' ∧
      Sound all s' ∧ Extends s s' ∧ StandAll s' number items refs := by
  induction items generalizing s number with
  | nil => exact ⟨[], s, .pure _ _, h, .refl s, .nil _⟩
  | cons d items ih =>
      rw [List.forall_mem_cons] at hwritable
      obtain ⟨hfirst, hmore⟩ := prefix_append hknown
      rw [length_containers] at hmore
      obtain ⟨ref, s₁, hvalue, hsound, hextends, hstands⟩ := gives_value fuel h hfirst hwritable.1
      obtain ⟨refs, s₂, hitems, hsound', hextends', hstands'⟩ := ih hsound hmore hwritable.2
      refine ⟨ref :: refs, s₂, ?_, hsound', hextends.trans hextends',
        .cons (hextends'.made.stands hstands) hstands'⟩
      rw [itemTrees, List.mapM_cons]
      exact hvalue.bind (hitems.bind (.pure _ _))

theorem atomTree_name {name : String} (h : isName name.toList) :
    atomTree (.text name) = .scalar .text (.chars name.toList) := by
  simp only [isName, Bool.and_eq_true] at h
  simp [atomTree, isPlainAtom, atomChars, h.1.1, (Plain.isPlain_iff.mp h.1.1).1]

theorem gives_keyOf (name : String) :
    Gives (keyOf (fuel + 1) (atomTree (.text name))) s (.text name) s :=
  (gives_atom (.text name)).bind (.pure _ _)

/-- No name of an entry is a mark. -/
theorem gives_firstKey {fields : List (String × Data)}
    (hnames : ∀ field ∈ fields, isName field.1.toList) (number position : Nat) :
    Gives (firstKey? [.merge, .default] position (entryTrees number (fieldEntries fields))) s none
      s := by
  induction fields generalizing number position with
  | nil => exact .pure _ _
  | cons field fields ih =>
      rw [List.forall_mem_cons] at hnames
      have hkind : Gives (kindOf (atomTree (.text field.1))) s .text s := by
        rw [atomTree_name hnames.1]
        exact (Gives.pure _ s).bind (.pure _ s)
      exact hkind.bind (ih hnames.2 _ _)

/-- The entries of a map are the ones that it was written with. -/
theorem gives_flattened {fields : List (String × Data)} (h : Sound all s)
    (hnames : ∀ field ∈ fields, isName field.1.toList) (number other : Nat) :
    Gives (flattened (fuel + 2) number (entryTrees other (fieldEntries fields))) s
      (entryTrees other (fieldEntries fields)).toArray s := by
  have hentries (own : List (Tree × Tree)) : Gives (entriesOf number own) s own.toArray s := by
    refine gives_get.bind ?_
    rw [h.unchanged]
    exact .pure _ _
  have hdrain : Gives (drain (fuel + 1) number (entryTrees other (fieldEntries fields)) #[]) s #[] s :=
    (hentries _).bind ((gives_firstKey hnames other 0).bind (.pure _ _))
  exact hdrain.bind ((hentries _).bind (.pure _ _))

/-- Fields give their names with references to boxes that stand for their values. -/
theorem gives_fields (fuel : Nat) {fields : List (String × Data)} {number : Nat} (h : Sound all s)
    (hknown : entryContainers (fieldEntries fields) <+: all.drop number)
    (hnames : ∀ field ∈ fields, isName field.1.toList)
    (hwritable : ∀ field ∈ fields, Writable field.2) :
    ∃ (found : List (String × Ref)) (s' : Building),
      Gives ((entryTrees number (fieldEntries fields)).mapM fun (key, item) => do
          let key ← keyOf (fuel + 1) key
          pure (key, ← value (fuel + 1) item)) s
        (found.map fun field => (.text field.1, field.2)) s' ∧
      Sound all s' ∧ Extends s s' ∧ found.map (·.1) = fields.map (·.1) ∧
      StandAll s' number (fields.map (·.2)) (found.map (·.2)) := by
  induction fields generalizing s number with
  | nil => exact ⟨[], s, .pure _ _, h, .refl s, rfl, .nil _⟩
  | cons field fields ih =>
      obtain ⟨name, d⟩ := field
      rw [List.forall_mem_cons] at hnames hwritable
      obtain ⟨hfirst, hmore⟩ := prefix_append hknown
      rw [length_containers] at hmore
      obtain ⟨ref, s₁, hvalue, hsound, hextends, hstands⟩ := gives_value fuel h hfirst hwritable.1
      obtain ⟨found, s₂, hfields, hsound', hextends', hfound, hstands'⟩ :=
        ih hsound hmore hnames.2 hwritable.2
      refine ⟨(name, ref) :: found, s₂, ?_, hsound', hextends.trans hextends', ?_,
        .cons (hextends'.made.stands hstands) hstands'⟩
      · rw [fieldEntries, List.map_cons, entryTrees, List.mapM_cons]
        have hentry : Gives (do
            let key ← keyOf (fuel + 1) (atomTree (.text name))
            pure (key, ← value (fuel + 1) (treeOf number d))) s (Atom.text name, ref) s₁ :=
          (gives_keyOf name).bind (hvalue.bind (.pure _ _))
        exact hentry.bind (hfields.bind (.pure _ _))
      · rw [List.map_cons, List.map_cons, hfound]

/-- A box is filled with what has become of the items or entries. -/
theorem gives_content (fuel : Nat) {number : Nat} (h : Sound all s) (hknown : Known all number d)
    (hwritable : Writable d) (hatom : ∀ a, d ≠ .atom a) :
    ∃ box s', Gives (content (fuel + 2) (treeOf number d)) s box s' ∧ Sound all s' ∧ Extends s s' ∧
      Holds s' number d box := by
  cases hwritable with
  | null => exact absurd rfl (hatom _)
  | bool => exact absurd rfl (hatom _)
  | int => exact absurd rfl (hatom _)
  | text => exact absurd rfl (hatom _)
  | @list items hitems =>
      obtain ⟨refs, s', hgives, hsound, hextends, hstands⟩ :=
        gives_items (fuel + 1) h (prefix_cons hknown).2 hitems
      have hkind : Gives (kindOf (treeOf number (.list items))) s .list s :=
        (Gives.pure _ s).bind (.pure _ s)
      exact ⟨.list refs, s', hkind.bind (hgives.bind (.pure _ _)), hsound, hextends, refs, rfl,
        hstands⟩
  | @map fields hne hdistinct hnames hfields =>
      obtain ⟨found, s', hgives, hsound, hextends, hfound, hstands⟩ :=
        gives_fields (fuel + 1) h (prefix_cons hknown).2 hnames hfields
      have hkind : Gives (kindOf (treeOf number (.ofFields fields))) s .map s :=
        (Gives.pure _ s).bind (.pure _ s)
      -- the names are different, so no entry takes the place of another
      have hsettle : settle (found.map fun field => (Atom.text field.1, field.2)) =
          found.map fun field => (.text field.1, field.2) :=
        Json.settle_of_nodup (hfound ▸ hdistinct)
      have hfill : Gives (fillEntries (fuel + 2) (treeOf number (.ofFields fields))) s
          (found.map fun field => (.text field.1, field.2)) s' := by
        refine (gives_flattened h hnames number (number + 1)).bind (hgives.bind ?_)
        rw [hsettle]
        exact .pure _ _
      refine ⟨.map (found.map fun field => (.text field.1, field.2)), s',
        hkind.bind (hfill.bind (.pure _ _)), hsound, hextends, found, rfl, ?_, ?_⟩
      · have htexts := congrArg (List.map Atom.text) hfound
        simpa [List.map_map, Function.comp_def] using htexts
      · rw [List.map_map]
        exact hstands

/-! ## All boxes -/

def FilledTo (all : List Data) (limit : Nat) (s : Building) : Prop :=
  ∀ number d m, s.made.getD number none = some (.box m) → all[number]? = some d → m < limit →
    ∃ box, s.boxes[m]? = some box ∧ Holds s number d box

theorem FilledTo.of_le {next limit : Nat} (h : FilledTo all next s) (hle : limit ≤ next) :
    FilledTo all limit s :=
  fun number d m hmade hat hm => h number d m hmade hat (hm.trans_le hle)

theorem treeOf_number {d' : Data} {number' : Nat} (hatom : ∀ a, d ≠ .atom a)
    (h : treeOf number' d' = treeOf number d) : number' = number := by
  cases d with
  | atom a => exact absurd rfl (hatom a)
  | list items =>
      cases d' with
      | atom a => cases h
      | list items' => exact (Tree.list.inj h).1
      | map entries => cases h
  | map entries =>
      cases d' with
      | atom a => cases h
      | list items => cases h
      | map entries' => exact (Tree.map.inj h).1

theorem getElem?_of_known (h : Known all number d) (hatom : ∀ a, d ≠ .atom a) :
    all[number]? = some d := by
  cases d with
  | atom a => exact absurd rfl (hatom a)
  | list items => exact (prefix_cons h).1
  | map entries => exact (prefix_cons h).1

/-- One more box is filled. -/
theorem gives_step (fuel : Nat) {next : Nat} {x : Nat × Tree} (h : Sound all s)
    (hfilled : FilledTo all next s) (hx : s.waiting[next]? = some x) :
    ∃ box s', Gives (content (fuel + 2) x.2) s box s' ∧
      Sound all { s' with boxes := s'.boxes.setIfInBounds x.1 box } ∧
      FilledTo all (next + 1) { s' with boxes := s'.boxes.setIfInBounds x.1 box } ∧ Keeps s s' := by
  obtain ⟨number, d, rfl, hmade, hknown, hwritable, hatom⟩ := h.waiting next x hx
  obtain ⟨box, s', hgives, hsound, hextends, hholds⟩ := gives_content fuel h hknown hwritable hatom
  refine ⟨box, s', hgives, ?_, ?_, hextends.made⟩
  · exact ⟨hsound.unchanged, hsound.made, hsound.waiting, by simpa using hsound.boxes_size,
      hsound.made_size, hsound.count⟩
  · intro other d' m hother hat hm
    obtain ⟨m', d'', hbox, hat', hwaits⟩ := hsound.made other _ hother
    cases hbox
    obtain rfl : d'' = d' := Option.some.inj (hat'.symm.trans hat)
    have hsame : Keeps s' { s' with boxes := s'.boxes.setIfInBounds next box } := fun _ _ h => h
    by_cases heq : m = next
    · subst heq
      have htree := (hextends.waiting m _ hx).symm.trans hwaits
      obtain rfl : other = number := treeOf_number hatom (by simpa using htree.symm)
      obtain rfl : d'' = d := Option.some.inj (hat.symm.trans (getElem?_of_known hknown hatom))
      have hsize : m < s'.boxes.size := by
        rw [hsound.boxes_size]
        exact (Array.getElem?_eq_some_iff.mp hwaits).1
      exact ⟨box, by simp [hsize], hsame.holds hholds⟩
    · have hlt : m < next := by omega
      have hsize : m < s.waiting.size := hlt.trans (Array.getElem?_eq_some_iff.mp hx).1
      -- what waits there has waited before
      obtain ⟨number', d', hx', hmade', hknown', -, hatom'⟩ :=
        h.waiting m _ (Array.getElem?_eq_getElem hsize)
      have htree := (hextends.waiting m _ (Array.getElem?_eq_getElem hsize)).symm.trans hwaits
      rw [hx'] at htree
      obtain rfl : other = number' := treeOf_number hatom' (by simpa using htree.symm)
      have hat'' := getElem?_of_known hknown' hatom'
      obtain rfl : d'' = d' := Option.some.inj (hat.symm.trans hat'')
      obtain ⟨box', hbox', hholds'⟩ := hfilled other d'' m hmade' hat hlt
      refine ⟨box', ?_, hsame.holds (hextends.made.holds hholds')⟩
      rw [Array.getElem?_setIfInBounds_ne (Ne.symm heq)]
      exact hextends.boxes m box' hbox'

theorem gives_fillAll_of_none {next : Nat} (hx : s.waiting[next]? = none) (steps : Nat) :
    Gives (fillAll fuel steps next) s () s := by
  cases steps <;> rw [fillAll] <;> refine gives_get.bind ?_ <;> rw [hx] <;> exact .pure _ _

/-- A container that waits is filled, and then the next. -/
theorem gives_fillAll_of_some {steps next : Nat} {x : Nat × Tree} {box : Box} {s' s'' : Building}
    (hx : s.waiting[next]? = some x) (hcontent : Gives (content fuel x.2) s box s')
    (hmore : Gives (fillAll fuel steps (next + 1))
      { s' with boxes := s'.boxes.setIfInBounds x.1 box } () s'') :
    Gives (fillAll fuel (steps + 1) next) s () s'' := by
  rw [fillAll]
  refine gives_get.bind ?_
  rw [hx]
  exact hcontent.bind ((gives_modify _).bind hmore)

/-- All boxes are filled, one after the other; there are no more of them than lists and maps. -/
theorem gives_fillAll (fuel : Nat) {steps next : Nat} (h : Sound all s)
    (hfilled : FilledTo all next s) (hsteps : all.length < steps + next) :
    ∃ s', Gives (fillAll (fuel + 2) steps next) s () s' ∧
      Sound all s' ∧ FilledTo all s'.waiting.size s' ∧ Keeps s s' := by
  induction steps generalizing s next with
  | zero =>
      have hx : s.waiting[next]? = none :=
        Array.getElem?_eq_none_iff.mpr (h.waiting_size_le.trans (by omega))
      exact ⟨s, gives_fillAll_of_none hx 0, h, hfilled.of_le (Array.getElem?_eq_none_iff.mp hx),
        fun _ _ h => h⟩
  | succ steps ih =>
      cases hx : s.waiting[next]? with
      | none =>
          exact ⟨s, gives_fillAll_of_none hx _, h,
            hfilled.of_le (Array.getElem?_eq_none_iff.mp hx), fun _ _ h => h⟩
      | some x =>
          obtain ⟨box, s₁, hgives, hsound, hfilled', hkeeps⟩ := gives_step fuel h hfilled hx
          obtain ⟨s₂, hgives', hsound', hfilled'', hkeeps'⟩ := ih hsound hfilled' (by omega)
          exact ⟨s₂, gives_fillAll_of_some hx hgives hgives', hsound', hfilled'',
            fun number ref hmade => hkeeps' _ _ (hkeeps _ _ hmade)⟩

end Build

/-! ## The values of a document -/

theorem entryContainers_fieldEntries (fields : List (String × Data)) :
    entryContainers (fieldEntries fields) = itemContainers (fields.map (·.2)) := by
  induction fields with
  | nil => rfl
  | cons field fields ih =>
      rw [fieldEntries, List.map_cons, entryContainers, ← fieldEntries, ih, List.map_cons,
        itemContainers]

theorem entryBoxCount_fieldEntries (fields : List (String × Data)) :
    entryBoxCount (fieldEntries fields) = itemBoxCount (fields.map (·.2)) := by
  rw [← length_entryContainers, entryContainers_fieldEntries, length_itemContainers]

section

variable {s : Building} {ref : Ref}

/-- Whether the lists and maps of data that begins with a number have become boxes, in which the data is
seen. -/
def Appears (s : Building) (root : Ref) (number : Nat) (d : Data) (ref : Ref) : Prop :=
  (Graph.viewer ⟨s.boxes, root⟩).Shows d ref ∧
    ∀ n, number ≤ n → n < number + boxCount d → (s.made.getD n none).isSome

/-- What stands for a list or map is a box that holds it. -/
theorem holds_of_stands (h : Sound all s) (hfilled : Build.FilledTo all s.waiting.size s)
    (hknown : Known all number d) (hatom : ∀ a, d ≠ .atom a) (hstands : Stands s number d ref) :
    ∃ m box, ref = .box m ∧ s.made.getD number none = some ref ∧ s.boxes[m]? = some box ∧
      Holds s number d box := by
  have hmade : s.made.getD number none = some ref := by
    cases d with
    | atom a => exact absurd rfl (hatom a)
    | list items => exact hstands
    | map entries => exact hstands
  obtain ⟨m, d', rfl, hat, hwaits⟩ := h.made number ref hmade
  obtain rfl : d' = d := Option.some.inj (hat.symm.trans (Build.getElem?_of_known hknown hatom))
  obtain ⟨box, hbox, hholds⟩ :=
    hfilled number d' m hmade hat (Array.getElem?_eq_some_iff.mp hwaits).1
  exact ⟨m, box, rfl, hmade, hbox, hholds⟩

/-- Items appear when each of them does wherever it stands. -/
theorem appears_of_standAll {root : Ref} {items : List Data} {refs : List Ref}
    (ih : ∀ d ∈ items, ∀ number ref, Known all number d → Stands s number d ref →
      Appears s root number d ref)
    (hknown : itemContainers items <+: all.drop number) (hstands : StandAll s number items refs) :
    List.Forall₂ (Graph.viewer ⟨s.boxes, root⟩).Shows items refs ∧
      ∀ n, number ≤ n → n < number + itemBoxCount items → (s.made.getD n none).isSome := by
  induction hstands with
  | nil => exact ⟨.nil, fun n hle hlt => absurd hlt (by simpa [itemBoxCount] using hle)⟩
  | @cons number d ds ref refs hfirst hmore ihmore =>
      rw [List.forall_mem_cons] at ih
      obtain ⟨hknown, hknowns⟩ := prefix_append hknown
      rw [length_containers] at hknowns
      obtain ⟨hshows, hmade⟩ := ih.1 number ref hknown hfirst
      obtain ⟨hshowsAll, hmades⟩ := ihmore ih.2 hknowns
      refine ⟨.cons hshows hshowsAll, fun n hle hlt => ?_⟩
      rw [itemBoxCount] at hlt
      by_cases hn : n < number + boxCount d
      · exact hmade n hle hn
      · exact hmades n (by omega) (by omega)

theorem showsAll_of_forall₂ {g : Graph} {items : List Data} {refs : List Ref}
    (h : List.Forall₂ g.viewer.Shows items refs) : g.viewer.ShowsAll items refs := by
  induction h with
  | nil => rfl
  | cons hfirst _ ih => exact ⟨_, _, rfl, hfirst, ih⟩

/-- Under the name of each field stands what the field is seen in. -/
theorem showsField_of_forall₂ {g : Graph} {fields : List (String × Data)}
    {found : List (String × Ref)} (hnames : found.map (·.1) = fields.map (·.1))
    (hdistinct : (fields.map (·.1)).Nodup)
    (h : List.Forall₂ g.viewer.Shows (fields.map (·.2)) (found.map (·.2))) :
    ∀ field ∈ fields,
      g.viewer.ShowsField (found.map fun field => (.text field.1, field.2)) field := by
  have hmem : ∀ field ∈ fields, ∃ ref, (field.1, ref) ∈ found ∧ g.viewer.Shows field.2 ref := by
    clear hdistinct
    induction fields generalizing found with
    | nil => simp
    | cons field fields ih =>
        cases found with
        | nil => cases hnames
        | cons other found =>
            rw [List.map_cons, List.map_cons, List.cons_eq_cons] at hnames
            rw [List.map_cons, List.map_cons, List.forall₂_cons] at h
            rw [List.forall_mem_cons]
            refine ⟨⟨other.2, by rw [← hnames.1]; exact List.mem_cons_self, h.1⟩, ?_⟩
            intro field hfield
            obtain ⟨ref, hmem, hshows⟩ := ih hnames.2 h.2 field hfield
            exact ⟨ref, List.mem_cons_of_mem _ hmem, hshows⟩
  intro field hfield
  obtain ⟨ref, hmem, hshows⟩ := hmem field hfield
  exact ⟨ref, Json.lookup?_of_mem (hnames ▸ hdistinct) hmem, hshows⟩

/-- Once all boxes are filled, data appears in what stands for it. -/
theorem appears_of_stands (h : Sound all s) (hfilled : Build.FilledTo all s.waiting.size s)
    (root : Ref) (hwritable : Writable d) (number : Nat) (ref : Ref)
    (hknown : Known all number d) (hstands : Stands s number d ref) :
    Appears s root number d ref := by
  have of_atom {a : Atom} {ref : Ref} (number : Nat) (hstands : Stands s number (.atom a) ref) :
      Appears s root number (.atom a) ref := by
    obtain rfl : ref = .atom a := hstands
    refine ⟨⟨rfl, ?_⟩, fun n hle hlt => absurd hlt (by simpa [boxCount] using hle)⟩
    simp only [Graph.viewer, Graph.data, Graph.dataWithin]
  induction hwritable generalizing number ref with
  | null => exact of_atom number hstands
  | bool => exact of_atom number hstands
  | int => exact of_atom number hstands
  | text => exact of_atom number hstands
  | @list items hitems hturn ih =>
      obtain ⟨m, box, rfl, hmade, hbox, refs, rfl, hrefs⟩ :=
        holds_of_stands h hfilled hknown (by simp) hstands
      obtain ⟨hshows, hmades⟩ := appears_of_standAll ih (prefix_cons hknown).2 hrefs
      refine ⟨⟨refs, ?_, showsAll_of_forall₂ hshows⟩, fun n hle hlt => ?_⟩
      · simp only [Graph.viewer, Graph.view, hbox]
      · rw [boxCount] at hlt
        -- the box of the list itself, or one further in
        by_cases hn : n = number
        · rw [hn, hmade]
          rfl
        · exact hmades n (by omega) (by omega)
  | @map fields hne hdistinct hnames hfields hturn ih =>
      obtain ⟨m, box, rfl, hmade, hbox, found, rfl, hnames, hrefs⟩ :=
        holds_of_stands h hfilled hknown (by simp [ofFields]) hstands
      have hknown' := (prefix_cons hknown).2
      rw [← fieldEntries, entryContainers_fieldEntries] at hknown'
      rw [List.map_map] at hrefs
      have ih' : ∀ d ∈ fields.map (·.2), ∀ number ref, Known all number d →
          Stands s number d ref → Appears s root number d ref := by
        intro d hd
        obtain ⟨field, hfield, rfl⟩ := List.mem_map.mp hd
        exact ih field hfield
      obtain ⟨hshows, hmades⟩ := appears_of_standAll ih' hknown' hrefs
      have hnames' : found.map (·.1) = fields.map (·.1) := by
        have htexts : (found.map (·.1)).map Atom.text = (fields.map (·.1)).map Atom.text := by
          simpa [Function.comp_def] using hnames
        exact List.map_injective_iff.mpr (fun _ _ => Atom.text.inj) htexts
      refine ⟨Viewer.shows_ofFields_iff.mpr
        ⟨_, ?_, showsField_of_forall₂ hnames' hdistinct hshows⟩, fun n hle hlt => ?_⟩
      · simp only [Graph.viewer, Graph.view, hbox]
      · rw [Data.ofFields, boxCount, ← fieldEntries, entryBoxCount_fieldEntries] at hlt
        by_cases hn : n = number
        · rw [hn, hmade]
          rfl
        · exact hmades n (by omega) (by omega)

/-- The values of a document that writes data are the data, in as many boxes as it has lists and
maps. -/
theorem values_treeOf (hwritable : Writable d) (size : Nat) :
    ∃ g, Document.values size ⟨treeOf 0 d, #[], boxCount d⟩ = .ok g ∧ g.viewer.Shows d g.root ∧
      g.boxes.size = boxCount d := by
  let start : Building :=
    { named := #[]
      changed := Array.replicate (boxCount d) none
      made := Array.replicate (boxCount d) none }
  have hnone {α : Type} (number : Nat) :
      (Array.replicate (boxCount d) (none : Option α)).getD number none = none := by
    rw [Array.getD_eq_getD_getElem?, Array.getElem?_replicate]
    split <;> rfl
  have hsound : Sound (containers d) start := by
    refine ⟨hnone, fun number ref h => ?_, nofun, rfl, ?_, ?_⟩
    · rw [hnone] at h
      cases h
    · simp [start, length_containers]
    · simp [start, Array.countP_replicate]
  have hknown : Known (containers d) 0 d := by simp [Known]
  obtain ⟨ref, s₁, hvalue, hsound₁, hextends, hstands⟩ :=
    Build.gives_value (4 * size + 8) hsound hknown hwritable
  -- no box is filled yet; the loop fills one after the other
  have hunfilled : Build.FilledTo (containers d) 0 s₁ := fun _ _ _ _ _ hm => absurd hm (by omega)
  have hsteps : (containers d).length < boxCount d + 1 + 0 := by
    rw [length_containers]
    exact Nat.lt_succ_self _
  obtain ⟨s₂, hfill, hsound₂, hfilled, hkeeps⟩ :=
    Build.gives_fillAll (4 * size + 7) hsound₁ hunfilled hsteps
  have hbuild : Gives (do
      let root ← Build.value (4 * size + 9) (treeOf 0 d)
      Build.fillAll (4 * size + 9) (boxCount d + 1) 0
      pure root) start ref s₂ := hvalue.bind (hfill.bind (.pure ref _))
  obtain ⟨hshows, hall⟩ :=
    appears_of_stands hsound₂ hfilled ref hwritable 0 ref hknown (hkeeps.stands hstands)
  refine ⟨⟨s₂.boxes, ref⟩, ?_, hshows, ?_⟩
  · show (StateT.run _ _ >>= _) = _
    rw [StateT.run, hbuild]
    rfl
  · -- every list and every map has become a box of its own
    have hmade : s₂.made.size = boxCount d := by rw [hsound₂.made_size, length_containers]
    rw [hsound₂.boxes_size, hsound₂.count, ← hmade, Array.countP_eq_size]
    intro x hx
    obtain ⟨n, hn, rfl⟩ := Array.mem_iff_getElem.mp hx
    simpa [Array.getD, hn] using hall n (Nat.zero_le _) (by omega)

/-- **Reading what was written.** What a map is read back as is seen in the values of its written
form. -/
theorem parse_render (hwritable : Writable d) (hmap : ∃ entries, d = .map entries) :
    ∃ g, parse (render d) = .ok g ∧ g.viewer.Shows (reread 0 d) g.root ∧
      (reread 0 d).depth ≤ g.boxes.size + 1 := by
  have hroot : ∀ items, reread 0 d ≠ .list items := by
    obtain ⟨entries, rfl⟩ := hmap
    exact nofun
  have hreread := hwritable.reread 0
  obtain ⟨g, hvalues, hshows, hsize⟩ := values_treeOf hreread (tokensOf (reread 0 d)).length
  refine ⟨g, ?_, hshows, hsize ▸ depth_le_boxCount (reread 0 d)⟩
  rw [parse, ofText_render hwritable hmap]
  dsimp only
  rw [Parse.ofTokens_tokensOf hreread hroot]
  exact hvalues

end

end Stylesheet.Data.Yaml
