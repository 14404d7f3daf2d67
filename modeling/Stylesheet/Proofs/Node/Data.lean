import Mathlib
import Stylesheet.Node.Data

/-!
# Saved trees are read back

A tree is read in two steps: what is read is completed, and the complete form is turned into a tree.
Saving writes the complete form already, so completing changes nothing, and nothing but the openness
of selector lists is lost.

What is read need not be the data that was saved: a map may come back with its entries in another
order. `Viewer.Shows` says what completing relies on, for any way to look into values: under every
key that was saved, what was saved there is seen again.

* `Node.completeTree_of_shows` : the complete form of what is seen as a saved tree.
* `Node.ofComplete_toData` : the tree of a complete form that was saved.
-/

namespace Stylesheet

open Data

/-! ## Data as it is seen -/

namespace Viewer

variable {α : Type}

mutual

/-- Whether a value is seen as data is: the same atoms, the same items one after the other, and under
the key of each entry, wherever it stands, what is seen as the value of the entry. -/
def Shows (v : Viewer α) : Data → α → Prop
  | .atom x, a => v.view a = .atom x ∧ v.data a = .atom x
  | .list items, a => ∃ as, v.view a = .list as ∧ ShowsAll v items as
  | .map entries, a => ∃ seen, v.view a = .map seen ∧ ShowsEntries v entries seen

def ShowsAll (v : Viewer α) : List Data → List α → Prop
  | [], as => as = []
  | d :: ds, as => ∃ b bs, as = b :: bs ∧ Shows v d b ∧ ShowsAll v ds bs

/-- Whether entries are found under their keys, which are texts. -/
def ShowsEntries (v : Viewer α) : List (Atom × Data) → List (Atom × α) → Prop
  | [], _ => True
  | (k, d) :: rest, seen =>
    (∃ name b, k = .text name ∧ lookup? seen name = some b ∧ Shows v d b) ∧ ShowsEntries v rest seen

end

/-- Whether what is found under a key is seen as data is. -/
def ShowsField (v : Viewer α) (seen : List (Atom × α)) (field : String × Data) : Prop :=
  ∃ b, lookup? seen field.1 = some b ∧ v.Shows field.2 b

variable {v : Viewer α} {seen : List (Atom × α)} {a : α}

theorem showsEntries_fields_iff {fields : List (String × Data)} :
    v.ShowsEntries (fields.map fun field => (.text field.1, field.2)) seen ↔
      ∀ field ∈ fields, v.ShowsField seen field := by
  induction fields with
  | nil => simp [ShowsEntries]
  | cons field fields ih =>
      rw [List.map_cons, ShowsEntries, ih, List.forall_mem_cons]
      simp [ShowsField]

/-- A map is shown by an object that has its fields, in any order. -/
theorem shows_ofFields_iff {fields : List (String × Data)} :
    v.Shows (.ofFields fields) a ↔
      ∃ seen, v.view a = .map seen ∧ ∀ field ∈ fields, v.ShowsField seen field := by
  simp only [Data.ofFields, Shows, showsEntries_fields_iff]

/-! ### Fields -/

theorem ShowsField.fieldOr {name : String} {x : Atom} (h : v.ShowsField seen (name, .atom x))
    (default : Data) : Data.fieldOr v seen name default = .atom x := by
  obtain ⟨b, hfound, -, hdata⟩ := h
  rw [Data.fieldOr, hfound]
  exact hdata

theorem ShowsField.required {name : String} {x : Atom} (h : v.ShowsField seen (name, .atom x)) :
    Data.required v seen name = .ok (.atom x) := by
  obtain ⟨b, hfound, -, hdata⟩ := h
  rw [Data.required, hfound]
  exact congrArg Except.ok hdata

theorem ShowsField.elementsOf {name : String} {items : List Data}
    (h : v.ShowsField seen (name, .list items)) :
    ∃ as, Data.elementsOf v seen name = .ok as ∧ v.ShowsAll items as := by
  obtain ⟨b, hfound, as, hview, has⟩ := h
  refine ⟨as, ?_, has⟩
  rw [Data.elementsOf, hfound]
  dsimp only
  rw [elements?, hview]

/-- The type of a node is read where it is one of the five. -/
theorem ShowsField.typeOf {name : String} (h : v.ShowsField seen ("type", .text name))
    (hname : name ∈ ["root", "rule", "attr", "comment", "directive"]) :
    Data.typeOf v seen = .ok name := by
  obtain ⟨b, hfound, hview, -⟩ := h
  rw [Data.typeOf, hfound]
  dsimp only
  rw [hview]
  simp [hname]

end Viewer

/-! ## Depths -/

namespace Data

theorem depth_pos (d : Data) : 0 < d.depth := by
  cases d <;> simp [depth]

/-- Every item of a list is nested less deep than the list. -/
theorem depth_item_lt {items : List Data} {n : Nat} (h : (list items).depth ≤ n) :
    ∀ d ∈ items, d.depth < n := by
  have hle : ∀ d ∈ items, d.depth ≤ depthAll items := by
    clear h
    induction items with
    | nil => simp
    | cons d ds ih =>
        intro other hother
        rw [depthAll]
        rcases List.mem_cons.mp hother with rfl | hother
        · exact Nat.le_max_left _ _
        · exact (ih other hother).trans (Nat.le_max_right _ _)
  intro d hd
  rw [depth] at h
  have := hle d hd
  omega

/-- Every field of a map is nested less deep than the map. -/
theorem depth_field_lt {fields : List (String × Data)} {n : Nat}
    (h : (ofFields fields).depth ≤ n) : ∀ field ∈ fields, field.2.depth < n := by
  have hle : ∀ field ∈ fields, field.2.depth ≤
      depthEntries (fields.map fun field => (.text field.1, field.2)) := by
    clear h
    induction fields with
    | nil => simp
    | cons field fields ih =>
        intro other hother
        rw [List.map_cons, depthEntries]
        rcases List.mem_cons.mp hother with rfl | hother
        · exact Nat.le_max_left _ _
        · exact (ih other hother).trans (Nat.le_max_right _ _)
  intro field hfield
  rw [ofFields, depth] at h
  have := hle field hfield
  omega

end Data

theorem Line.allToData_eq (lines : List Line) : Line.allToData lines = lines.map Line.toData := by
  induction lines with
  | nil => rfl
  | cons line lines ih => rw [Line.allToData, ih, List.map_cons]

theorem Node.allToData_eq (nodes : List Node) : Node.allToData nodes = nodes.map Node.toData := by
  induction nodes with
  | nil => rfl
  | cons node nodes ih => rw [Node.allToData, ih, List.map_cons]

/-! ## The complete form

Every level takes one unit of fuel, so the inductions are on the fuel. -/

section

variable {α : Type} {v : Viewer α} {fuel : Nat}

namespace Viewer

/-- Texts are taken over as they are seen. -/
theorem map_data_of_showsAll {texts : List String} {as : List α}
    (h : v.ShowsAll (texts.map Data.text) as) : as.map v.data = texts.map Data.text := by
  induction texts generalizing as with
  | nil =>
      obtain rfl : as = [] := h
      rfl
  | cons text texts ih =>
      obtain ⟨b, bs, rfl, ⟨-, hdata⟩, hbs⟩ := h
      rw [List.map_cons, List.map_cons, hdata, ih hbs]

/-- The items of a list one after the other. -/
theorem mapM_of_showsAll {f : α → Except DataFault Data} {items : List Data} {as : List α}
    (h : v.ShowsAll items as) (hf : ∀ d ∈ items, ∀ b, v.Shows d b → f b = .ok d) :
    as.mapM f = .ok items := by
  induction items generalizing as with
  | nil =>
      obtain rfl : as = [] := h
      rfl
  | cons d ds ih =>
      obtain ⟨b, bs, rfl, hb, hbs⟩ := h
      rw [List.forall_mem_cons] at hf
      rw [List.mapM_cons, hf.1 b hb, ih hbs hf.2]
      rfl

end Viewer

/-- The complete form of what is seen as a saved line is the saved line. -/
theorem Line.completeLine_of_shows (line : Line) {a : α} (h : v.Shows line.toData a)
    (hfuel : line.toData.depth ≤ fuel) : completeLine v fuel a = .ok line.toData := by
  induction fuel generalizing line a with
  | zero => exact absurd hfuel (Nat.not_le.mpr line.toData.depth_pos)
  | succ fuel ih =>
      obtain ⟨text, depth, index, children⟩ := line
      rw [Line.toData] at h hfuel ⊢
      obtain ⟨seen, hview, hfields⟩ := Viewer.shows_ofFields_iff.mp h
      have hnested := depth_field_lt hfuel
      simp only [List.forall_mem_cons] at hfields hnested
      obtain ⟨htext, hdepth, hindex, hchildren, -⟩ := hfields
      obtain ⟨as, helements, has⟩ := hchildren.elementsOf
      have hlines : as.mapM (completeLine v fuel) = .ok (Line.allToData children) := by
        refine Viewer.mapM_of_showsAll has fun d hd b hb => ?_
        have hlt := depth_item_lt (Nat.le_of_lt_succ hnested.2.2.2.1) d hd
        rw [Line.allToData_eq, List.mem_map] at hd
        obtain ⟨child, -, rfl⟩ := hd
        exact ih child hb (Nat.le_of_lt hlt)
      rw [completeLine, hview]
      simp only [htext.required, helements, hlines, hdepth.fieldOr, hindex.fieldOr, bind,
        Except.bind]
      rfl

/-- The content's fields are read back from what shows them. -/
theorem Content.completeContent_of_shows (content : Content) {seen : List (Atom × α)}
    (h : ∀ field ∈ content.fields, v.ShowsField seen field)
    (hfuel : ∀ field ∈ content.fields, field.2.depth ≤ fuel) :
    completeContent v fuel seen = .ok content.fields := by
  cases content with
  | root =>
      simp only [Content.fields, List.forall_mem_cons] at h
      rw [completeContent, h.1.typeOf (by simp)]
      rfl
  | rule selectors =>
      simp only [Content.fields, List.forall_mem_cons] at h
      obtain ⟨htype, hrules, -⟩ := h
      obtain ⟨as, helements, has⟩ := hrules.elementsOf
      rw [completeContent, htype.typeOf (by simp)]
      simp only [helements, Viewer.map_data_of_showsAll has, bind, Except.bind]
      rfl
  | attr name value =>
      simp only [Content.fields, List.forall_mem_cons] at h
      obtain ⟨htype, hname, hvalue, -⟩ := h
      rw [completeContent, htype.typeOf (by simp)]
      simp only [hname.required, hvalue.fieldOr, bind, Except.bind]
      rfl
  | comment text visible lines =>
      simp only [Content.fields, List.forall_mem_cons] at h hfuel
      obtain ⟨htype, htext, hvisible, hlines, -⟩ := h
      obtain ⟨as, helements, has⟩ := hlines.elementsOf
      have hcomplete : as.mapM (completeLine v fuel) = .ok (Line.allToData lines) := by
        refine Viewer.mapM_of_showsAll has fun d hd b hb => ?_
        have hlt := depth_item_lt hfuel.2.2.2.1 d hd
        rw [Line.allToData_eq, List.mem_map] at hd
        obtain ⟨line, -, rfl⟩ := hd
        exact line.completeLine_of_shows hb (Nat.le_of_lt hlt)
      rw [completeContent, htype.typeOf (by simp)]
      simp only [htext.fieldOr, hvisible.fieldOr, helements, hcomplete, bind, Except.bind]
      rfl
  | directive text =>
      simp only [Content.fields, List.forall_mem_cons] at h
      obtain ⟨htype, htext, -⟩ := h
      rw [completeContent, htype.typeOf (by simp)]
      simp only [htext.fieldOr, bind, Except.bind]
      rfl

/-- The line and the file of a node are atoms, known or not. -/
theorem ofOption_eq_atom {β : Type} (f : β → Atom) (b : Option β) :
    Data.ofOption (fun b => .atom (f b)) b = .atom (b.elim .null f) := by
  cases b <;> rfl

/-- The complete form of what is seen as a saved tree is the saved tree. -/
theorem Node.completeTree_of_shows (node : Node) {a : α} (h : v.Shows node.toData a)
    (hfuel : node.toData.depth ≤ fuel) : completeTree v fuel a = .ok node.toData := by
  induction fuel generalizing node a with
  | zero => exact absurd hfuel (Nat.not_le.mpr node.toData.depth_pos)
  | succ fuel ih =>
      obtain ⟨content, line, filename, children⟩ := node
      rw [Node.toData] at h hfuel ⊢
      obtain ⟨seen, hview, hfields⟩ := Viewer.shows_ofFields_iff.mp h
      have hnested := depth_field_lt hfuel
      simp only [List.forall_mem_append, List.forall_mem_cons] at hfields hnested
      obtain ⟨⟨⟨hline, hfilename, -⟩, hcontent⟩, hchildren, -⟩ := hfields
      obtain ⟨⟨-, hcontentFuel⟩, hchildrenFuel, -⟩ := hnested
      obtain ⟨as, helements, has⟩ := hchildren.elementsOf
      have hnodes : as.mapM (completeTree v fuel) = .ok (Node.allToData children) := by
        refine Viewer.mapM_of_showsAll has fun d hd b hb => ?_
        have hlt := depth_item_lt (Nat.le_of_lt_succ hchildrenFuel) d hd
        rw [Node.allToData_eq, List.mem_map] at hd
        obtain ⟨child, -, rfl⟩ := hd
        exact ih child hb (Nat.le_of_lt hlt)
      have hfields : completeContent v fuel seen = .ok content.fields :=
        content.completeContent_of_shows hcontent fun field hfield =>
          Nat.le_of_lt_succ (hcontentFuel field hfield)
      rw [ofOption_eq_atom] at hline hfilename ⊢
      rw [ofOption_eq_atom]
      rw [completeTree, hview]
      simp only [hfields, helements, hnodes, hline.fieldOr, hfilename.fieldOr, bind, Except.bind]
      rfl

end

/-! ## Reading the complete form -/

/-- A tree without a rule whose selector list is open. Whether a list is open is not saved. -/
def Node.Closed (tree : Node) : Prop :=
  ∀ node ∈ tree.walk, ∀ selectors, node.content = .rule selectors → selectors.continued = false

theorem Node.Closed.child {node child : Node} (h : node.Closed) (hchild : child ∈ node.children) :
    child.Closed :=
  fun inner hinner => h inner (Node.mem_walk_of_child hchild hinner)

/-- The items of a list one after the other. -/
theorem mapM_eq_some {α β γ : Type} {f : β → Option γ} {g : α → β} {h : α → γ} {as : List α}
    (hf : ∀ a ∈ as, f (g a) = some (h a)) : (as.map g).mapM f = some (as.map h) := by
  induction as with
  | nil => rfl
  | cons a as ih =>
      rw [List.forall_mem_cons] at hf
      rw [List.map_cons, List.mapM_cons, hf.1, ih hf.2]
      rfl

section

variable {fuel : Nat}

/-- A saved line is read back. -/
theorem Line.ofComplete?_toData (line : Line) (hfuel : line.toData.depth ≤ fuel) :
    Line.ofComplete? fuel line.toData = some line := by
  induction fuel generalizing line with
  | zero => exact absurd hfuel (Nat.not_le.mpr line.toData.depth_pos)
  | succ fuel ih =>
      obtain ⟨text, depth, index, children⟩ := line
      rw [Line.toData] at hfuel ⊢
      have hnested := depth_field_lt hfuel
      simp only [List.forall_mem_cons] at hnested
      have hlines : (Line.allToData children).mapM (Line.ofComplete? fuel) = some children := by
        have hread : ∀ child ∈ children,
            Line.ofComplete? fuel child.toData = some (id child) := by
          intro child hchild
          refine ih child (Nat.le_of_lt (depth_item_lt (Nat.le_of_lt_succ hnested.2.2.2.1) _ ?_))
          rw [Line.allToData_eq]
          exact List.mem_map_of_mem hchild
        rw [Line.allToData_eq, mapM_eq_some hread, List.map_id]
      show (do
        let children ← (Line.allToData children).mapM (Line.ofComplete? fuel)
        pure (⟨text, depth, index, children⟩ : Line)) = _
      rw [hlines]
      rfl

theorem mapM_text? (texts : List String) :
    (texts.map Data.text).mapM Data.text? = some texts := by
  have hread : ∀ text ∈ texts, Data.text? (.text text) = some (id text) := fun _ _ => rfl
  rw [mapM_eq_some hread, List.map_id]

/-- A node is written as its place, its content's fields and its children. -/
theorem Node.toData_eq (node : Node) : node.toData = .ofFields
    ([("line", .ofOption .int node.line), ("filename", .ofOption .text node.filename)] ++
      node.content.fields ++ [("children", .list (Node.allToData node.children))]) := by
  cases node
  rfl

/-- What a saved node is is read back, if it is no open rule. -/
theorem Content.ofComplete?_toData (node : Node)
    (hclosed : ∀ selectors, node.content = .rule selectors → selectors.continued = false)
    (hfuel : ∀ field ∈ node.content.fields, field.2.depth ≤ fuel) :
    Content.ofComplete? fuel node.toData = some node.content := by
  obtain ⟨content, line, filename, children⟩ := node
  cases content with
  | root => rfl
  | rule selectors =>
      obtain ⟨rules, continued⟩ := selectors
      obtain rfl : continued = false := hclosed _ rfl
      show (do
        let rules ← (rules.map Data.text).mapM Data.text?
        pure (Content.rule ⟨rules, false⟩)) = _
      rw [mapM_text?]
      rfl
  | attr name value =>
      -- an empty value counts as nothing given, which is read as the empty text
      show (if (Data.text value).isEmpty then some (Content.attr name "")
        else some (.attr name value)) = some (.attr name value)
      split
      · next hempty => rw [String.isEmpty_iff.mp hempty]
      · rfl
  | comment text visible lines =>
      simp only [Content.fields, List.forall_mem_cons] at hfuel
      have hlines : (Line.allToData lines).mapM (Line.ofComplete? fuel) = some lines := by
        have hread : ∀ line ∈ lines, Line.ofComplete? fuel line.toData = some (id line) := by
          intro line hline
          refine line.ofComplete?_toData (Nat.le_of_lt (depth_item_lt hfuel.2.2.2.1 _ ?_))
          rw [Line.allToData_eq]
          exact List.mem_map_of_mem hline
        rw [Line.allToData_eq, mapM_eq_some hread, List.map_id]
      show (do
        let lines ← (Line.allToData lines).mapM (Line.ofComplete? fuel)
        pure (Content.comment text (!(Data.bool visible).isEmpty) lines)) = _
      rw [hlines]
      cases visible <;> rfl
  | directive text => rfl

theorem int?_ofOption (line : Option Int) : (Data.ofOption Data.int line).int? = line := by
  cases line <;> rfl

theorem text?_ofOption (filename : Option String) :
    (Data.ofOption Data.text filename).text? = filename := by
  cases filename <;> rfl

/-- A saved tree is read back. -/
theorem Node.ofComplete?_toData (node : Node) (hclosed : node.Closed)
    (hfuel : node.toData.depth ≤ fuel) : Node.ofComplete? fuel node.toData = some node := by
  induction fuel generalizing node with
  | zero => exact absurd hfuel (Nat.not_le.mpr node.toData.depth_pos)
  | succ fuel ih =>
      have hnested := depth_field_lt (node.toData_eq ▸ hfuel)
      simp only [List.forall_mem_append, List.forall_mem_cons] at hnested
      obtain ⟨⟨-, hcontentFuel⟩, hchildrenFuel, -⟩ := hnested
      have hcontent : Content.ofComplete? fuel node.toData = some node.content :=
        Content.ofComplete?_toData node (hclosed node node.self_mem_walk) fun field hfield =>
          Nat.le_of_lt_succ (hcontentFuel field hfield)
      have hchildren : (Node.allToData node.children).mapM (Node.ofComplete? fuel) =
          some node.children := by
        have hread : ∀ child ∈ node.children,
            Node.ofComplete? fuel child.toData = some (id child) := by
          intro child hchild
          refine ih child (hclosed.child hchild)
            (Nat.le_of_lt (depth_item_lt (Nat.le_of_lt_succ hchildrenFuel) _ ?_))
          rw [Node.allToData_eq]
          exact List.mem_map_of_mem hchild
        rw [Node.allToData_eq, mapM_eq_some hread, List.map_id]
      obtain ⟨content, line, filename, children⟩ := node
      have hfield : (Node.toData ⟨content, line, filename, children⟩).field? "children" =
          some (.list (Node.allToData children)) := by
        cases content <;> rfl
      rw [Node.ofComplete?, hcontent, hfield]
      show (do
        let children ← (Node.allToData children).mapM (Node.ofComplete? fuel)
        pure (⟨content, (Data.ofOption Data.int line).int?,
          (Data.ofOption Data.text filename).text?, children⟩ : Node)) = _
      rw [hchildren, int?_ofOption, text?_ofOption]
      rfl

/-- What is seen as a saved tree without open rules is read as the tree. -/
theorem Node.ofComplete_toData (tree : Node) (hclosed : tree.Closed) :
    Node.ofComplete tree.toData = .ok tree := by
  rw [Node.ofComplete, tree.ofComplete?_toData hclosed (Nat.le_succ _)]

end

end Stylesheet
