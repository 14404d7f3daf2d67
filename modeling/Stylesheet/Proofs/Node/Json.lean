import Mathlib
import Stylesheet.Node.Json
import Stylesheet.Proofs.Assembly.WellFormed
import Stylesheet.Proofs.Data.Json
import Stylesheet.Proofs.Node.Data

/-!
# Trees through JSON

The data of a tree is plain, so that it is read back sorted, and sorted data is seen as the data it
was. That is all that reading a tree relies on.

* `Data.Json.Plain.shows_sorted` : sorting hides nothing.
* `Node.plain_toData` : a saved tree is plain data.
* `Node.read_saved` : a tree without open rules is read back from its data and from its text.
-/

namespace Stylesheet

open Data Data.Json Line

/-! ## Sorted data is seen as the data it was -/

namespace Data

theorem depth_le_of_lookup? {entries : List (Atom × Data)} {name : String} {d : Data}
    (h : lookup? entries name = some d) : d.depth ≤ depthEntries entries := by
  rw [lookup?, Option.map_eq_some_iff] at h
  obtain ⟨entry, hfound, rfl⟩ := h
  have hmem := List.mem_of_find?_eq_some hfound
  clear hfound
  induction entries with
  | nil => cases hmem
  | cons other entries ih =>
      obtain ⟨k, v⟩ := other
      rw [depthEntries]
      rcases List.mem_cons.mp hmem with rfl | hmem
      · exact Nat.le_max_left _ _
      · exact (ih hmem).trans (Nat.le_max_right _ _)

mutual

/-- What is seen as data is nested at least as deep. -/
theorem depth_le_of_shows : ∀ {d e : Data}, viewer.Shows d e → d.depth ≤ e.depth
  | .atom x, e, _ => by
    rw [depth]
    exact e.depth_pos
  | .list items, e, h => by
    obtain ⟨as, hview, has⟩ := h
    cases e with
    | atom x => cases hview
    | map entries => cases hview
    | list items' =>
        cases hview
        rw [depth, depth]
        exact Nat.succ_le_succ (depthAll_le_of_showsAll has)
  | .map entries, e, h => by
    obtain ⟨seen, hview, hentries⟩ := h
    cases e with
    | atom x => cases hview
    | list items => cases hview
    | map entries' =>
        cases hview
        rw [depth, depth]
        exact Nat.succ_le_succ (depthEntries_le_of_showsEntries hentries)

theorem depthAll_le_of_showsAll : ∀ {ds es : List Data}, viewer.ShowsAll ds es →
    depthAll ds ≤ depthAll es
  | [], _, _ => Nat.zero_le _
  | d :: ds, _, h => by
    obtain ⟨e, es, rfl, he, hes⟩ := h
    have hhead := depth_le_of_shows he
    have htail := depthAll_le_of_showsAll hes
    rw [depthAll, depthAll]
    omega

theorem depthEntries_le_of_showsEntries : ∀ {entries seen : List (Atom × Data)},
    viewer.ShowsEntries entries seen → depthEntries entries ≤ depthEntries seen
  | [], _, _ => Nat.zero_le _
  | (k, d) :: entries, seen, h => by
    obtain ⟨⟨name, e, -, hfound, he⟩, hmore⟩ := h
    have hhead := (depth_le_of_shows he).trans (depth_le_of_lookup? hfound)
    have htail := depthEntries_le_of_showsEntries hmore
    rw [depthEntries]
    omega

end

theorem showsAll_map {f : Data → Data} {items : List Data}
    (h : ∀ d ∈ items, viewer.Shows d (f d)) : viewer.ShowsAll items (items.map f) := by
  induction items with
  | nil => rfl
  | cons d ds ih =>
      rw [List.forall_mem_cons] at h
      exact ⟨_, _, rfl, h.1, ih h.2⟩

/-- The fields of a map are seen wherever they stand. -/
theorem shows_ofFields_perm {f : Data → Data} {fields fields' : List (String × Data)}
    (hperm : fields'.Perm fields) (hnodup : (fields.map (·.1)).Nodup)
    (h : ∀ field ∈ fields, viewer.Shows field.2 (f field.2)) :
    viewer.Shows (.ofFields fields) (.ofFields (fields'.map fun field => (field.1, f field.2))) := by
  refine Viewer.shows_ofFields_iff.mpr ⟨_, rfl, fun field hfield => ⟨f field.2, ?_, h field hfield⟩⟩
  have hnodup' : ((fields'.map fun field => (field.1, f field.2)).map (·.1)).Nodup := by
    rw [List.map_map]
    exact (hperm.map (·.1)).nodup_iff.mpr hnodup
  have hmem : (field.1, f field.2) ∈ fields'.map fun field => (field.1, f field.2) :=
    List.mem_map_of_mem (hperm.mem_iff.mpr hfield)
  exact lookup?_of_mem hnodup' hmem

variable {limited : Bool} {d : Data}

theorem Json.Plain.shows_self (h : Plain limited d) : viewer.Shows d d := by
  induction h with
  | null => exact ⟨rfl, rfl⟩
  | bool b => exact ⟨rfl, rfl⟩
  | int h => exact ⟨rfl, rfl⟩
  | text s => exact ⟨rfl, rfl⟩
  | @list items h ih =>
      have hitems := showsAll_map (f := id) ih
      rw [List.map_id] at hitems
      exact ⟨items, rfl, hitems⟩
  | @map fields hdistinct h ih =>
      have hfields := shows_ofFields_perm (f := id) (.refl fields) hdistinct ih
      simpa using hfields

/-- Plain data is shown by itself with its keys sorted. -/
theorem Json.Plain.shows_sorted (h : Plain limited d) : viewer.Shows d (sorted d) := by
  induction h with
  | null => exact ⟨rfl, rfl⟩
  | bool b => exact ⟨rfl, rfl⟩
  | int h => exact ⟨rfl, rfl⟩
  | text s => exact ⟨rfl, rfl⟩
  | @list items h ih =>
      rw [sorted_list]
      exact ⟨_, rfl, showsAll_map ih⟩
  | @map fields hdistinct h ih =>
      rw [sorted_ofFields]
      exact shows_ofFields_perm (sortEntries_perm fields) hdistinct ih

end Data

/-! ## Trees are plain data -/

/-- A tree whose integers are within the limit on the number of digits: the lines of its nodes, and
the places of the lines beneath comments. -/
structure Node.Fits (limited : Bool) (tree : Node) : Prop where
  line : ∀ node ∈ tree.walk, ∀ n ∈ node.line, Json.Fits limited n
  comment : ∀ node ∈ tree.walk, ∀ text visible lines,
    node.content = .comment text visible lines →
      ∀ line ∈ flattenAll lines, Json.Fits limited line.depth ∧ Json.Fits limited line.index

section

variable {limited : Bool}

mutual

/-- A line whose numbers fit is written as plain data. -/
theorem Line.plain_toData : ∀ line : Line,
    (∀ inner ∈ line.flatten, Json.Fits limited inner.depth ∧ Json.Fits limited inner.index) →
      Plain limited line.toData
  | ⟨text, depth, index, children⟩, h => by
    rw [flatten, List.forall_mem_cons] at h
    have hchildren := Line.plain_allToData children h.2
    rw [Line.toData]
    refine .map (by simp) ?_
    simp only [List.forall_mem_cons, List.not_mem_nil, false_imp_iff, implies_true, and_true]
    exact ⟨.text text, .int h.1.1, .int h.1.2, .list hchildren⟩

theorem Line.plain_allToData : ∀ lines : List Line,
    (∀ inner ∈ flattenAll lines, Json.Fits limited inner.depth ∧ Json.Fits limited inner.index) →
      ∀ d ∈ Line.allToData lines, Plain limited d
  | [], _ => by simp [Line.allToData]
  | line :: lines, h => by
    rw [flattenAll, List.forall_mem_append] at h
    rw [Line.allToData, List.forall_mem_cons]
    exact ⟨Line.plain_toData line h.1, Line.plain_allToData lines h.2⟩

end

theorem Node.Fits.child {node child : Node} (h : node.Fits limited)
    (hchild : child ∈ node.children) : child.Fits limited where
  line inner hinner := h.line inner (mem_walk_of_child hchild hinner)
  comment inner hinner := h.comment inner (mem_walk_of_child hchild hinner)

theorem Content.plain_fields {content : Content} (h : ∀ text visible lines,
    content = .comment text visible lines →
      ∀ line ∈ flattenAll lines, Json.Fits limited line.depth ∧ Json.Fits limited line.index) :
    ∀ field ∈ content.fields, Plain limited field.2 := by
  cases content with
  | root => simp [Content.fields, Plain.text]
  | rule selectors =>
      simp only [Content.fields, List.forall_mem_cons]
      refine ⟨.text _, .list fun d hd => ?_, by simp⟩
      obtain ⟨text, -, rfl⟩ := List.mem_map.mp hd
      exact .text text
  | attr name value => simp [Content.fields, Plain.text]
  | comment text visible lines =>
      simp only [Content.fields, List.forall_mem_cons]
      exact ⟨.text _, .text _, .bool _, .list (Line.plain_allToData lines (h _ _ _ rfl)), by simp⟩
  | directive text => simp [Content.fields, Plain.text]

mutual

/-- A node whose numbers fit is written as plain data. -/
theorem Node.plain_toData : ∀ node : Node, node.Fits limited → Plain limited node.toData
  | ⟨content, line, filename, children⟩, h => by
    have hchildren := Node.plain_allToData children fun child hchild => h.child hchild
    have hcontent := Content.plain_fields (h.comment _ (Node.self_mem_walk _))
    have hline : Plain limited (Data.ofOption .int line) := by
      cases line with
      | none => exact .null
      | some n => exact .int (h.line _ (Node.self_mem_walk _) n rfl)
    have hfilename : Plain limited (Data.ofOption .text filename) := by
      cases filename with
      | none => exact .null
      | some path => exact .text path
    rw [Node.toData]
    refine .map (by cases content <;> simp [Content.fields]) ?_
    simp only [List.forall_mem_append, List.forall_mem_cons]
    exact ⟨⟨⟨hline, hfilename, by simp⟩, hcontent⟩, .list hchildren, by simp⟩

theorem Node.plain_allToData : ∀ nodes : List Node, (∀ node ∈ nodes, node.Fits limited) →
    ∀ d ∈ Node.allToData nodes, Plain limited d
  | [], _ => by simp [Node.allToData]
  | node :: nodes, h => by
    rw [List.forall_mem_cons] at h
    rw [Node.allToData, List.forall_mem_cons]
    exact ⟨Node.plain_toData node h.1, Node.plain_allToData nodes h.2⟩

end

end

/-! ## Saving and reading -/

namespace Node

/-- Without a limit every tree fits. -/
theorem fits_unlimited (tree : Node) : tree.Fits false :=
  ⟨fun _ _ _ _ => nofun, fun _ _ _ _ _ _ _ _ => ⟨nofun, nofun⟩⟩

/-- A closed tree is read back from all that shows its data. -/
theorem ofData_of_shows {tree : Node} (hclosed : tree.Closed) {d : Data}
    (h : Data.viewer.Shows tree.toData d) : ofData d = .ok tree := by
  have hfuel : tree.toData.depth ≤ d.depth + 1 := (depth_le_of_shows h).trans (Nat.le_succ _)
  rw [ofData, Data.complete, tree.completeTree_of_shows h hfuel]
  exact tree.ofComplete_toData hclosed

/-- A closed tree whose numbers fit is read back from its JSON text. -/
theorem ofJson_toJson {limited : Bool} {tree : Node} (hclosed : tree.Closed)
    (hfits : tree.Fits limited) : ofJson limited tree.toJson = .ok tree := by
  have hplain := tree.plain_toData hfits
  rw [ofJson, toJson, parseWith_render hplain]
  show (ofData (sorted tree.toData)).mapError SavedFault.data = _
  rw [ofData_of_shows hclosed hplain.shows_sorted]
  rfl

example : toJson ⟨.attr "p" "é", none, none, []⟩ =
    "\x7b\n  \"children\": [],\n  \"filename\": null,\n  \"line\": null,\n  \"name\": \"p\",\n" ++
      "  \"type\": \"attr\",\n  \"value\": \"\\u00e9\"\n\x7d" := by cbv

/-- A well-formed tree is closed. -/
theorem closed_of_wellFormed {tree : Node} (h : tree.WellFormed) : tree.Closed := by
  intro node hnode selectors hcontent
  rw [walk_eq] at hnode
  rcases List.mem_cons.mp hnode with rfl | hnode
  · rw [h.root] at hcontent
    cases hcontent
  · exact (h.settled node hnode).closed selectors hcontent

/-- **A saved tree is read back.** Every tree without a rule whose selector list is open is the tree
that is read from its data, and from its text: with the same types of nodes, the same fields, the same
lines beneath comments and the same order, whatever texts it holds. Only a limit on the length of
integers stands in the way, if there is one. No assembled tree has an open rule. -/
theorem read_saved :
    (∀ tree : Node, tree.Closed →
      ofData tree.toData = .ok tree ∧ ofJson false tree.toJson = .ok tree ∧
        (tree.Fits true → ofJson true tree.toJson = .ok tree)) ∧
    ∀ options disk template before limit tree after,
      assembleTemplate options disk template before limit = (.ok tree, after) → tree.Closed := by
  constructor
  · intro tree hclosed
    have hself := ofData_of_shows hclosed (tree.plain_toData tree.fits_unlimited).shows_self
    exact ⟨hself, ofJson_toJson hclosed tree.fits_unlimited, ofJson_toJson hclosed⟩
  · intro options disk template before limit tree after h
    obtain ⟨filename, nodes, rfl, hnodes⟩ :=
      document_yields (assemble_fit limit) template before tree after h
    exact closed_of_wellFormed (wellFormed_of_deep hnodes)

/-- A comment with a mark, a backslash and a character of two halves, over a line with a tabulator,
and a selector list over two lines. -/
theorem read_saved_of_comment_and_list :
    let tree : Node := ⟨.root, none, some "s.sass",
      [⟨.comment "/* \"\\𝄞" true [⟨"x\ty", 1, 2, []⟩], some 1, some "s.sass", []⟩,
        ⟨.rule ⟨["a", "b"], false⟩, some 3, some "s.sass",
          [⟨.attr "p" "", some 5, some "s.sass", [⟨.attr "q" "r", some 6, some "s.sass", []⟩]⟩]⟩,
        ⟨.directive "@page", some 7, some "s.sass", []⟩]⟩
    assembleTemplate { filename := "s.sass" } (Disk.ofKnown [])
        "/* \"\\𝄞\n  x\ty\na,\nb\n  :p\n    :q r\n@page" = (.ok tree, {}) ∧
      tree.Closed ∧ tree.Fits true ∧ ofData tree.toData = .ok tree ∧
      ofJson true tree.toJson = .ok tree := by
  intro tree
  have h : assembleTemplate { filename := "s.sass" } (Disk.ofKnown [])
      "/* \"\\𝄞\n  x\ty\na,\nb\n  :p\n    :q r\n@page" = (.ok tree, {}) := by
    dsimp only [tree]
    cbv
  have hclosed : tree.Closed := read_saved.2 _ _ _ _ _ _ _ h
  have hfits : tree.Fits true := by
    constructor
    · intro node hnode n hn _
      simp only [tree, walk, walkAll, List.append_nil, List.cons_append, List.nil_append,
        List.mem_cons, List.not_mem_nil, or_false] at hnode
      rcases hnode with rfl | rfl | rfl | rfl | rfl | rfl <;> cases hn <;> decide
    · intro node hnode text visible lines hcontent line hline
      simp only [tree, walk, walkAll, List.append_nil, List.cons_append, List.nil_append,
        List.mem_cons, List.not_mem_nil, or_false] at hnode
      rcases hnode with rfl | rfl | rfl | rfl | rfl | rfl <;> cases hcontent
      obtain rfl : line = ⟨"x\ty", 1, 2, []⟩ := by simpa [flattenAll, flatten] using hline
      exact ⟨fun _ => by decide, fun _ => by decide⟩
  obtain ⟨hdata, -, hjson⟩ := read_saved.1 tree hclosed
  exact ⟨h, hclosed, hfits, hdata, hjson hfits⟩

end Node

end Stylesheet
