import Mathlib
import Stylesheet.Proofs.Data.Yaml.Values
import Stylesheet.Proofs.Line.RoundTrip
import Stylesheet.Proofs.Node.Json

/-!
# Trees through YAML

A tree is written as maps in blocks, so that the texts of a node are indented the further the deeper it
is nested. What is read back is the tree with its brittle texts changed; up to a depth of about forty
levels no text is brittle.

* `Node.toData_reread` : the data of the tree that is read back is what its data is read back as.
* `Node.read_written` : the tree that is read back, and when it is the tree that was written.
-/

namespace Stylesheet

open Assembly Data Data.Yaml Line

/-! ## Trees are writable data -/

/-- The names of the fields of nodes and lines may stand as names of entries. -/
theorem isName_field {name : String} (h : name ∈ ["line", "filename", "type", "rules", "name",
    "value", "text", "output", "lines", "children", "depth", "index"] := by decide) :
    isName name.toList := by
  have hall : ∀ name ∈ ["line", "filename", "type", "rules", "name", "value", "text", "output",
      "lines", "children", "depth", "index"], isName name.toList := by decide +kernel
  exact hall name h

/-- Lines are maps. -/
theorem Line.allToData_ne_list (lines : List Line) :
    ∀ d ∈ Line.allToData lines, ∀ items, d ≠ .list items := by
  rw [Line.allToData_eq]
  intro d hd
  obtain ⟨⟨text, depth, index, children⟩, -, rfl⟩ := List.mem_map.mp hd
  rw [Line.toData]
  exact nofun

/-- Nodes are maps. -/
theorem Node.allToData_ne_list (nodes : List Node) :
    ∀ d ∈ Node.allToData nodes, ∀ items, d ≠ .list items := by
  rw [Node.allToData_eq]
  intro d hd
  obtain ⟨⟨content, line, filename, children⟩, -, rfl⟩ := List.mem_map.mp hd
  rw [Node.toData]
  exact nofun

mutual

/-- A line is written as data that YAML can hold. -/
theorem Line.writable_toData : ∀ line : Line,
    (∀ inner ∈ line.flatten, Json.Fits true inner.depth ∧ Json.Fits true inner.index) →
      Writable line.toData
  | ⟨text, depth, index, children⟩, h => by
    rw [Line.flatten, List.forall_mem_cons] at h
    have hchildren := Line.writable_allToData children h.2
    rw [Line.toData]
    refine .map (List.cons_ne_nil _ _) (by simp) ?_ ?_ ?_ <;> simp only [List.forall_mem_cons]
    · exact ⟨isName_field, isName_field, isName_field, isName_field, by simp⟩
    · exact ⟨.text text, .int h.1.1, .int h.1.2,
        .list hchildren (Line.allToData_ne_list children), by simp⟩
    · exact ⟨nofun, nofun, nofun, nofun, by simp⟩

theorem Line.writable_allToData : ∀ lines : List Line,
    (∀ inner ∈ Line.flattenAll lines, Json.Fits true inner.depth ∧ Json.Fits true inner.index) →
      ∀ d ∈ Line.allToData lines, Writable d
  | [], _ => by simp [Line.allToData]
  | line :: lines, h => by
    rw [Line.flattenAll, List.forall_mem_append] at h
    rw [Line.allToData, List.forall_mem_cons]
    exact ⟨Line.writable_toData line h.1, Line.writable_allToData lines h.2⟩

end

/-- A content's fields have names that are written plain and values that YAML can hold. -/
theorem Content.writable_fields {content : Content} (h : ∀ text visible lines,
    content = .comment text visible lines →
      ∀ line ∈ Line.flattenAll lines, Json.Fits true line.depth ∧ Json.Fits true line.index) :
    ∀ field ∈ content.fields, isName field.1.toList ∧ Writable field.2 ∧
      ∀ entries, field.2 ≠ .map entries := by
  have of_text {name text : String} (hname : isName name.toList) :
      isName name.toList ∧ Writable (.text text) ∧ ∀ entries, Data.text text ≠ .map entries :=
    ⟨hname, .text text, nofun⟩
  cases content <;> simp only [Content.fields, List.forall_mem_cons]
  case root => exact ⟨of_text isName_field, by simp⟩
  case rule selectors =>
    refine ⟨of_text isName_field, ⟨isName_field, .list (fun d hd => ?_) fun d hd => ?_, nofun⟩,
      by simp⟩ <;> obtain ⟨text, -, rfl⟩ := List.mem_map.mp hd
    · exact .text text
    · exact nofun
  case attr name value =>
    exact ⟨of_text isName_field, of_text isName_field, of_text isName_field, by simp⟩
  case comment text visible lines =>
    have hlines := Line.writable_allToData lines (h _ _ _ rfl)
    exact ⟨of_text isName_field, of_text isName_field, ⟨isName_field, .bool _, nofun⟩,
      ⟨isName_field, .list hlines (Line.allToData_ne_list lines), nofun⟩, by simp⟩
  case directive text => exact ⟨of_text isName_field, of_text isName_field, by simp⟩

mutual

/-- A node is written as data that YAML can hold. -/
theorem Node.writable_toData : ∀ node : Node, node.Fits true → Writable node.toData
  | ⟨content, line, filename, children⟩, h => by
    have hchildren := Node.writable_allToData children fun child hchild => h.child hchild
    have hcontent := Content.writable_fields (h.comment _ (Node.self_mem_walk _))
    have hline : Writable (Data.ofOption .int line) := by
      cases line with
      | none => exact .null
      | some n => exact .int (h.line _ (Node.self_mem_walk _) n rfl)
    have hfilename : Writable (Data.ofOption .text filename) := by
      cases filename with
      | none => exact .null
      | some path => exact .text path
    have hatom {α : Type} {f : α → Atom} (a : Option α) (entries : List (Atom × Data)) :
        Data.ofOption (fun a => .atom (f a)) a ≠ .map entries := by
      cases a <;> exact nofun
    rw [Node.toData]
    refine .map (by simp) (by cases content <;> simp [Content.fields]) ?_ ?_ ?_ <;>
      simp only [List.forall_mem_append, List.forall_mem_cons]
    · exact ⟨⟨⟨isName_field, isName_field, by simp⟩, fun field hfield => (hcontent field hfield).1⟩,
        isName_field, by simp⟩
    · exact ⟨⟨⟨hline, hfilename, by simp⟩, fun field hfield => (hcontent field hfield).2.1⟩,
        .list hchildren (Node.allToData_ne_list children), by simp⟩
    · exact ⟨⟨⟨hatom line, hatom filename, by simp⟩, fun field hfield => (hcontent field hfield).2.2⟩,
        nofun, by simp⟩

theorem Node.writable_allToData : ∀ nodes : List Node, (∀ node ∈ nodes, node.Fits true) →
    ∀ d ∈ Node.allToData nodes, Writable d
  | [], _ => by simp [Node.allToData]
  | node :: nodes, h => by
    rw [List.forall_mem_cons] at h
    rw [Node.allToData, List.forall_mem_cons]
    exact ⟨Node.writable_toData node h.1, Node.writable_allToData nodes h.2⟩

end

/-! ## Trees as they are read back -/

mutual

def Line.reread (indent : Nat) : Line → Line
  | ⟨text, depth, index, children⟩ =>
    ⟨rereadText (indent + 2) text, depth, index, Line.rereadAll (indent + 2) children⟩

def Line.rereadAll (indent : Nat) : List Line → List Line
  | [] => []
  | line :: lines => line.reread indent :: Line.rereadAll indent lines

end

def Content.reread (indent : Nat) : Content → Content
  | root => root
  | rule selectors => rule { selectors with rules := selectors.rules.map (rereadText indent) }
  | attr name value => attr (rereadText indent name) (rereadText indent value)
  | comment words visible lines =>
    comment (rereadText indent words) visible (Line.rereadAll indent lines)
  | directive words => directive (rereadText indent words)

mutual

/-- What a tree is read back as, if its map is indented by a depth. -/
def Node.reread (indent : Nat) : Node → Node
  | ⟨content, line, filename, children⟩ =>
    ⟨content.reread (indent + 2), line, filename.map (rereadText (indent + 2)),
      Node.rereadAll (indent + 2) children⟩

def Node.rereadAll (indent : Nat) : List Node → List Node
  | [] => []
  | node :: nodes => node.reread indent :: Node.rereadAll indent nodes

end

/-- The names of the types of nodes come back wherever they stand. -/
theorem reread_type (indent : Nat) (name : String)
    (h : name ∈ ["root", "rule", "attr", "comment", "directive"] := by decide) :
    Yaml.reread indent (.text name) = .text name := by
  have hplain : ∀ name ∈ ["root", "rule", "attr", "comment", "directive"],
      isPlain name.toList = true := by decide +kernel
  rw [Yaml.reread, rereadText, Quoted.reread, hplain name h, Bool.true_or, if_pos rfl,
    String.ofList_toList]

mutual

/-- Reading a line back changes its data as it changes the line. -/
theorem Line.toData_reread (indent : Nat) : ∀ line : Line,
    (line.reread indent).toData = Yaml.reread indent line.toData
  | ⟨text, depth, index, children⟩ => by
    rw [Line.reread, Line.toData, Line.toData, reread_ofFields]
    simp only [List.map_cons, List.map_nil, Yaml.reread,
      Line.allToData_rereadAll (indent + 2) children]

theorem Line.allToData_rereadAll (indent : Nat) : ∀ lines : List Line,
    Line.allToData (Line.rereadAll indent lines) = rereadItems indent (Line.allToData lines)
  | [] => rfl
  | line :: lines => by
    rw [Line.rereadAll, Line.allToData, Line.allToData, rereadItems, Line.toData_reread indent line,
      Line.allToData_rereadAll indent lines]

end

theorem Content.fields_reread (indent : Nat) (content : Content) :
    (content.reread indent).fields =
      content.fields.map fun field => (field.1, Yaml.reread indent field.2) := by
  cases content <;> simp only [Content.reread, Content.fields, List.map_cons, List.map_nil]
  case root => rw [reread_type indent "root"]
  case rule selectors =>
    rw [reread_type indent "rule"]
    simp [Yaml.reread, rereadItems_eq, Function.comp_def]
  case attr name value =>
    rw [reread_type indent "attr"]
    rfl
  case comment words visible lines =>
    rw [reread_type indent "comment", Line.allToData_rereadAll]
    rfl
  case directive words =>
    rw [reread_type indent "directive"]
    rfl

mutual

/-- The data of a tree that is read back is what its data is read back as. -/
theorem Node.toData_reread (indent : Nat) : ∀ node : Node,
    (node.reread indent).toData = Yaml.reread indent node.toData
  | ⟨content, line, filename, children⟩ => by
    have hline : Yaml.reread (indent + 2) (Data.ofOption .int line) = Data.ofOption .int line := by
      cases line <;> rfl
    have hfilename : Yaml.reread (indent + 2) (Data.ofOption .text filename) =
        Data.ofOption .text (filename.map (rereadText (indent + 2))) := by
      cases filename <;> rfl
    rw [Node.reread, Node.toData, Node.toData, reread_ofFields]
    simp only [List.map_append, List.map_cons, List.map_nil, hline, hfilename,
      Content.fields_reread, Yaml.reread, Node.allToData_rereadAll (indent + 2) children]

theorem Node.allToData_rereadAll (indent : Nat) : ∀ nodes : List Node,
    Node.allToData (Node.rereadAll indent nodes) = rereadItems indent (Node.allToData nodes)
  | [] => rfl
  | node :: nodes => by
    rw [Node.rereadAll, Node.allToData, Node.allToData, rereadItems, Node.toData_reread indent node,
      Node.allToData_rereadAll indent nodes]

end

mutual

/-- Every node that is read back was a node of the tree. -/
theorem Node.mem_walk_reread (indent : Nat) : ∀ (node : Node) {inner : Node},
    inner ∈ (node.reread indent).walk → ∃ depth, ∃ old ∈ node.walk, inner = old.reread depth
  | ⟨content, line, filename, children⟩, inner, h => by
    rw [Node.walk_eq] at h ⊢
    rcases List.mem_cons.mp h with rfl | h
    · exact ⟨indent, _, List.mem_cons_self, rfl⟩
    · obtain ⟨depth, old, hold, rfl⟩ := Node.mem_walkAll_reread (indent + 2) children h
      exact ⟨depth, old, List.mem_cons_of_mem _ hold, rfl⟩

/-- Each node of a forest that was read back comes from one that was written. -/
theorem Node.mem_walkAll_reread (indent : Nat) : ∀ (nodes : List Node) {inner : Node},
    inner ∈ Node.walkAll (Node.rereadAll indent nodes) →
      ∃ depth, ∃ old ∈ Node.walkAll nodes, inner = old.reread depth
  | [], _, h => by cases h
  | node :: nodes, inner, h => by
    rw [Node.rereadAll, Node.walkAll, List.mem_append] at h
    rw [Node.walkAll]
    rcases h with h | h
    · obtain ⟨depth, old, hold, rfl⟩ := Node.mem_walk_reread indent node h
      exact ⟨depth, old, List.mem_append_left _ hold, rfl⟩
    · obtain ⟨depth, old, hold, rfl⟩ := Node.mem_walkAll_reread indent nodes h
      exact ⟨depth, old, List.mem_append_right _ hold, rfl⟩

end

namespace Node

/-- No rule is open that was not. -/
theorem Closed.reread {tree : Node} (h : tree.Closed) (indent : Nat) :
    (tree.reread indent).Closed := by
  intro node hnode selectors hcontent
  obtain ⟨depth, ⟨content, line, filename, children⟩, hold, rfl⟩ := tree.mem_walk_reread indent hnode
  cases content <;> simp only [Node.reread, Content.reread, reduceCtorEq] at hcontent
  case rule selectors' =>
    obtain rfl := Content.rule.inj hcontent
    exact h _ hold selectors' rfl

/-- Trees without open rules are told apart by their data. -/
theorem toData_inj {tree tree' : Node} (h : tree.Closed) (h' : tree'.Closed) :
    tree.toData = tree'.toData ↔ tree = tree' := by
  refine ⟨fun heq => ?_, fun heq => heq ▸ rfl⟩
  have hread := tree.ofComplete_toData h
  rw [heq, tree'.ofComplete_toData h'] at hread
  exact (Except.ok.inj hread).symm

/-- What is read back of a tree. -/
theorem ofGraph_parse_render {tree : Node} (hclosed : tree.Closed) (hfits : tree.Fits true) :
    ∃ g, Data.Yaml.parse (Data.Yaml.render tree.toData) = .ok g ∧
      ofGraph g = .ok (tree.reread 0) := by
  have hmap : ∃ entries, tree.toData = .map entries := by
    obtain ⟨content, line, filename, children⟩ := tree
    exact ⟨_, by rw [Node.toData, ofFields]⟩
  obtain ⟨g, hparse, hshows, hfuel⟩ := Data.Yaml.parse_render (tree.writable_toData hfits) hmap
  rw [← tree.toData_reread] at hshows hfuel
  refine ⟨g, hparse, ?_⟩
  rw [ofGraph, Graph.complete, (tree.reread 0).completeTree_of_shows hshows hfuel]
  exact (tree.reread 0).ofComplete_toData (hclosed.reread 0)

/-- **A tree that is written is read back**, with the same types of nodes, the same fields and the same
order, whatever texts it holds, unless one of them is brittle where it stands; then that text comes back
changed, and everything else as it was. -/
theorem read_written (options : Options) (disk : Disk) (template : String) (before : State)
    (limit : Nat) (tree : Node) (after : State)
    (h : assembleTemplate options disk template before limit = (.ok tree, after))
    (hfits : tree.Fits true) :
    ∃ g, Data.Yaml.parse (Data.Yaml.render tree.toData) = .ok g ∧
      ofGraph g = .ok (tree.reread 0) ∧
      (tree.reread 0 = tree ↔ ∀ place ∈ Data.Yaml.texts 0 tree.toData,
        Quoted.isBrittle place.1 place.2.toList = false) := by
  have hclosed : tree.Closed := by
    obtain ⟨filename, nodes, rfl, hnodes⟩ :=
      document_yields (assemble_fit limit) template before tree after h
    exact closed_of_wellFormed (wellFormed_of_deep hnodes)
  obtain ⟨g, hparse, hread⟩ := ofGraph_parse_render hclosed hfits
  refine ⟨g, hparse, hread, ?_⟩
  rw [← toData_inj (hclosed.reread 0) hclosed, toData_reread]
  exact reread_eq_self_iff 0 _

set_option maxRecDepth 2000 in
/-- A selector with marks around it, words that stand for other values, indicators, a line that has to be
broken, and a comment like a list of null and a number. -/
theorem read_written_of_words_and_indicators :
    let tree : Node := ⟨.root, none, some "s.sass",
      [⟨.rule ⟨["a", "\"é\""], false⟩, some 1, some "s.sass",
          [⟨.attr "b" "yes", some 3, some "s.sass", []⟩,
            ⟨.attr "c" "2001-01-01", some 4, some "s.sass", []⟩,
            ⟨.attr "d" ("- x: #, é & a word that is so long that the line it stands in has to be " ++
              "broken somewhere"), some 5, some "s.sass", []⟩]⟩,
        ⟨.comment "/* ~" true [⟨"- 012", 1, 7, []⟩], some 6, some "s.sass", []⟩]⟩
    assembleTemplate { filename := "s.sass" } (Disk.ofKnown [])
        ("a,\n\"é\"\n  :b yes\n  :c 2001-01-01\n  :d - x: #, é & a word that is so long that the " ++
          "line it stands in has to be broken somewhere\n/* ~\n  - 012") = (.ok tree, {}) ∧
      tree.Fits true ∧
      ∃ g, Data.Yaml.parse (Data.Yaml.render tree.toData) = .ok g ∧ ofGraph g = .ok tree := by
  intro tree
  have h : assembleTemplate { filename := "s.sass" } (Disk.ofKnown [])
      ("a,\n\"é\"\n  :b yes\n  :c 2001-01-01\n  :d - x: #, é & a word that is so long that the " ++
        "line it stands in has to be broken somewhere\n/* ~\n  - 012") = (.ok tree, {}) := by
    dsimp only [tree]
    cbv
  have hfits : tree.Fits true := by
    constructor
    · intro node hnode n hn _
      simp only [tree, walk, walkAll, List.append_nil, List.cons_append, List.nil_append,
        List.mem_cons, List.not_mem_nil, or_false] at hnode
      rcases hnode with rfl | rfl | rfl | rfl | rfl | rfl <;> cases hn <;> decide
    · intro node hnode text visible lines hcontent line hline
      simp only [tree, walk, walkAll, List.append_nil, List.cons_append, List.nil_append,
        List.mem_cons, List.not_mem_nil, or_false] at hnode
      rcases hnode with rfl | rfl | rfl | rfl | rfl | rfl <;> cases hcontent
      obtain rfl : line = ⟨"- 012", 1, 7, []⟩ := by
        simpa [Line.flattenAll, Line.flatten] using hline
      exact ⟨fun _ => by decide, fun _ => by decide⟩
  have hsturdy : ∀ place ∈ Data.Yaml.texts 0 tree.toData,
      Quoted.isBrittle place.1 place.2.toList = false := by decide +kernel
  obtain ⟨g, hparse, hread, hsame⟩ := read_written _ _ _ _ _ _ _ h hfits
  exact ⟨h, hfits, g, hparse, by rw [hread, hsame.mpr hsturdy]⟩

/-! ### Deep trees -/

/-- A value within as many rules as given, whose lines are counted from a number on. -/
def nested (value : String) (number : Nat) : Nat → Node
  | 0 => ⟨.attr "p" value, some number, none, []⟩
  | rules + 1 => ⟨.rule ⟨["a"], false⟩, some number, none, [nested value (number + 1) rules]⟩

theorem mem_walk_nested {value : String} {number rules : Nat} {node : Node}
    (h : node ∈ (nested value number rules).walk) :
    (∃ n, n ≤ number + rules ∧ node.line = some (n : Int)) ∧
      (node.content = .attr "p" value ∨ node.content = .rule ⟨["a"], false⟩) := by
  induction rules generalizing number with
  | zero =>
      obtain rfl : node = nested value number 0 := by simpa [nested, walk_eq, walkAll] using h
      exact ⟨⟨number, Nat.le_refl _, rfl⟩, .inl rfl⟩
  | succ rules ih =>
      rw [walk_eq, List.mem_cons] at h
      rcases h with rfl | h
      · exact ⟨⟨number, Nat.le_add_right _ _, rfl⟩, .inr rfl⟩
      · obtain ⟨⟨n, hn, hline⟩, hcontent⟩ := ih (by simpa [nested, walkAll] using h)
        exact ⟨⟨n, by omega, hline⟩, hcontent⟩

/-- A text that is written plain comes back unchanged. -/
theorem rereadText_of_isPlain {s : String} (h : isPlain s.toList) (indent : Nat) :
    rereadText indent s = s := by
  rw [rereadText, Quoted.reread, if_pos (by simp [h]), String.ofList_toList]

/-- Reading nested rules back changes the innermost value only. -/
theorem reread_nested (value : String) (number indent rules : Nat) :
    (nested value number rules).reread indent =
      nested (rereadText (indent + 2 * rules + 2) value) number rules := by
  induction rules generalizing indent number with
  | zero =>
      have hname := rereadText_of_isPlain (s := "p") (by decide +kernel) (indent + 2)
      rw [nested, nested, reread, Content.reread, hname]
      rfl
  | succ rules ih =>
      have hselector := rereadText_of_isPlain (s := "a") (by decide +kernel) (indent + 2)
      have hindent : indent + 2 * (rules + 1) + 2 = indent + 2 + 2 * rules + 2 := by omega
      rw [nested, nested, reread, rereadAll, rereadAll, ih, Content.reread, hindent]
      simp only [List.map_cons, List.map_nil, hselector, Option.map_none]

theorem length_toString_le : ∀ n ≤ 101, (toString n).length ≤ Number.maxDigits := by
  decide +kernel

/-- No rule of a nested value is open, and its numbers can be written. -/
theorem closed_and_fits_nested (value : String) {rules : Nat} (h : rules ≤ 100) :
    Closed ⟨.root, none, none, [nested value 1 rules]⟩ ∧
      Fits true ⟨.root, none, none, [nested value 1 rules]⟩ := by
  have hwalk : ∀ node ∈ walk ⟨.root, none, none, [nested value 1 rules]⟩,
      node = ⟨.root, none, none, [nested value 1 rules]⟩ ∨
        node ∈ (nested value 1 rules).walk := by
    intro node hnode
    rw [walk_eq, List.mem_cons] at hnode
    simpa [walkAll] using hnode
  refine ⟨fun node hnode selectors hcontent => ?_, fun node hnode n hn _ => ?_,
    fun node hnode text visible lines hcontent => ?_⟩
  · rcases hwalk node hnode with rfl | hnode
    · cases hcontent
    · rcases (mem_walk_nested hnode).2 with hattr | hrule
      · rw [hattr] at hcontent
        cases hcontent
      · rw [hrule] at hcontent
        cases hcontent
        rfl
  · rcases hwalk node hnode with rfl | hnode
    · cases hn
    · obtain ⟨⟨m, hm, hline⟩, -⟩ := mem_walk_nested hnode
      rw [hline] at hn
      cases hn
      exact length_toString_le m (by omega)
  · rcases hwalk node hnode with rfl | hnode
    · cases hcontent
    · rcases (mem_walk_nested hnode).2 with hattr | hrule
      · rw [hattr] at hcontent
        cases hcontent
      · rw [hrule] at hcontent
        cases hcontent

/-! The template that a nested value is assembled from -/

/-- An attribute within as many rules as given, whose lines are counted from a number on. -/
def nestedLine (text : String) (depth number : Nat) : Nat → Line
  | 0 => ⟨text, depth, number, []⟩
  | rules + 1 => ⟨"a", depth, number, [nestedLine text (depth + 1) (number + 1) rules]⟩

/-- A template of which every line is indented by a space more than the one before it. -/
def nestedTemplate (text : String) (rules : Nat) : String :=
  String.ofList (joinLines (fun _ => .lineFeed) (writtenAll [' '] 0 [nestedLine text 0 1 rules]))

example : nestedTemplate ":p q" 2 = "a\n a\n  :p q" := by cbv

theorem placedAll_nestedLine (text : String) (depth number rules : Nat) :
    placedAll depth number [nestedLine text depth number rules] =
      [nestedLine text depth number rules] := by
  induction rules generalizing depth number with
  | zero => simp [nestedLine, placedAll]
  | succ rules ih => simp [nestedLine, placedAll, ih]

theorem isWritable_nestedLine {text : String} (h : IsLineText text.toList)
    (depth number rules : Nat) : IsWritable [nestedLine text depth number rules] := by
  have hnil : IsWritable [] := by simp [IsWritable]
  induction rules generalizing depth number with
  | zero => exact isWritable_cons_iff.mpr ⟨h, hnil, hnil⟩
  | succ rules ih =>
      have hselector : IsLineText "a".toList := ⟨by simp, ⟨by simp, by simp⟩, by decide⟩
      exact isWritable_cons_iff.mpr ⟨hselector, ih (depth + 1) (number + 1), hnil⟩

/-- The template of nested rules is read as the nested lines. -/
theorem parseLines_nestedTemplate {text : String} (h : IsLineText text.toList)
    (hroot : ¬ ['/', '/'] <+: text.toList) (rules : Nat) :
    parseLines (nestedTemplate text rules).toList = .ok [nestedLine text 0 1 rules] := by
  have hu : IsBlankUnit [' '] :=
    ⟨⟨by simp, by simp⟩, by simp [Text.isBlank], by simp, by simp⟩
  have hwritable := isWritable_nestedLine h 0 1 rules
  have hroots : ∀ line ∈ [nestedLine text 0 1 rules], ¬ ['/', '/'] <+: line.text.toList := by
    rw [List.forall_mem_singleton]
    cases rules with
    | zero => exact hroot
    | succ rules => simp [nestedLine]
  have hlevelled := levelled_placedAll 0 1 [nestedLine text 0 1 rules]
  have htabulated := tabulated_written hu 0 1 hwritable
  rw [placedAll_nestedLine] at hlevelled htabulated
  rw [nestedTemplate, String.toList_ofList]
  refine parseLines_eq_ok_iff.mpr ⟨hlevelled, _, hu.toIsUnit, ?_⟩
  rw [keptLines_written hu hwritable hroots]
  exact htabulated

/-- Nested rules are assembled into nested nodes, line by line. -/
theorem arrange_nestedLine (elsewhere : Elsewhere) (disk : Disk) (root : Bool) (state : State)
    (depth number rules : Nat) :
    (arrange elsewhere { options := {}, disk } root none
        [nestedLine ":p aé bc" depth number rules]).outcome state =
      (.ok [nested "aé bc" number rules], state) := by
  induction rules generalizing root depth number with
  | zero =>
      have hmeaning : meaning elsewhere { options := {}, disk } ⟨":p aé bc", depth, number, []⟩ =
          pure (.item (.attr "p" "aé bc")) := by cbv
      rw [nestedLine, arrange_cons, build_eq, hmeaning]
      cases root <;> rfl
  | succ rules ih =>
      have hmeaning : meaning elsewhere { options := {}, disk }
          ⟨"a", depth, number, [nestedLine ":p aé bc" (depth + 1) (number + 1) rules]⟩ =
            pure (.item (.rule ⟨["a"], false⟩)) := by cbv
      have hnested (line : Option Int) (content : Content) :
          refuseNested line (.item content) = pure () := by cases line <;> rfl
      rw [nestedLine, arrange_cons, build_eq, hmeaning, pure_bind, hnested]
      simp only [beneath, bind_assoc, pure_bind]
      rw [outcome_bind, ih]
      rfl

/-- A value in the innermost of many rules comes back with a backslash and a space more. -/
theorem deep_value_comes_back_changed :
    assembleTemplate {} (Disk.ofKnown []) (nestedTemplate ":p aé bc" 38) =
        (.ok ⟨.root, none, none, [nested "aé bc" 1 38]⟩, {}) ∧
      ∃ g, Data.Yaml.parse
          (Data.Yaml.render (Node.toData ⟨.root, none, none, [nested "aé bc" 1 38]⟩)) = .ok g ∧
        ofGraph g = .ok ⟨.root, none, none, [nested "aé\\  bc" 1 38]⟩ ∧
        (⟨.root, none, none, [nested "aé\\  bc" 1 38]⟩ : Node) ≠
          ⟨.root, none, none, [nested "aé bc" 1 38]⟩ := by
  have hassembled : assembleTemplate {} (Disk.ofKnown []) (nestedTemplate ":p aé bc" 38) =
      (.ok ⟨.root, none, none, [nested "aé bc" 1 38]⟩, {}) := by
    have htext : IsLineText ":p aé bc".toList := ⟨by simp, ⟨by simp, by simp⟩, by decide⟩
    have hparse := parseLines_nestedTemplate htext (by simp) 38
    have hassemble : assemble nestingLimit = fun context root lines =>
        arrange (assemble 9999) context root none lines := rfl
    rw [assembleTemplate, document, hparse, hassemble, outcome_mapDiagnostic]
    dsimp only
    rw [outcome_bind, arrange_nestedLine]
    rfl
  have hvalue : rereadText 80 "aé bc" = "aé\\  bc" := by decide +kernel
  obtain ⟨hclosed, hfits⟩ := closed_and_fits_nested "aé bc" (show 38 ≤ 100 by decide)
  obtain ⟨g, hparse, hread⟩ := ofGraph_parse_render hclosed hfits
  rw [reread, rereadAll, rereadAll, reread_nested, hvalue] at hread
  refine ⟨hassembled, g, hparse, hread, fun h => ?_⟩
  have hne : nested "aé\\  bc" 1 38 ≠ nested "aé bc" 1 38 := by
    simp [nested]
  exact hne (by simpa using h)

end Node

end Stylesheet
