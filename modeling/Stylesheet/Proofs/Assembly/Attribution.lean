import Mathlib
import Stylesheet.Proofs.Assembly.Provenance

/-!
# Where nodes come from

A node knows the number of the line that it was built from, and the file that was being compiled at
the time. The line stands in this file unless it is in the body of a mixin. Mixins are handed on
from file to file: the number in a node is then that of the file in which the mixin is defined, and
the filename that of the file which includes it.

* `Sources.gives_started` : a node names the line that starts it, also where others continue it.
* `attribution_of_assembleTemplate` : the nodes of a tree.
* `attribution_of_single_file` : a stylesheet in one file, where file and line belong together.
-/

namespace Stylesheet

variable {src : Sources} {line : Line}

/-! ## Lines by themselves -/

/-- The line writes the content, and with any more selectors if it leaves them open. -/
structure Line.Starts (src : Sources) (line : Line) (content : Content) : Prop where
  writes : line.Writes src content
  extends_to : ∀ selectors, content = .rule selectors → selectors.continued = true →
    ∀ more continued, line.Writes src (.rule ⟨selectors.rules ++ more, continued⟩)

theorem Line.starts_rule (hshape : Shape.of line.text.toList = .rule) :
    line.Starts src (.rule (.ofText line.text.toList)) where
  writes := by
    have h := @Line.Writes.rule src line [] (SelectorList.ofText line.text.toList).continued hshape
      nofun
    rwa [List.append_nil] at h
  extends_to selectors heq hcontinued more continued := by
    cases heq
    exact .rule hshape fun _ => hcontinued

theorem Line.starts_escapedRule (hshape : Shape.of line.text.toList = .escapedRule) :
    line.Starts src (.rule (.ofText (line.text.toList.drop 1))) where
  writes := by
    have h := @Line.Writes.escapedRule src line []
      (SelectorList.ofText (line.text.toList.drop 1)).continued hshape nofun
    rwa [List.append_nil] at h
  extends_to selectors heq hcontinued more continued := by
    cases heq
    exact .escapedRule hshape fun _ => hcontinued

theorem Line.Tells.starts {content : Content} (h : line.Tells src content) :
    line.Starts src content := by
  cases h with
  | rule hshape => exact starts_rule hshape
  | escapedRule hshape => exact starts_escapedRule hshape
  -- what is no rule has no selectors that more could be added to
  | other hwrites hrule => exact ⟨hwrites, fun selectors heq => absurd heq (hrule selectors)⟩

/-! ## Siblings -/

/-- The line with the number may be assembled for the file, and it starts the node. -/
def Sources.Started (src : Sources) : Trait := fun filename number content =>
  ∃ line : Line, number = some line.index ∧ line.Starts src content ∧ src.Allows filename line

/-- A rule that continues an open one comes from the line of the open one. -/
theorem Sources.gives_started : src.Gives src.Started where
  told hallows htells := ⟨_, rfl, htells.starts, hallows⟩
  joined := by
    rintro filename filename' number number' selectors more ⟨line, hindex, hstarts, hallows⟩ hopen -
    have hwrites := hstarts.extends_to _ rfl hopen
    refine ⟨line, hindex, ⟨hwrites more.rules more.continued, ?_⟩, hallows⟩
    intro joined heq _ rest continued
    cases heq
    rw [SelectorList.append, List.append_assoc]
    exact hwrites _ _

/-! ## Trees -/

variable {options : Options} {disk : Disk} {template : String} {start after : State} {limit : Nat}
  {tree : Node}

/-- Every node of an assembled tree is attributed to a line that the run could have read. -/
theorem attributesAll_of_assembleTemplate
    (h : assembleTemplate options disk template start limit = (.ok tree, after)) :
    Sources.AttributesAll ⟨options, disk, template, start.mixins⟩ tree.children := by
  intro node hnode
  obtain ⟨line, hindex, hstarts, hallows⟩ :=
    Trait.on_of_assembleTemplate Sources.gives_started h node hnode
  exact ⟨line, ⟨hindex, hstarts.writes⟩, hallows⟩

/-- **Where the nodes of a tree come from.** Every node beneath the root has the number of a line
that writes it, and the name of a file that was compiled. The line stands in this file, unless the
file includes mixins and the line is in the body of one: of a mixin that some file defines, or of
one that the compilation started with. -/
theorem attribution_of_assembleTemplate
    (h : assembleTemplate options disk template start limit = (.ok tree, after)) :
    let src : Sources := ⟨options, disk, template, start.mixins⟩
    ∀ node ∈ Node.walkAll tree.children, ∃ (line : Line) (text : String),
      node.line = some line.index ∧ line.Writes src node.content ∧ src.Reads node.filename text ∧
      (line.StandsIn text ∨
        (∃ inclusion : Line, inclusion.StandsIn text ∧
          Shape.of inclusion.text.toList = .mixinInclusion) ∧
        ((∃ (other : Option String) (otherText : String) (definition : Line),
            src.Reads other otherText ∧ definition.StandsIn otherText ∧
            Shape.of definition.text.toList = .mixinDefinition ∧
            line.Within definition.children ∧ line.StandsIn otherText) ∨
          ∃ name body, (name, body) ∈ start.mixins.entries ∧ line.Within body)) := by
  intro src node hnode
  obtain ⟨line, ⟨hindex, hwrites⟩, hallows⟩ := attributesAll_of_assembleTemplate h node hnode
  rcases hallows with ⟨text, htext, hstands⟩ |
    ⟨hstores, inclusion, ⟨text, htext, hinclusion⟩, hshape⟩
  · exact ⟨line, text, hindex, hwrites, htext, .inl hstands⟩
  · refine ⟨line, text, hindex, hwrites, htext, .inr ⟨⟨inclusion, hinclusion, hshape⟩, ?_⟩⟩
    cases hstores with
    | @defined other definition hholds hshape' hline =>
        obtain ⟨otherText, hother, hdefinition⟩ := hholds
        exact .inl ⟨other, otherText, definition, hother, hdefinition, hshape', hline,
          hdefinition.beneath hline⟩
    | @given name body hbody hline => exact .inr ⟨name, body, hbody, hline⟩

/-- A file defines a mixin, and the template includes it: the node of the mixin's line has the
number of this line, and the name of the template. -/
theorem exists_assembled_imported_mixin :
    let disk := Disk.ofKnown [("./_f.sass", .ok [120, 10, 32, 58, 112, 32, 113, 10, 61, 109, 10, 32,
      58, 99, 32, 100])]
    ∃ tree after, assembleTemplate {} disk "@import f\na\n +m" {} 3 = (.ok tree, after) ∧
      ⟨.attr "c" "d", some 4, none, []⟩ ∈ Node.walkAll tree.children := by
  intro disk
  let tree : Node := ⟨.root, none, none, [
    ⟨.rule ⟨["x"], false⟩, some 1, some "./_f.sass",
      [⟨.attr "p" "q", some 2, some "./_f.sass", []⟩]⟩,
    ⟨.rule ⟨["a"], false⟩, some 2, none, [⟨.attr "c" "d", some 4, none, []⟩]⟩]⟩
  have htree : (assembleTemplate {} disk "@import f\na\n +m" {} 3).1 = .ok tree := by
    dsimp only [disk, tree]
    cbv
  refine ⟨tree, _, Prod.ext htree rfl, ?_⟩
  dsimp only [tree]
  simp [Node.walkAll, Node.walk]

theorem attribution_of_imported_mixin :
    let disk := Disk.ofKnown [("./_f.sass", .ok [120, 10, 32, 58, 112, 32, 113, 10, 61, 109, 10, 32,
      58, 99, 32, 100])]
    let src : Sources := ⟨{}, disk, "@import f\na\n +m", {}⟩
    ∃ tree after, assembleTemplate {} disk "@import f\na\n +m" {} 3 = (.ok tree, after) ∧
      ⟨.attr "c" "d", some 4, none, []⟩ ∈ Node.walkAll tree.children ∧
      ∃ (line : Line) (text : String),
        some 4 = some line.index ∧ line.Writes src (.attr "c" "d") ∧ src.Reads none text ∧
        (line.StandsIn text ∨
          (∃ inclusion : Line, inclusion.StandsIn text ∧
            Shape.of inclusion.text.toList = .mixinInclusion) ∧
          ((∃ (other : Option String) (otherText : String) (definition : Line),
              src.Reads other otherText ∧ definition.StandsIn otherText ∧
              Shape.of definition.text.toList = .mixinDefinition ∧
              line.Within definition.children ∧ line.StandsIn otherText) ∨
            ∃ name body, (name, body) ∈ src.mixins.entries ∧ line.Within body)) := by
  intro disk src
  obtain ⟨tree, after, h, hmem⟩ := exists_assembled_imported_mixin
  exact ⟨tree, after, h, hmem, attribution_of_assembleTemplate h _ hmem⟩

/-- The line and the file of a node need not belong together: here the template has no line with the
number. -/
theorem number_beyond_template :
    ¬ ∀ (options : Options) (disk : Disk) (template : String) (start after : State) (limit : Nat)
        (tree : Node), assembleTemplate options disk template start limit = (.ok tree, after) →
      ∀ node ∈ Node.walkAll tree.children, ∃ (line : Line) (text : String),
        node.line = some line.index ∧
        Sources.Reads ⟨options, disk, template, start.mixins⟩ node.filename text ∧
        line.StandsIn text := by
  intro hclaim
  obtain ⟨tree, after, h, hmem⟩ := exists_assembled_imported_mixin
  obtain ⟨line, text, hindex, htext, hstands⟩ := hclaim {} _ _ {} after 3 tree h _ hmem
  -- only the template has no name
  obtain rfl : text = "@import f\na\n +m" := by
    cases htext
    rfl
  obtain ⟨kept, hkept, hnumber, -⟩ := hstands.kept
  have hlines : keptLines "@import f\na\n +m".toList =
      [("@import f".toList, 1), ("a".toList, 2), (" +m".toList, 3)] := by cbv
  rw [hlines] at hkept
  have hfour : line.index = 4 := (Option.some.inj hindex).symm
  rw [hnumber] at hfour
  simp only [List.mem_cons, List.not_mem_nil, or_false] at hkept
  rcases hkept with rfl | rfl | rfl <;> simp at hfour

/-- **A single file attributes every node to itself.** Where no file can be imported and no mixin is
there from the start, every node names the template's file and a line of it. So a wrong file needs
a mixin from another one, which is the only way `attribution_of_assembleTemplate` leaves open. -/
theorem attribution_of_single_file (hmixins : start.mixins.entries = [])
    (hfiles : ∀ target path, Import.resolve disk.isFile target options.loadPaths = .file path →
      ∀ text, disk.readText path ≠ .ok text)
    (h : assembleTemplate options disk template start limit = (.ok tree, after)) :
    ∀ node ∈ Node.walkAll tree.children, node.filename = options.filename ∧ ∃ line : Line,
      node.From ⟨options, disk, template, start.mixins⟩ line ∧ line.StandsIn template := by
  have hreads : ∀ filename text,
      Sources.Reads ⟨options, disk, template, start.mixins⟩ filename text →
      filename = options.filename ∧ text = template := by
    intro filename text htext
    cases htext with
    | template => exact ⟨rfl, rfl⟩
    | file hpath htext => exact absurd htext (hfiles _ _ hpath _)
  intro node hnode
  obtain ⟨line, hfrom, hallows⟩ := attributesAll_of_assembleTemplate h node hnode
  rcases hallows with ⟨text, htext, hstands⟩ | ⟨hstores, inclusion, ⟨text, htext, -⟩, -⟩
  · obtain ⟨hname, rfl⟩ := hreads _ _ htext
    exact ⟨hname, line, hfrom, hstands⟩
  · -- the definition of a mixin stands in the template as well
    cases hstores with
    | defined hholds _ hline =>
        obtain ⟨other, hother, hdefinition⟩ := hholds
        obtain ⟨-, rfl⟩ := hreads _ _ hother
        exact ⟨(hreads _ _ htext).1, line, hfrom, hdefinition.beneath hline⟩
    | given hbody _ =>
        rw [hmixins] at hbody
        cases hbody

end Stylesheet
