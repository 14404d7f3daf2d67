import Stylesheet.Proofs.Assembly.Failing
import Stylesheet.Proofs.Line.Parsing

/-!
# The lines of a compilation

A compilation assembles the lines of its template, those of the files that it imports, and the
bodies of mixins, some of which it may have been given. Which lines are assembled for which file is
said here without the steps in which it happens: a line stands in the file, or it stands in the body
of a mixin and the file includes mixins.

* `Line.StandsIn` : the lines of a text.
* `Line.Writes` : what a line says a node is.
* `Sources.Allows` : the lines that may be assembled for a file.
-/

namespace Stylesheet

open Assembly

/-- What the compilation of a template starts from. -/
structure Sources where
  options : Options
  disk : Disk
  template : String
  mixins : Mixins

/-- The text is compiled under the name: the template, or a file that can be imported. -/
inductive Sources.Reads (src : Sources) : Option String → String → Prop
  | template : Reads src src.options.filename src.template
  | file {target : List Char} {path text : String} :
      Import.resolve src.disk.isFile target src.options.loadPaths = .file path →
      src.disk.readText path = .ok text → Reads src (some path) text

/-- The line stands in the text: the text is parsed to it, so that its number is that of a source
line which counts, and its text is that of the source line. -/
structure Line.StandsIn (line : Line) (text : String) : Prop where
  parsed : ∃ lines, parseLines text.toList = .ok lines ∧ line.Within lines
  kept : ∃ kept ∈ keptLines text.toList, line.index = kept.2 ∧
    line.text = String.ofList (Text.trim kept.1)

def Sources.Holds (src : Sources) (filename : Option String) (line : Line) : Prop :=
  ∃ text, src.Reads filename text ∧ line.StandsIn text

/-- The line is in the body of a mixin: beneath the definition in some file, or in the body of a
mixin that the compilation starts with. -/
inductive Sources.Stores (src : Sources) (line : Line) : Prop
  | defined {filename : Option String} {definition : Line} : src.Holds filename definition →
      Shape.of definition.text.toList = .mixinDefinition → line.Within definition.children →
      Stores src line
  | given {name : String} {body : List Line} : (name, body) ∈ src.mixins.entries →
      line.Within body → Stores src line

/-- The line may be assembled for a file: it stands there, or it is in the body of a mixin and the
file includes some mixin. -/
def Sources.Allows (src : Sources) (filename : Option String) (line : Line) : Prop :=
  src.Holds filename line ∨ src.Stores line ∧ ∃ inclusion : Line, src.Holds filename inclusion ∧
    Shape.of inclusion.text.toList = .mixinInclusion

/-- The line writes what a node is. Further lines may have added to the selectors of a rule if the
line leaves them open. -/
inductive Line.Writes (src : Sources) (line : Line) : Content → Prop
  | rule {more : List String} {continued : Bool} : Shape.of line.text.toList = .rule →
      (more ≠ [] → (SelectorList.ofText line.text.toList).continued = true) →
      Writes src line (.rule ⟨(SelectorList.ofText line.text.toList).rules ++ more, continued⟩)
  | escapedRule {more : List String} {continued : Bool} :
      Shape.of line.text.toList = .escapedRule →
      (more ≠ [] → (SelectorList.ofText (line.text.toList.drop 1)).continued = true) →
      Writes src line
        (.rule ⟨(SelectorList.ofText (line.text.toList.drop 1)).rules ++ more, continued⟩)
  | attr {way : AttributeSyntax} {name value : List Char} :
      Shape.of line.text.toList = .attr way →
      attributeParts? way line.text.toList = some ⟨name, false, value⟩ →
      Writes src line (.attr (String.ofList name) (String.ofList value))
  | computed {way : AttributeSyntax} {name value : List Char} {constants : Constants}
      {css : String} : Shape.of line.text.toList = .attr way →
      attributeParts? way line.text.toList = some ⟨name, true, value⟩ →
      Expr.cssOf constants (String.ofList value) = .ok css →
      Writes src line (.attr (String.ofList name) css)
  | comment : Shape.of line.text.toList = .comment →
      Writes src line (.comment line.text true line.children)
  | directive {name : List Char} {value : Option (List Char)} :
      Shape.of line.text.toList = .directive → directiveParts line.text.toList = (name, value) →
      isImport name value = false → Writes src line (.directive line.text)
  | reference {value target : List Char} {name : String} : line.ImportsTargets value →
      target ∈ Import.targets value →
      (Import.resolve src.disk.isFile target src.options.loadPaths = .fallback name ∨
        Import.resolve src.disk.isFile target src.options.loadPaths = .reference name) →
      Writes src line (.directive ("@import url(" ++ name ++ ")"))

/-- The node has the number of the line, and the line writes what the node is. -/
structure Node.From (src : Sources) (node : Node) (line : Line) : Prop where
  line_eq : node.line = some line.index
  writes : line.Writes src node.content

/-- The node comes from a line that may be assembled for the file of the node. -/
def Sources.Attributes (src : Sources) (node : Node) : Prop :=
  ∃ line, node.From src line ∧ src.Allows node.filename line

/-- Everything in the forest comes from such lines. -/
def Sources.AttributesAll (src : Sources) (nodes : List Node) : Prop :=
  ∀ node ∈ Node.walkAll nodes, src.Attributes node

variable {src : Sources}

/-! ## Lines in files and in mixins -/

/-- A line within the forest of a text stands in the text. -/
theorem Line.Within.standsIn {line : Line} {lines : List Line} {text : String}
    (hparse : parseLines text.toList = .ok lines) (h : line.Within lines) : line.StandsIn text :=
  ⟨⟨lines, hparse, h⟩, h.exists_kept hparse⟩

theorem Line.StandsIn.beneath {above line : Line} {text : String} (habove : above.StandsIn text)
    (h : line.Within above.children) : line.StandsIn text := by
  obtain ⟨lines, hparse, hwithin⟩ := habove.parsed
  exact (hwithin.trans h).standsIn hparse

namespace Sources

theorem Holds.beneath {filename : Option String} {above line : Line}
    (h : src.Holds filename above) (hline : line.Within above.children) :
    src.Holds filename line := by
  obtain ⟨text, htext, habove⟩ := h
  exact ⟨text, htext, habove.beneath hline⟩

theorem Stores.beneath {above line : Line} (h : src.Stores above)
    (hline : line.Within above.children) : src.Stores line := by
  cases h with
  | defined hholds hshape habove => exact .defined hholds hshape (habove.trans hline)
  | given hbody habove => exact .given hbody (habove.trans hline)

/-- Lines beneath a line may be assembled for the same file. -/
theorem Allows.beneath {filename : Option String} {above line : Line}
    (h : src.Allows filename above) (hline : line.Within above.children) :
    src.Allows filename line := by
  rcases h with hholds | ⟨hstores, hinclusion⟩
  · exact .inl (hholds.beneath hline)
  · exact .inr ⟨hstores.beneath hline, hinclusion⟩

/-- Beneath the definition of a mixin is its body. -/
theorem Allows.stores {filename : Option String} {definition line : Line}
    (h : src.Allows filename definition)
    (hshape : Shape.of definition.text.toList = .mixinDefinition)
    (hline : line.Within definition.children) : src.Stores line := by
  rcases h with hholds | ⟨hstores, -⟩
  · exact .defined hholds hshape hline
  · exact hstores.beneath hline

/-- The line of a mixin may be assembled for every file with a line that includes mixins. -/
theorem Allows.included {filename : Option String} {inclusion line : Line}
    (h : src.Allows filename inclusion)
    (hshape : Shape.of inclusion.text.toList = .mixinInclusion) (hline : src.Stores line) :
    src.Allows filename line := by
  -- an inclusion in the body of a mixin goes back to one in the file itself
  rcases h with hholds | ⟨-, hinclusion⟩
  · exact .inr ⟨hline, inclusion, hholds, hshape⟩
  · exact .inr ⟨hline, hinclusion⟩

/-- Where no mixins are there from the start, every line stands in some text that is read. -/
theorem Allows.exists_standsIn (hmixins : src.mixins.entries = []) {filename : Option String}
    {line : Line} (h : src.Allows filename line) :
    ∃ name text, src.Reads name text ∧ line.StandsIn text := by
  rcases h with ⟨text, htext, hstands⟩ | ⟨hstores, -⟩
  · exact ⟨filename, text, htext, hstands⟩
  · cases hstores with
    | @defined other definition hholds _ hline =>
        obtain ⟨text, htext, hdefinition⟩ := hholds
        exact ⟨other, text, htext, hdefinition.beneath hline⟩
    | given hbody _ =>
        rw [hmixins] at hbody
        cases hbody

def Knows (src : Sources) (s : State) : Prop :=
  ∀ name body, s.mixins.get? name = some body → ∀ line : Line, line.Within body → src.Stores line

/-- The bodies of mixins are known, and all constants have values as said. -/
structure KnowsOver (src : Sources) (K : String → Prop) (s : State) : Prop where
  mixins : src.Knows s
  constants : s.constants.All K

/-- The context is that of a file of the compilation. -/
structure Fits (src : Sources) (context : Context) : Prop where
  disk : context.disk = src.disk
  loadPaths : context.options.loadPaths = src.options.loadPaths

end Sources

theorem Table.mem_entries_of_get? {α : Type} {t : Table α} {name : String} {value : α}
    (h : t.get? name = some value) : (name, value) ∈ t.entries := by
  obtain ⟨entry, hentry, rfl⟩ := Option.map_eq_some_iff.mp h
  obtain rfl : entry.1 = name := by simpa using List.find?_some hentry
  exact List.mem_of_find?_eq_some hentry

/-- A compilation knows the mixins that it starts with. -/
theorem Sources.knows_start (options : Options) (disk : Disk) (template : String) (start : State) :
    Sources.Knows ⟨options, disk, template, start.mixins⟩ start :=
  fun _ _ hbody _ hline => .given (Table.mem_entries_of_get? hbody) hline

end Stylesheet
