/-!
# Options of a compilation

How the output is laid out, where imported files are looked for, how the source is called in
messages and which way of writing attributes is accepted.
-/

namespace Stylesheet

/-- The layouts of the output. -/
inductive Style where
  /-- Rules stand indented under the rules around them. -/
  | nested
  /-- Every declaration has its line, and no rule is indented. -/
  | expanded
  /-- Every rule has one line. -/
  | compact
  /-- As little space as possible, and no comments. -/
  | compressed
  deriving DecidableEq, Repr

/-- The two ways of writing an attribute. -/
inductive AttributeSyntax where
  /-- The colon comes first, `:name value`. -/
  | normal
  /-- The colon follows the name, `name: value`. -/
  | alternate
  deriving DecidableEq, Repr

/-- What a compilation can be told besides its source. Without `attributeSyntax` both ways of
writing an attribute are accepted. -/
structure Options where
  style : Style := .nested
  loadPaths : List String := ["."]
  filename : Option String := none
  attributeSyntax : Option AttributeSyntax := none
  deriving DecidableEq, Repr

namespace Style

def all : List Style :=
  [nested, expanded, compact, compressed]

def name : Style → String
  | nested => "nested"
  | expanded => "expanded"
  | compact => "compact"
  | compressed => "compressed"

def ofName? (name : String) : Option Style :=
  all.find? (·.name == name)

/-- Every style is read back from its name. -/
theorem ofName?_name (style : Style) : ofName? style.name = some style := by
  cases style <;> decide

end Style

namespace AttributeSyntax

def all : List AttributeSyntax :=
  [normal, alternate]

def name : AttributeSyntax → String
  | normal => "normal"
  | alternate => "alternate"

def ofName? (name : String) : Option AttributeSyntax :=
  all.find? (·.name == name)

def other : AttributeSyntax → AttributeSyntax
  | normal => alternate
  | alternate => normal

/-- Every attribute syntax is read back from its name. -/
theorem ofName?_name (way : AttributeSyntax) : ofName? way.name = some way := by
  cases way <;> decide

end AttributeSyntax

def Options.withFilename (options : Options) (filename : String) : Options :=
  { options with filename := some filename }

end Stylesheet
