import Stylesheet.Options
import Stylesheet.Text.Blank
import Stylesheet.Text.Word

/-!
# The shapes of lines

The first characters of a line decide what it is. Only an attribute written `name: value` needs a
look beyond them. The functions here take the text of a line apart; none of them acts on it.

* `Shape.of` : the shape of a text.
* `attributeParts?`, `constantParts?`, `directiveParts` : the parts of a line of the shape.
-/

namespace Stylesheet

inductive Shape where
  /-- `:name value` or `name: value`, or with `=` where the value is an expression. -/
  | attr (way : AttributeSyntax)
  /-- `!name = value` -/
  | constant
  /-- `// text` -/
  | silentComment
  /-- `/* text` -/
  | comment
  /-- `@name value` -/
  | directive
  /-- `\selector` -/
  | escapedRule
  /-- `=name` -/
  | mixinDefinition
  /-- `+name` -/
  | mixinInclusion
  /-- Any other line is a selector. -/
  | rule
  deriving DecidableEq, Repr

def Shape.name : Shape → String
  | attr .normal => "attribute"
  | attr .alternate => "alternate_attribute"
  | constant => "constant"
  | silentComment => "silent_comment"
  | comment => "css_comment"
  | directive => "directive"
  | escapedRule => "escaped_rule"
  | mixinDefinition => "mixin_definition"
  | mixinInclusion => "mixin_include"
  | rule => "rule"

def firstLine (cs : List Char) : List Char :=
  cs.takeWhile (· != '\n')

/-! ## Attributes -/

def isNameChar (c : Char) : Bool :=
  !Text.isBlank c && c != '=' && c != ':'

/-- Whether a character may stand before the separator of an attribute written `name: value` as far
as telling it from a selector goes. -/
def isStemChar (c : Char) : Bool :=
  !Text.isBlank c && c != ':'

/-- Whether a text starts as `name: value` or `name = value`: a stem, perhaps blanks, and a
separator that is followed by a blank or nothing. The equals sign may end the stem itself. -/
def startsAsAttribute (cs : List Char) : Bool :=
  let stem := cs.takeWhile isStemChar
  let rest := cs.dropWhile isStemChar
  !stem.isEmpty &&
    ((match Text.trimStart rest with
      | c :: after => (c == '=' || c == ':') && Text.atGap after
      | [] => false) ||
    (2 ≤ stem.length && stem.getLast? == some '=' && Text.atGap rest))

/-- The parts of an attribute: its name, whether its value is an expression, and the value. -/
structure AttributeParts where
  name : List Char
  computed : Bool
  value : List Char
  deriving DecidableEq, Repr

/-- The parts of `:name value` or `:name= expression`. -/
def normalAttribute? : List Char → Option AttributeParts
  | ':' :: cs =>
    let name := cs.takeWhile isNameChar
    let rest := cs.dropWhile isNameChar
    let value := Text.trimStart rest
    if name.isEmpty then none
    else match value with
      | '=' :: after =>
        if Text.atGap after then some ⟨name, true, firstLine (Text.trimStart after)⟩
        else if Text.atGap rest then some ⟨name, false, firstLine value⟩
        else none
      | _ => if Text.atGap rest then some ⟨name, false, firstLine value⟩ else none
  | _ => none

/-- The parts of `name: value` or `name = expression`. -/
def alternateAttribute? (cs : List Char) : Option AttributeParts :=
  let name := cs.takeWhile isNameChar
  let rest := cs.dropWhile isNameChar
  if name.isEmpty then none
  else match rest, Text.trimStart rest with
    | ':' :: after, _ =>
      if Text.atGap after then some ⟨name, false, firstLine (Text.trimStart after)⟩ else none
    | _, '=' :: after =>
      if Text.atGap after then some ⟨name, true, firstLine (Text.trimStart after)⟩ else none
    | _, _ => none

/-- The parts of an attribute written in a given way; `none` if the text is not written so. -/
def attributeParts? (way : AttributeSyntax) (cs : List Char) : Option AttributeParts :=
  match way with
  | .normal => normalAttribute? cs
  | .alternate => alternateAttribute? cs

/-! ## Constants -/

/-- The parts of a constant: its name, whether a value it already has is kept, and the value. -/
structure ConstantParts where
  name : List Char
  conditional : Bool
  value : List Char
  deriving DecidableEq, Repr

/-- The value of a constant: what follows the blanks after the equals sign, up to the end of the
line. If only blanks follow, the last one that ends no line is the value. -/
def constantValue? (cs : List Char) : Option (List Char) :=
  match Text.trimStart cs with
  | [] => (cs.reverse.find? (· != '\n')).map ([·])
  | value => some (firstLine value)

/-- The parts of `!name = value` or `!name ||= value`. -/
def constantParts? : List Char → Option ConstantParts
  | '!' :: cs =>
    let name := cs.takeWhile Text.isWord
    if name.isEmpty then none
    else match Text.trimStart (cs.dropWhile Text.isWord) with
      | '|' :: '|' :: '=' :: rest => (constantValue? rest).map (⟨name, true, ·⟩)
      | '=' :: rest => (constantValue? rest).map (⟨name, false, ·⟩)
      | _ => none
  | _ => none

/-! ## Directives -/

/-- The name of a directive and what follows it, if something does. The first character is the
marker, whatever it is. -/
def directiveParts (cs : List Char) : List Char × Option (List Char) :=
  let text := Text.trimStart (cs.drop 1)
  let name := text.takeWhile fun c => !Text.isBlank c
  let value := Text.trimStart (text.dropWhile fun c => !Text.isBlank c)
  (name, if value.isEmpty then none else some value)

/-- Whether an import names a style sheet that is only referred to. -/
def isReference (value : List Char) : Bool :=
  "url(".toList.isPrefixOf value || ['"'].isPrefixOf value || ['\''].isPrefixOf value

def isImport (name : List Char) (value : Option (List Char)) : Bool :=
  name == "import".toList && !value.any isReference

/-! ## The shape of a line -/

/-- The shape of a line that starts with none of the markers of other shapes. -/
def plainShape (cs : List Char) : Shape :=
  if startsAsAttribute cs then .attr .alternate else .rule

def Shape.of : List Char → Shape
  | ':' :: _ => .attr .normal
  | '!' :: _ => .constant
  | '/' :: '/' :: _ => .silentComment
  | '/' :: '*' :: _ => .comment
  | '/' :: _ => .rule
  | '@' :: _ => .directive
  | '\\' :: _ => .escapedRule
  | '=' :: _ => .mixinDefinition
  | '+' :: cs => if Text.atGap cs then .rule else .mixinInclusion
  | cs => plainShape cs

end Stylesheet
