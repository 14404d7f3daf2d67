import Stylesheet.Indentation.Unit
import Stylesheet.Options

/-!
# What can be wrong with a stylesheet

`Fault` lists the causes for which a stylesheet is refused, and `Fault.message` gives each its
wording. A fault knows no place: `Diagnostic` adds the line and the file.
-/

namespace Stylesheet

/-- What put several nodes in the place of one line. -/
inductive Origin where
  /-- The line imports files. -/
  | imports
  /-- The line includes a mixin. -/
  | mixin
  deriving DecidableEq, Repr

def Origin.name : Origin → String
  | imports => "import"
  | mixin => "mixin"

/-- The causes for which a stylesheet is refused. -/
inductive Fault where
  /-- The first line that counts is indented. -/
  | indentedStart
  /-- The first indented line is indented by tabs and spaces together. -/
  | mixedIndentation
  /-- A line is not indented by a whole number of units. -/
  | inconsistentIndentation (used unit : List Char)
  /-- A line is indented by several levels more than the line before it. -/
  | indentationJump (levels : Int)
  /-- Lines stand beneath a constant. -/
  | nestedBeneathConstant
  /-- Lines stand beneath an import or an inclusion. -/
  | nestedBeneath (origin : Origin)
  /-- A selector list that a comma left open is not continued by a rule. -/
  | openSelectorList
  /-- A constant is declared beneath another line. -/
  | innerConstant
  /-- A mixin is defined beneath another line. -/
  | innerMixin
  /-- A directive stands beneath another line. -/
  | innerDirective
  /-- An attribute is written in the way that the options refuse. -/
  | refusedAttributeSyntax (used : AttributeSyntax)
  /-- A line that starts as an attribute has no name or a bad separator. -/
  | invalidAttribute (text : String)
  /-- A line that starts as a constant has no name, no equals sign or no value. -/
  | invalidConstant (text : String)
  /-- A mixin is defined without a name. -/
  | invalidMixin (text : String)
  /-- An import names no file. -/
  | importWithoutName
  /-- An imported file cannot be found or read. -/
  | fileNotFound (target : String)
  /-- An inclusion names no defined mixin. -/
  | undefinedMixin (name : String)
  /-- A mixin includes itself. -/
  | mixinRecursion (name : String)
  /-- An expression holds no token. -/
  | emptyExpression
  /-- No token starts with a character of an expression. -/
  | unexpectedCharacter (c : Char) (expression : String)
  /-- A token is left over after a whole expression. -/
  | unexpectedToken (token expression : String)
  /-- A token stands where an operand has to. -/
  | operandExpected (token : String)
  /-- An expression ends where an operand has to stand. -/
  | endOfExpression
  /-- An opening parenthesis has no partner. -/
  | missingParenthesis
  /-- An operator is applied to values that it is not defined for. -/
  | undefinedOperation (left operator right : String)
  /-- Numbers of different units are combined. -/
  | incompatibleUnits (left right : String)
  /-- A number or color is divided by zero. -/
  | divisionByZero
  /-- An expression names no defined constant. -/
  | undefinedConstant (name : String)
  /-- A number is too large to be represented. -/
  | numberOutOfRange
  /-- A rule that stands in no other rule refers to its parent. -/
  | parentReferenceAtBase
  /-- An attribute stands outside of all rules. -/
  | attributeAtRoot
  /-- Something else than an attribute stands beneath an attribute. -/
  | nestedBeneathAttribute
  /-- A fault in the words of a caller. -/
  | other (message : String)
  deriving DecidableEq, Repr

def Fault.message : Fault → String
  | indentedStart => "Indenting at the beginning of the document is illegal."
  | mixedIndentation => "Indentation can't use both tabs and spaces."
  | inconsistentIndentation used unit =>
    "Inconsistent indentation: " ++ Indentation.describe used true ++
      " used for indentation, but the rest of the document was indented using " ++
      Indentation.describe unit false ++ "."
  | indentationJump levels =>
    "The line was indented " ++ toString levels ++ " levels deeper than the previous line."
  | nestedBeneathConstant => "Illegal nesting: Nothing may be nested beneath constants."
  | nestedBeneath origin =>
    "Illegal nesting: Nothing may be nested beneath " ++ origin.name ++ " directives."
  | openSelectorList => "Rules can't end in commas."
  | innerConstant => "Constants may only be declared at the root of a document."
  | innerMixin => "Mixins may only be defined at the root of a document."
  | innerDirective => "Directives may only be used at the root of a document."
  | refusedAttributeSyntax used =>
    "Illegal attribute syntax: can't use " ++ used.name ++
      " syntax when attribute_syntax is " ++ used.other.name ++ "."
  | invalidAttribute text => "Invalid attribute: \"" ++ text ++ "\"."
  | invalidConstant text => "Invalid constant: \"" ++ text ++ "\"."
  | invalidMixin text => "Invalid mixin definition: \"" ++ text ++ "\"."
  | importWithoutName => "Invalid import directive: a file name is required."
  | fileNotFound target => "File to import not found or unreadable: " ++ target ++ "."
  | undefinedMixin name => "Undefined mixin '" ++ name ++ "'."
  | mixinRecursion name => "Illegal recursion: mixin '" ++ name ++ "' includes itself."
  | emptyExpression => "Invalid constant expression: value is empty."
  | unexpectedCharacter c expression =>
    "Unexpected character '" ++ c.toString ++ "' in \"" ++ expression ++ "\"."
  | unexpectedToken token expression =>
    "Unexpected token '" ++ token ++ "' in \"" ++ expression ++ "\"."
  | operandExpected token => "Unexpected token '" ++ token ++ "' in constant expression."
  | endOfExpression => "Unexpected end of constant expression."
  | missingParenthesis => "Missing closing parenthesis in constant expression."
  | undefinedOperation left operator right =>
    "Undefined operation: \"" ++ left ++ " " ++ operator ++ " " ++ right ++ "\"."
  | incompatibleUnits left right => "Incompatible units: " ++ left ++ " and " ++ right ++ "."
  | divisionByZero => "Division by zero."
  | undefinedConstant name => "Undefined constant: \"!" ++ name ++ "\"."
  | numberOutOfRange => "Number out of range."
  | parentReferenceAtBase =>
    "Base-level rules cannot contain the parent-selector-referencing character '&'."
  | attributeAtRoot => "Attributes aren't allowed at the root of a document."
  | nestedBeneathAttribute =>
    "Illegal nesting: Only attributes may be nested beneath attributes."
  | other message => message

end Stylesheet
