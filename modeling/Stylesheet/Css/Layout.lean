import Stylesheet.Css.Block
import Stylesheet.Options

/-!
# Layout of blocks

How the blocks of a stylesheet are written in each style. Only the nested style indents rules, and
by the number of rules around them that have a body; only the compressed style leaves comments out.
-/

namespace Stylesheet

namespace Style

/-- The blanks in front of what stands at a depth. -/
def margin (style : Style) (depth : Nat) : String :=
  match style with
  | nested => String.ofList (List.replicate (2 * depth) ' ')
  | _ => ""

def selectorSeparator : Style → String
  | compressed => ","
  | _ => ", "

def blockSeparator : Style → String
  | compressed => ""
  | _ => "\n"

def nodeSeparator : Style → String
  | nested | expanded => "\n\n"
  | compact => "\n"
  | compressed => ""

end Style

def linesOf (text : String) : List String :=
  (Text.pieces '\n' text.toList).map String.ofList

/-- The text of a comment at a depth; it is closed unless it is already. -/
def Comment.render (style : Style) (depth : Nat) (comment : Comment) : String :=
  let lines := comment.text :: comment.lines.map (" " ++ ·)
  let text := String.intercalate "\n" (lines.map (style.margin depth ++ ·))
  if "*/".toList.isSuffixOf (Text.trimEnd text.toList) then text else text ++ " */"

def BodyEntry.render? (style : Style) : BodyEntry → Option String
  | declaration name value =>
    some (if style = .compressed then name ++ ":" ++ value else name ++ ": " ++ value ++ ";")
  | comment c => if style = .compressed then none else some (c.render style 0)

def renderBody (style : Style) (body : List BodyEntry) : List String :=
  body.filterMap (BodyEntry.render? style)

/-- A head with the texts of its body, which are indented line by line where each has its line. -/
def wrap (style : Style) (depth : Nat) (head : String) (body : List String) : String :=
  let margin := style.margin depth
  let indented : String :=
    String.intercalate "\n" ((body.flatMap linesOf).map fun line => margin ++ "  " ++ line)
  match style with
  | .nested => margin ++ head ++ " \x7b\n" ++ indented ++ " \x7d"
  | .expanded => head ++ " \x7b\n" ++ indented ++ "\n\x7d"
  | .compact => head ++ " \x7b " ++ String.intercalate " " body ++ " \x7d"
  | .compressed => head ++ "\x7b" ++ String.intercalate ";" body ++ "\x7d"

namespace Block

mutual

/-- The texts of a block and of the rules in it at a depth. A rule without a body is not written. -/
def render (style : Style) (depth : Nat) : Block → List String
  | rule selectors body nested =>
    match renderBody style body with
    | [] => renderAll style depth nested
    | first :: rest =>
      let head := String.intercalate style.selectorSeparator (selectors.map String.ofList)
      wrap style depth head (first :: rest) :: renderAll style (depth + 1) nested
  | comment c => if style = .compressed then [] else [c.render style depth]
  | statement text => [text ++ ";"]
  | group text body nested =>
    let body := renderBody style body
    let blocks := renderAll style 0 nested
    match style with
    | .compressed =>
      [text ++ "\x7b" ++ String.intercalate ";" body ++ String.join blocks ++ "\x7d"]
    | style => [wrap style 0 text (body ++ blocks)]

def renderAll (style : Style) (depth : Nat) : List Block → List String
  | [] => []
  | block :: blocks => block.render style depth ++ renderAll style depth blocks

end

/-- The text of all blocks of a stylesheet. It ends a line unless it is empty. -/
def renderSheet (style : Style) (blocks : List Block) : String :=
  let texts := (blocks.map (render style 0)).filter fun texts => !texts.isEmpty
  if texts.isEmpty then ""
  else
    String.intercalate style.nodeSeparator
      (texts.map (String.intercalate style.blockSeparator)) ++ "\n"

end Block

def Node.render (style : Style) (tree : Node) : Except Diagnostic String := do
  pure (Block.renderSheet style (← Block.ofNodes tree.children))

end Stylesheet
