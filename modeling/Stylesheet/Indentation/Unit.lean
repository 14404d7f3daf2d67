import Stylesheet.Text.Quoted

/-!
# Describing indentation

Messages name an indentation by its length: as spaces if it holds no tab, as tabs if it holds no
space. One that holds both is quoted.
-/

namespace Stylesheet.Indentation

/-- An indentation in words, such as `4 spaces` or `1 tab`; with `past`, followed by `was` or
`were`. -/
def describe (indentation : List Char) (past : Bool) : String :=
  if indentation.contains '\t' && indentation.contains ' ' then
    String.ofList (Text.quotedChars indentation) ++ if past then " was" else ""
  else
    let noun := if indentation.contains '\t' then "tab" else "space"
    let one := indentation.length == 1
    toString indentation.length ++ " " ++ noun ++ (if one then "" else "s") ++
      (if past then (if one then " was" else " were") else "")

end Stylesheet.Indentation
