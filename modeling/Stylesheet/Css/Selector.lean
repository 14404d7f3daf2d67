import Stylesheet.Fault
import Stylesheet.Text.Blank
import Stylesheet.Text.Pieces

/-!
# Selectors of nested rules

A rule matches what its own selectors match beneath what the rules around it match. In a selector
`&` stands for the selector of the rule around it; a selector without it is put after that. Only a
rule in no other rule may not refer to its parent.
-/

namespace Stylesheet.Selector

/-- The character that stands for the selector of the rule around. -/
def parentReference : Char := '&'

/-- The selectors that lines write: separated by commas, without the blanks around them. -/
def ofLines (rules : List String) : List (List Char) :=
  rules.flatMap fun rule =>
    ((Text.pieces ',' rule.toList).map Text.trim).filter fun selector => !selector.isEmpty

def beneath (parent selector : List Char) : List Char :=
  if selector.contains parentReference then
    selector.flatMap fun c => if c = parentReference then parent else [c]
  else parent ++ ' ' :: selector

/-- The selectors of a rule with the given lines in a rule with the given selectors, or in no
rule. -/
def resolve (parents : Option (List (List Char))) (rules : List String) :
    Except Fault (List (List Char)) :=
  let selectors := ofLines rules
  match parents with
  | none =>
    if selectors.any (·.contains parentReference) then .error .parentReferenceAtBase
    else .ok selectors
  | some parents => .ok (parents.flatMap fun parent => selectors.map (beneath parent))

end Stylesheet.Selector
