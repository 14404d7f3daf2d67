import Stylesheet.Data.Yaml.Printer
import Stylesheet.Data.Yaml.Values

/-!
# Data from YAML

A text is cut into tokens, the tokens make up the tree of a document, and the tree becomes values,
which may stand in several places.

* `Yaml.parse` : the values that a text writes.
-/

namespace Stylesheet.Data.Yaml

/-- The values that a text writes; a text without a document writes null. -/
def parse (s : String) : Except YamlFault Graph := do
  let (tokens, fault) := Token.ofText s.toList
  match ← Document.ofTokens tokens fault with
  | none => pure ⟨#[], .atom .null⟩
  | some document => document.values tokens.length

end Stylesheet.Data.Yaml
