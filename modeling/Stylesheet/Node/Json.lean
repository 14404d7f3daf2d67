import Stylesheet.Data.Json
import Stylesheet.Node.Data

/-!
# Stylesheet trees as JSON

* `Node.toJson` : the text that a tree is saved as.
* `Node.ofJson` : the tree that a text was saved from.
-/

namespace Stylesheet

inductive SavedFault where
  /-- It is no JSON. -/
  | json (fault : Data.Json.JsonFault)
  /-- The data that it writes is not a tree. -/
  | data (fault : DataFault)
  deriving DecidableEq, Repr

namespace Node

def toJson (tree : Node) : String :=
  Data.Json.render tree.toData

/-- The tree that a text writes; `limited` says whether its integers may only be so long. -/
def ofJson (limited : Bool) (text : String) : Except SavedFault Node := do
  let d ← (Data.Json.parseWith limited text).mapError .json
  (ofData d).mapError .data

end Node

end Stylesheet
