/-!
# Why a text is no YAML

Most faults make a text malformed as a whole. A scalar can be well formed and still stand for a value
that does not exist.
-/

namespace Stylesheet.Data.Yaml

/-- Why a text cannot be read as data. -/
inductive YamlFault where
  /-- The text is not well formed, or a value has a type that is not known or not its own. -/
  | malformed
  /-- A scalar has the form of a value that does not exist. -/
  | noSuchValue (message : String)
  /-- A word stands for no truth value; the word as it is quoted. -/
  | noTruthWord (quoted : String)
  /-- No digits are left where a number should be. -/
  | nothingWritten
  /-- A text is no date. -/
  | noDate
  /-- A map stands where the text of a date should be. -/
  | dateOfMap
  /-- A number is beyond all that can be counted with. -/
  | tooGreat
  deriving DecidableEq, Repr

def YamlFault.message? : YamlFault → Option String
  | noSuchValue message => some message
  | noTruthWord quoted => some quoted
  | _ => none

end Stylesheet.Data.Yaml
