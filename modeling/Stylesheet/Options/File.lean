import Stylesheet.Data.Yaml
import Stylesheet.Disk
import Stylesheet.Options.Data

/-!
# Files of options

Options can be kept in a file as YAML. A file without a document holds the defaults.

* `Options.load` : the options that a file holds.
-/

namespace Stylesheet

inductive OptionsFileFault where
  | unreadable (fault : ReadFault)
  | text (fault : Data.Yaml.YamlFault)
  /-- The document is no map. -/
  | notAMap
  | options (fault : OptionsFault)

def OptionsFileFault.message? (path : String) : OptionsFileFault → Option String
  | unreadable fault => some (fault.message path)
  | text (.noSuchValue message) => some message
  | text _ => none
  | notAMap => some ("Options file must contain a mapping: " ++ path)
  | options fault => fault.message?

namespace Options

def ofText (s : String) : Except OptionsFileFault Options := do
  let graph ← (Data.Yaml.parse s).mapError OptionsFileFault.text
  match graph.view graph.root with
  | .atom .null => pure {}
  | .map [] => pure {}
  | .map entries => (ofEntries graph.viewer entries).mapError OptionsFileFault.options
  | _ => throw .notAMap

/-! ## Reading piece by piece -/

/-- How many bytes of a file are read at once. -/
def pieceSize : Nat := 8192

/-- The characters of bytes that come piece by piece. What is `cut` off at the end of a piece goes before
the next one, and a fault has its position in the piece where it shows. Every piece takes one unit of
`fuel`. -/
def charsOfPieces : Nat → List UInt8 → List UInt8 → Except Text.Utf8Fault (List Char)
  | 0, _, _ => .ok []
  | fuel + 1, cut, bytes =>
    let piece := cut ++ bytes.take pieceSize
    let rest := bytes.drop pieceSize
    match Text.decodeUtf8 piece with
    | .ok cs =>
      if rest.isEmpty then .ok cs else (charsOfPieces fuel [] rest).map (cs ++ ·)
    | .error fault =>
      if fault.reason ≠ .ending then .error fault
      else if rest.isEmpty then .error { fault with position := 0 }
      else do
        let cs ← Text.decodeUtf8 (piece.take fault.position)
        pure (cs ++ (← charsOfPieces fuel (piece.drop fault.position) rest))

def readText (disk : Disk) (path : String) : Except ReadFault String := do
  let bytes ← (disk.read path).mapError ReadFault.access
  let cs ← (charsOfPieces (bytes.length + 1) [] bytes).mapError ReadFault.encoding
  pure (String.ofList (Text.unifyNewlines cs))

def load (disk : Disk) (path : String) : Except OptionsFileFault Options := do
  ofText (← (readText disk path).mapError .unreadable)

end Options

end Stylesheet
