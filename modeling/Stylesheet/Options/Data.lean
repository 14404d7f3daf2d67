import Stylesheet.Data
import Stylesheet.Options

/-!
# Options as data

Options are read from a map that holds some of them by name. A name that is no option, or a value
that an option does not have, is refused.

* `Options.ofData_toData` : options that are written are read back.
-/

namespace Stylesheet

inductive OptionsFault where
  /-- Names that are no options, sorted, as they are quoted. -/
  | unknown (names : List String)
  /-- A value that is no style, as it is quoted. -/
  | invalidStyle (quoted : String)
  /-- A value that is no way of writing attributes, as it is quoted. -/
  | invalidAttributeSyntax (quoted : String)
  /-- An integer that is too long to be written. -/
  | tooLong (fault : Number.TooLong)
  /-- A value of a kind that cannot be gone through. -/
  | wrongKind
  /-- A value that is no map. -/
  | notAMap
  deriving DecidableEq, Repr

def OptionsFault.message? : OptionsFault → Option String
  | unknown names => some ("Unknown option(s): [" ++ String.intercalate ", " names ++ "]")
  | invalidStyle quoted => some (quoted ++ " is not a valid OutputStyle")
  | invalidAttributeSyntax quoted => some (quoted ++ " is not a valid AttributeSyntax")
  | tooLong fault => some fault.message
  | wrongKind => none
  | notAMap => none

namespace Options

def names : List String :=
  ["style", "load_paths", "filename", "attribute_syntax"]

def isName (a : Atom) : Bool :=
  a.text?.any names.contains

def checkNames (given : List Atom) : Except OptionsFault Unit :=
  match Atom.sorted? (given.filter fun a => !isName a) with
  | none => .error .wrongKind
  | some [] => .ok ()
  | some unknown =>
    match unknown.mapM Atom.quoted with
    | .ok quoted => .error (.unknown quoted)
    | .error fault => .error (.tooLong fault)

section

variable {α : Type} (v : Viewer α)

def given? (entries : List (Atom × α)) (name : String) : Option α :=
  match Data.lookup? entries name with
  | some a => match v.view a with
    | .atom .null => none
    | _ => some a
  | none => none

/-- The value that one of the texts of `ofName?` names. -/
def named {β : Type} (ofName? : String → Option β) (fault : String → OptionsFault) (a : α) :
    Except OptionsFault β :=
  let found := match v.view a with
    | .atom (.text name) => ofName? name
    | _ => none
  match found, v.quoted a with
  | some b, _ => .ok b
  | none, .ok quoted => .error (fault quoted)
  | none, .error tooLong => .error (.tooLong tooLong)

def textOf (a : α) : Except OptionsFault String :=
  (v.shown a).mapError .tooLong

def loadPathsOf (a : α) : Except OptionsFault (List String) :=
  match v.view a with
  | .atom (.text path) => .ok [path]
  | .atom (.codes _) => (textOf v a).map ([·])
  | _ => match v.elements? a with
    | some items => items.mapM (textOf v)
    | none => .error .wrongKind

def ofEntries (entries : List (Atom × α)) : Except OptionsFault Options := do
  checkNames (entries.map (·.1))
  let style ← match given? v entries "style" with
    | some a => named v Style.ofName? .invalidStyle a
    | none => pure .nested
  let loadPaths ← match given? v entries "load_paths" with
    | some a => loadPathsOf v a
    | none => pure ["."]
  let filename ← match given? v entries "filename" with
    | some a => (textOf v a).map some
    | none => pure none
  let attributeSyntax ← match given? v entries "attribute_syntax" with
    | some a => (named v AttributeSyntax.ofName? .invalidAttributeSyntax a).map some
    | none => pure none
  pure { style, loadPaths, filename, attributeSyntax }

end

/-- The names that data gives, each of them once, if it can be gone through and holds nothing but
names. -/
def givenNames? (d : Data) : Option (List Atom) := do
  let given ← (← Data.viewer.elements? d).mapM fun
    | .atom a => some a
    | _ => none
  pure ((Data.settle (given.map fun name => (name, ()))).map (·.1))

/-- The options that data holds; no data holds the defaults. -/
def ofData (d : Data) : Except OptionsFault Options :=
  if d.isEmpty then .ok {}
  else match d with
    | .map entries => ofEntries Data.viewer entries
    | d => match givenNames? d with
      | some given => do
        checkNames given
        throw .notAMap
      | none => .error .wrongKind

def toData (options : Options) : Data :=
  .ofFields [("style", .text options.style.name),
    ("load_paths", .list (options.loadPaths.map .text)),
    ("filename", match options.filename with
      | some name => .text name
      | none => .null),
    ("attribute_syntax", match options.attributeSyntax with
      | some way => .text way.name
      | none => .null)]

/-- A list of texts is read as those load paths. -/
theorem loadPathsOf_list (paths : List String) :
    loadPathsOf Data.viewer (.list (paths.map .text)) = .ok paths := by
  have h : (paths.map Data.text).mapM (textOf Data.viewer) = .ok paths := by
    induction paths with
    | nil => rfl
    | cons p ps ih =>
      rw [List.map_cons, List.mapM_cons, ih]
      rfl
  exact h

/-- Options are read back from the data they are written as. -/
theorem ofData_toData (options : Options) : ofData options.toData = .ok options := by
  obtain ⟨style, loadPaths, filename, way⟩ := options
  have hn : checkNames [.text "style", .text "load_paths", .text "filename",
      .text "attribute_syntax"] = .ok () := rfl
  have hs : named Data.viewer Style.ofName? .invalidStyle (.text style.name) = .ok style := by
    cases style <;> rfl
  have hl := loadPathsOf_list loadPaths
  have hf (name : String) : textOf Data.viewer (.text name) = .ok name := rfl
  have hw (way : AttributeSyntax) : named Data.viewer AttributeSyntax.ofName?
      .invalidAttributeSyntax (.text way.name) = .ok way := by cases way <;> rfl
  have view (d : Data) : Data.viewer.view d = d.view := rfl
  unfold ofData toData
  cases filename <;> cases way <;>
    simp [Data.isEmpty, Data.ofFields, ofEntries, given?, Data.lookup?, view, Data.view, hn, hs, hl,
      hf, hw, bind, Except.bind, pure, Except.pure, Except.map]

end Options

end Stylesheet
