import Stylesheet.Data.Yaml.Token

/-!
# Documents

The tokens of a text make up one document or none. A document is a tree of scalars, lists and maps. A
value that was given a name stands apart from the tree, which has its number in every place that the
value is in.

* `Document.ofTokens` : the document.
-/

namespace Stylesheet.Data.Yaml

/-- A value of a document with its kind; lists and maps are numbered. -/
inductive Tree where
  | scalar (kind : Kind) (written : Written)
  | list (number : Nat) (kind : Kind) (items : List Tree)
  | map (number : Nat) (kind : Kind) (entries : List (Tree × Tree))
  /-- The place of a value that has a name. -/
  | named (number : Nat)
  deriving Inhabited

/-- The value that stands where nothing is written. -/
def Tree.empty : Tree :=
  .scalar .null (.chars [])

/-- What is known while a document is read. -/
structure ParseState where
  tokens : List Token
  /-- What is wrong with the text behind the tokens, if it did not end there. -/
  fault : Option YamlFault
  /-- What the short forms of names of types stand for. -/
  handles : List (String × String)
  /-- The names that were given, with the numbers of the values. -/
  anchors : List (String × Nat) := []
  /-- The values that have names by their numbers. -/
  named : Array Tree := #[]
  /-- How many lists and maps there have been. -/
  count : Nat := 0

abbrev Parse := StateT ParseState (Except YamlFault)

namespace Parse

def refuse {α : Type} : Parse α :=
  throw .malformed

def peek : Parse (Option Token) := do
  match (← get).tokens, (← get).fault with
  | token :: _, _ => pure (some token)
  | [], none => pure none
  | [], some fault => throw fault

def drop : Parse Unit :=
  modify fun s => { s with tokens := s.tokens.tail }

def atAny (tokens : List Token) : Parse Bool := do
  match ← peek with
  | some token => pure (tokens.contains token)
  | none => pure true

def expect (token : Token) : Parse Unit := do
  if (← peek) = some token then drop else refuse

def number : Parse Nat := do
  let count := (← get).count
  modify fun s => { s with count := count + 1 }
  pure count

/-! ## Types -/

def knownTypes : List Char :=
  "tag:yaml.org,2002:".toList

/-- The short forms that every document has. -/
def standardHandles : List (String × String) :=
  [("!", "!"), ("!!", String.ofList knownTypes)]

def expand (handle : Option String) (name : String) : Parse String := do
  match handle with
  | none => pure name
  | some handle => match (← get).handles.lookup handle with
    | some expansion => pure (expansion ++ name)
    | none => refuse

def kindOfType (type : String) : Kind :=
  if knownTypes.isPrefixOf type.toList then
    .ofName (String.ofList (type.toList.drop knownTypes.length))
  else .unknown

/-- The kind of a scalar. One that has no type and no quotation marks, or the type `!`, is what its
text stands for. -/
def scalarKind (type : Option String) (plain : Bool) (written : Written) : Kind :=
  let found := match written with
    | .chars cs => Kind.of cs
    | .codes _ => .text
  match type with
  | none => if plain then found else .text
  | some "!" => found
  | some type => kindOfType type

/-- The kind of a list or map that is of its own kind unless it has a type. -/
def kindOr (own : Kind) (type : Option String) : Kind :=
  match type with
  | none | some "!" => own
  | some type => kindOfType type

/-- The name and the type in front of a value, in either order. -/
def properties : Parse (Option String × Option String) := do
  match ← peek with
  | some (.anchor name) =>
    drop
    match ← peek with
    | some (.type handle suffix) =>
      drop
      pure (some name, some (← expand handle suffix))
    | _ => pure (some name, none)
  | some (.type handle suffix) =>
    drop
    let type ← expand handle suffix
    match ← peek with
    | some (.anchor name) =>
      drop
      pure (some name, some type)
    | _ => pure (none, some type)
  | _ => pure (none, none)

def resolve (anchor : String) : Parse Tree := do
  match (← get).anchors.lookup anchor with
  | some number => pure (.named number)
  | none => refuse

/-- Sets a new name apart, for a value that begins here. -/
def nameNew (anchor : String) : Parse Nat := do
  let s ← get
  if (s.anchors.lookup anchor).isSome then refuse
  modify fun s =>
    { s with anchors := (anchor, s.named.size) :: s.anchors, named := s.named.push .empty }
  pure s.named.size

/-! ## Values -/

mutual

/-- A value. Outside of brackets it may be a block, and where `unindented` is true a list whose items
are not indented. -/
def tree : Nat → Bool → Bool → Parse Tree
  | 0, _, _ => refuse
  | fuel + 1, block, unindented => do
    match ← peek with
    | some (.alias anchor) =>
      drop
      resolve anchor
    | _ =>
      let (anchor, type) ← properties
      let _ ← peek
      match anchor with
      | none => content fuel block unindented false type
      | some anchor =>
        let number ← nameNew anchor
        let found ← content fuel block unindented true type
        modify fun s => { s with named := s.named.setIfInBounds number found }
        pure (.named number)

def content : Nat → Bool → Bool → Bool → Option String → Parse Tree
  | 0, _, _, _, _ => refuse
  | fuel + 1, block, unindented, named, type => do
    match ← peek with
    | some (.scalar plain written) =>
      drop
      pure (.scalar (scalarKind type plain written) written)
    | some .listStart =>
      drop
      pure (.list (← number) (kindOr .list type) (← flowItems fuel true))
    | some .mapStart =>
      drop
      pure (.map (← number) (kindOr .map type) (← flowEntries fuel true))
    | token =>
      if unindented ∧ token = some .item then
        pure (.list (← number) (kindOr .list type) (← plainItems fuel))
      else if block ∧ token = some .blockListStart then
        drop
        pure (.list (← number) (kindOr .list type) (← blockItems fuel))
      else if block ∧ token = some .blockMapStart then
        drop
        pure (.map (← number) (kindOr .map type) (← blockEntries fuel))
      else if named ∨ type.isSome then
        pure (.scalar (scalarKind type true (.chars [])) (.chars []))
      else refuse

def blockItems : Nat → Parse (List Tree)
  | 0 => refuse
  | fuel + 1 => do
    if (← peek) = some .item then
      drop
      let first ←
        if ← atAny [.item, .blockEnd] then pure .empty else tree fuel true false
      pure (first :: (← blockItems fuel))
    else
      expect .blockEnd
      pure []

def plainItems : Nat → Parse (List Tree)
  | 0 => refuse
  | fuel + 1 => do
    if (← peek) = some .item then
      drop
      let first ←
        if ← atAny [.item, .key, .value, .blockEnd] then pure .empty else tree fuel true false
      pure (first :: (← plainItems fuel))
    else pure []

/-- The entries of a block up to its end. A key or a value may be missing. -/
def blockEntries : Nat → Parse (List (Tree × Tree))
  | 0 => refuse
  | fuel + 1 => do
    if (← peek) = some .key then
      drop
      let key ←
        if ← atAny [.key, .value, .blockEnd] then pure .empty else tree fuel true true
      let value ←
        if (← peek) = some .value then do
          drop
          if ← atAny [.key, .value, .blockEnd] then pure .empty else tree fuel true true
        else pure .empty
      pure ((key, value) :: (← blockEntries fuel))
    else
      expect .blockEnd
      pure []

/-- The items of a list in brackets up to the closing one. An item with the mark of a key or value is
a map of one entry. -/
def flowItems : Nat → Bool → Parse (List Tree)
  | 0, _ => refuse
  | fuel + 1, first => do
    if (← peek) = some .listEnd then
      drop
      pure []
    else
      if !first then expect .comma
      if (← peek) = some .listEnd then
        drop
        pure []
      else
        let item ←
          if (← peek) = some .key then do
            drop
            let number ← number
            let key ←
              if ← atAny [.value, .comma, .listEnd] then pure .empty else tree fuel false false
            let value ← flowValue fuel .listEnd
            pure (.map number .map [(key, value)])
          else tree fuel false false
        pure (item :: (← flowItems fuel false))

def flowEntries : Nat → Bool → Parse (List (Tree × Tree))
  | 0, _ => refuse
  | fuel + 1, first => do
    if (← peek) = some .mapEnd then
      drop
      pure []
    else
      if !first then expect .comma
      if (← peek) = some .mapEnd then
        drop
        pure []
      else
        let entry ←
          if (← peek) = some .key then do
            drop
            let key ←
              if ← atAny [.value, .comma, .mapEnd] then pure .empty else tree fuel false false
            pure (key, ← flowValue fuel .mapEnd)
          else do
            pure (← tree fuel false false, .empty)
        pure (entry :: (← flowEntries fuel false))

def flowValue : Nat → Token → Parse Tree
  | 0, _ => refuse
  | fuel + 1, closing => do
    if (← peek) = some .value then
      drop
      if ← atAny [.comma, closing] then pure .empty else tree fuel false false
    else pure .empty

end

/-! ## Documents -/

/-- The directives in front of a document. The version may be given once and has to be the first; a
short form of names may be given once. -/
def directives : Nat → Bool → List (String × String) → Parse (List (String × String))
  | 0, _, _ => refuse
  | fuel + 1, versioned, handles => do
    match ← peek with
    | some (.version major) =>
      drop
      if versioned ∨ major ≠ 1 then refuse else directives fuel true handles
    | some (.handle handle expansion) =>
      drop
      if (handles.lookup handle).isSome then refuse
      else directives fuel versioned (handles ++ [(handle, expansion)])
    | some .reserved =>
      drop
      directives fuel versioned handles
    | _ => pure handles

def isDirective : Token → Bool
  | .version _ | .handle _ _ | .reserved => true
  | _ => false

/-- Passes over the marks at the end of a document, behind which there must be nothing. -/
def ending : Nat → Parse Unit
  | 0 => refuse
  | fuel + 1 => do
    match ← peek with
    | none => pure ()
    | some .documentEnd =>
      drop
      ending fuel
    | some _ =>
      let _ ← directives fuel false []
      let _ ← peek
      refuse

def document (fuel : Nat) : Parse (Option Tree) := do
  match ← peek with
  | none => pure none
  | some token =>
    let found ←
      if isDirective token ∨ token = .documentStart then do
        let handles ← directives fuel false []
        modify fun s => { s with handles := handles ++ standardHandles }
        expect .documentStart
        match ← peek with
        | none => pure .empty
        | some token =>
          if isDirective token ∨ token = .documentStart ∨ token = .documentEnd then pure .empty
          else tree fuel true false
      else tree fuel true false
    ending fuel
    pure (some found)

end Parse

structure Document where
  root : Tree
  /-- The values that have names, by their numbers. -/
  named : Array Tree
  /-- How many lists and maps there are. -/
  count : Nat

/-- The document that tokens make up, if there is one; `fault` is what is wrong with the text behind
them. Every value takes a token or stands next to one, and the functions that read it take at most
three steps for it. -/
def Document.ofTokens (tokens : List Token) (fault : Option YamlFault) :
    Except YamlFault (Option Document) := do
  let fuel := 3 * tokens.length + 9
  let (found, s) ← (Parse.document fuel).run { tokens, fault, handles := Parse.standardHandles }
  pure (found.map fun root => ⟨root, s.named, s.count⟩)

end Stylesheet.Data.Yaml
