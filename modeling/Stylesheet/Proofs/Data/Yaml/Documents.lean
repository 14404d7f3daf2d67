import Mathlib
import Stylesheet.Data.Yaml.Tree
import Stylesheet.Proofs.Data.Yaml.Tokens

/-!
# The documents of written data

The tokens of data make up its tree again. Lists and maps are numbered in the order in which they begin,
so that the state between two trees is told by the tokens that are left and the count of lists and maps
so far.

* `Gives` : a computation that ends with a value in a state.
* `Parse.makesUp_of_writable` : the tree of any data.
* `Parse.ofTokens_tokensOf` : a whole document.
-/

namespace Stylesheet.Data.Yaml

/-! ## Trees -/

def atomTree (a : Atom) : Tree :=
  .scalar (if isPlainAtom a then Kind.of (atomChars a) else .text) (.chars (atomChars a))

mutual

/-- How many lists and maps data consists of. -/
def boxCount : Data → Nat
  | .atom _ => 0
  | .list items => itemBoxCount items + 1
  | .map entries => entryBoxCount entries + 1

def itemBoxCount : List Data → Nat
  | [] => 0
  | d :: ds => boxCount d + itemBoxCount ds

def entryBoxCount : List (Atom × Data) → Nat
  | [] => 0
  | (_, d) :: entries => boxCount d + entryBoxCount entries

end

mutual

/-- The tree of data, of which the lists and maps are numbered in the order in which they begin. -/
def treeOf (number : Nat) : Data → Tree
  | .atom a => atomTree a
  | .list items => .list number .list (itemTrees (number + 1) items)
  | .map entries => .map number .map (entryTrees (number + 1) entries)

def itemTrees (number : Nat) : List Data → List Tree
  | [] => []
  | d :: ds => treeOf number d :: itemTrees (number + boxCount d) ds

def entryTrees (number : Nat) : List (Atom × Data) → List (Tree × Tree)
  | [] => []
  | (key, d) :: entries =>
    (atomTree key, treeOf number d) :: entryTrees (number + boxCount d) entries

end

/-! ## Computations that succeed -/

section

variable {σ α β : Type} {p : StateT σ (Except YamlFault) α} {f : α → StateT σ (Except YamlFault) β}
  {a : α} {b : β} {s s' s'' : σ}

/-- Whether a computation gives a value and a further state. -/
def Gives (p : StateT σ (Except YamlFault) α) (s : σ) (a : α) (s' : σ) : Prop :=
  p s = .ok (a, s')

theorem Gives.pure (a : α) (s : σ) : Gives (pure a) s a s := rfl

/-- What one parser gives is what the next goes on with. -/
theorem Gives.bind (h : Gives p s a s') (h' : Gives (f a) s' b s'') : Gives (p >>= f) s b s'' := by
  show (p s >>= fun r => f r.1 r.2) = _
  rw [h]
  exact h'

end

namespace Parse

section

variable {s : ParseState} {token : Token} {tokens : List Token}

/-- The state with other tokens, after some lists and maps. -/
def state (tokens : List Token) (count : Nat) (s : ParseState) : ParseState :=
  { s with tokens, count }

theorem gives_peek (count : Nat) :
    Gives peek (state (token :: tokens) count s) (some token) (state (token :: tokens) count s) := rfl

theorem gives_peek_end (h : s.fault = none) (count : Nat) :
    Gives peek (state [] count s) none (state [] count s) := by
  obtain ⟨tokens, fault, handles, anchors, named, count⟩ := s
  obtain rfl : fault = none := h
  rfl

theorem gives_drop (count : Nat) :
    Gives drop (state (token :: tokens) count s) () (state tokens count s) := rfl

theorem gives_number (count : Nat) :
    Gives number (state tokens count s) count (state tokens (count + 1) s) := rfl

theorem gives_atAny (candidates : List Token) (count : Nat) :
    Gives (atAny candidates) (state (token :: tokens) count s) (candidates.contains token)
      (state (token :: tokens) count s) := rfl

theorem gives_expect (count : Nat) :
    Gives (expect token) (state (token :: tokens) count s) () (state tokens count s) := by
  refine (gives_peek count).bind ?_
  rw [if_pos rfl]
  exact gives_drop count

end

/-! ## Values -/

/-- The tokens with which a value starts that has neither a name nor a type. -/
inductive Starts : Token → Prop
  | scalar (plain : Bool) (text : Written) : Starts (.scalar plain text)
  | listStart : Starts .listStart
  | blockMapStart : Starts .blockMapStart
  | item : Starts .item

section

variable {s s' : ParseState} {token : Token} {tokens : List Token} {found : Tree} {fuel count : Nat}
  {block unindented : Bool}

/-- In front of the value nothing is passed over. -/
theorem gives_tree (hstart : Starts token)
    (h : Gives (content fuel block unindented false none) (state (token :: tokens) count s) found s') :
    Gives (tree (fuel + 1) block unindented) (state (token :: tokens) count s) found s' := by
  have hproperties : Gives properties (state (token :: tokens) count s) (none, none)
      (state (token :: tokens) count s) := by
    cases hstart <;> exact (gives_peek count).bind (.pure _ _)
  cases hstart <;> exact (gives_peek count).bind (hproperties.bind ((gives_peek count).bind h))

/-- A scalar token gives its atom. -/
theorem gives_scalar (a : Atom) :
    Gives (tree (fuel + 2) block unindented) (state (atomToken a :: tokens) count s) (atomTree a)
      (state tokens count s) := by
  refine gives_tree (.scalar _ _) ?_
  refine (gives_peek count).bind ((gives_drop count).bind ?_)
  exact .pure _ _

theorem gives_emptyList :
    Gives (tree (fuel + 3) block unindented) (state (.listStart :: .listEnd :: tokens) count s)
      (.list count .list []) (state tokens (count + 1) s) := by
  refine gives_tree .listStart ?_
  refine (gives_peek count).bind ((gives_drop count).bind ((gives_number count).bind ?_))
  have hitems : Gives (flowItems (fuel + 1) true) (state (.listEnd :: tokens) (count + 1) s) []
      (state tokens (count + 1) s) :=
    (gives_peek _).bind ((gives_drop _).bind (.pure _ _))
  exact hitems.bind (.pure _ _)

/-- The items of a block give a list, which is numbered first. -/
theorem gives_list {items : List Tree} {count' : Nat} {rest : List Token}
    (h : Gives (plainItems fuel) (state (.item :: tokens) (count + 1) s) items
      (state rest count' s)) :
    Gives (tree (fuel + 2) block true) (state (.item :: tokens) count s) (.list count .list items)
      (state rest count' s) := by
  refine gives_tree .item ?_
  refine (gives_peek count).bind ((gives_number count).bind ?_)
  exact h.bind (.pure _ _)

/-- The entries of a block give a map, which is numbered first. -/
theorem gives_map {entries : List (Tree × Tree)} {count' : Nat} {rest : List Token}
    (h : Gives (blockEntries fuel) (state tokens (count + 1) s) entries (state rest count' s)) :
    Gives (tree (fuel + 2) true unindented) (state (.blockMapStart :: tokens) count s)
      (.map count .map entries) (state rest count' s) := by
  refine gives_tree .blockMapStart ?_
  refine (gives_peek count).bind ?_
  dsimp only
  rw [if_neg (by simp), if_neg (by simp), if_pos (by simp)]
  exact (gives_drop count).bind ((gives_number count).bind (h.bind (.pure _ _)))

/-! ## Items and entries -/

/-- An item gives its value and is followed by more. -/
theorem gives_item {first : Tree} {more : List Tree} {rest : List Token} {count' : Nat}
    (hstart : token = .listStart ∨ token = .blockMapStart ∨
      ∃ plain text, token = .scalar plain text)
    (hfirst : Gives (tree fuel true false) (state (token :: tokens) count s) first s')
    (hmore : Gives (plainItems fuel) s' more (state rest count' s)) :
    Gives (plainItems (fuel + 1)) (state (.item :: token :: tokens) count s) (first :: more)
      (state rest count' s) := by
  refine (gives_peek count).bind ?_
  rw [if_pos rfl]
  refine (gives_drop count).bind ((gives_atAny _ count).bind ?_)
  rw [if_neg]
  · exact hfirst.bind (hmore.bind (.pure _ _))
  · rcases hstart with rfl | rfl | ⟨plain, text, rfl⟩ <;> simp

theorem gives_noItem (hend : token ≠ .item) :
    Gives (plainItems (fuel + 1)) (state (token :: tokens) count s) []
      (state (token :: tokens) count s) := by
  refine (gives_peek count).bind ?_
  rw [if_neg (by simpa using hend)]
  exact .pure _ _

/-- An entry gives its key and value and is followed by more. -/
theorem gives_entry {key : Atom} {value : Tree} {more : List (Tree × Tree)} {rest : List Token}
    {count' : Nat} (hstart : Starts token)
    (hvalue : Gives (tree (fuel + 2) true true) (state (token :: tokens) count s) value s')
    (hmore : Gives (blockEntries (fuel + 2)) s' more (state rest count' s)) :
    Gives (blockEntries (fuel + 3)) (state (.key :: atomToken key :: .value :: token :: tokens) count s)
      ((atomTree key, value) :: more) (state rest count' s) := by
  refine (gives_peek count).bind ?_
  rw [if_pos rfl]
  refine (gives_drop count).bind ((gives_atAny _ count).bind ?_)
  rw [if_neg (by simp [atomToken])]
  refine (gives_scalar key).bind ((gives_peek count).bind ?_)
  rw [if_pos rfl]
  refine (gives_drop count).bind ((gives_atAny _ count).bind ?_)
  rw [if_neg (by cases hstart <;> simp)]
  exact hvalue.bind (hmore.bind (.pure _ _))

theorem gives_noEntry :
    Gives (blockEntries (fuel + 1)) (state (.blockEnd :: tokens) count s) []
      (state tokens count s) := by
  refine (gives_peek count).bind ?_
  rw [if_neg (by simp)]
  exact (gives_expect count).bind (.pure _ _)

end

/-! ## Written data -/

/-- The tokens of a value start like a value, and not with the mark of an item unless it is a list. -/
theorem tokensOf_eq_cons (d : Data) : ∃ token tokens, tokensOf d = token :: tokens ∧ Starts token ∧
    ((∀ items, d ≠ .list items) → token = .listStart ∨ token = .blockMapStart ∨
      ∃ plain text, token = .scalar plain text) := by
  cases d with
  | atom a => exact ⟨_, _, rfl, .scalar _ _, fun _ => .inr (.inr ⟨_, _, rfl⟩)⟩
  | list items =>
      cases items with
      | nil => exact ⟨_, _, rfl, .listStart, fun h => absurd rfl (h [])⟩
      | cons item items => exact ⟨_, _, rfl, .item, fun h => absurd rfl (h _)⟩
  | map entries => exact ⟨_, _, rfl, .blockMapStart, fun _ => .inr (.inl rfl)⟩

/-- Whether the tokens of a value make up its tree, whatever comes after them. Behind a list, which is
not indented, there is another token than the mark of an item. -/
def MakesUp (d : Data) : Prop :=
  ∀ (s : ParseState) (count fuel : Nat) (unindented : Bool) (rest : List Token),
    (∀ item items, d = .list (item :: items) →
      unindented = true ∧ ∃ next more, rest = next :: more ∧ next ≠ .item) →
    3 * (tokensOf d).length + 3 ≤ fuel →
    Gives (tree fuel true unindented) (state (tokensOf d ++ rest) count s) (treeOf count d)
      (state rest (count + boxCount d) s)

variable {s : ParseState} {next : Token} {more : List Token}

/-- The items' tokens give their trees, numbered in reading order. -/
theorem gives_items {items : List Data} (h : ∀ d ∈ items, MakesUp d)
    (hturn : ∀ d ∈ items, ∀ inner, d ≠ .list inner) (hnext : next ≠ .item) (fuel : Nat)
    (hfuel : 3 * (itemTokens items).length + 1 ≤ fuel) (count : Nat) :
    Gives (plainItems fuel) (state (itemTokens items ++ next :: more) count s)
      (itemTrees count items) (state (next :: more) (count + itemBoxCount items) s) := by
  induction items generalizing fuel count with
  | nil =>
      obtain ⟨fuel, rfl⟩ := Nat.exists_eq_add_one.mpr (Nat.lt_of_lt_of_le (Nat.succ_pos _) hfuel)
      exact gives_noItem hnext
  | cons d items ih =>
      obtain ⟨fuel, rfl⟩ := Nat.exists_eq_add_one.mpr (Nat.lt_of_lt_of_le (Nat.succ_pos _) hfuel)
      rw [List.forall_mem_cons] at h hturn
      simp only [itemTokens, List.cons_append, List.length_cons, List.length_append,
        List.append_assoc] at hfuel ⊢
      have hfirst := h.1 s count fuel false (itemTokens items ++ next :: more)
        (fun item inner heq => absurd heq (hturn.1 _)) (by omega)
      have hmore := ih h.2 hturn.2 fuel (by omega) (count + boxCount d)
      obtain ⟨token, tokens, htokens, -, hstart⟩ := tokensOf_eq_cons d
      rw [htokens, List.cons_append] at hfirst ⊢
      rw [Nat.add_assoc] at hmore
      exact gives_item (hstart hturn.1) hfirst hmore

/-- The entries' tokens give their trees, numbered in reading order. -/
theorem gives_entries {entries : List (Atom × Data)} (h : ∀ entry ∈ entries, MakesUp entry.2)
    (fuel : Nat) (hfuel : 3 * (entryTokens entries).length + 1 ≤ fuel) (count : Nat) :
    Gives (blockEntries fuel) (state (entryTokens entries ++ .blockEnd :: more) count s)
      (entryTrees count entries) (state more (count + entryBoxCount entries) s) := by
  induction entries generalizing fuel count with
  | nil =>
      obtain ⟨fuel, rfl⟩ := Nat.exists_eq_add_one.mpr (Nat.lt_of_lt_of_le (Nat.succ_pos _) hfuel)
      exact gives_noEntry
  | cons entry entries ih =>
      obtain ⟨key, d⟩ := entry
      rw [List.forall_mem_cons] at h
      simp only [entryTokens, List.cons_append, List.nil_append, List.length_cons,
        List.length_append, List.append_assoc] at hfuel ⊢
      obtain ⟨fuel, rfl⟩ : ∃ rest, fuel = rest + 3 := ⟨fuel - 3, by omega⟩
      have hnext : ∃ next after, entryTokens entries ++ .blockEnd :: more = next :: after ∧
          next ≠ .item := by
        cases entries with
        | nil => exact ⟨.blockEnd, more, rfl, by simp⟩
        | cons entry entries => exact ⟨.key, _, rfl, by simp⟩
      have hvalue := h.1 s count (fuel + 2) true (entryTokens entries ++ .blockEnd :: more)
        (fun _ _ _ => ⟨rfl, hnext⟩) (by simp only; omega)
      have hmore := ih h.2 (fuel + 2) (by omega) (count + boxCount d)
      obtain ⟨token, tokens, htokens, hstart, -⟩ := tokensOf_eq_cons d
      rw [htokens, List.cons_append] at hvalue ⊢
      rw [Nat.add_assoc] at hmore
      exact gives_entry hstart hvalue hmore

/-- **Trees.** The tokens of written data make up its tree. -/
theorem makesUp_of_writable {d : Data} (h : Writable d) : MakesUp d := by
  have of_atom (a : Atom) : MakesUp (.atom a) := by
    intro s count fuel unindented rest _ hfuel
    obtain ⟨fuel, rfl⟩ : ∃ rest, fuel = rest + 2 := ⟨fuel - 2, by omega⟩
    exact gives_scalar a
  induction h with
  | null => exact of_atom _
  | bool => exact of_atom _
  | int => exact of_atom _
  | text => exact of_atom _
  | @list items h hturn ih =>
      intro s count fuel unindented rest hlist hfuel
      obtain ⟨fuel, rfl⟩ : ∃ rest, fuel = rest + 3 := ⟨fuel - 3, by omega⟩
      cases items with
      | nil => exact gives_emptyList
      | cons item items =>
          obtain ⟨rfl, next, more, rfl, hnext⟩ := hlist item items rfl
          -- a list or a map is numbered before what is in it
          have hcount : count + boxCount (.list (item :: items)) =
              count + 1 + itemBoxCount (item :: items) := by
            rw [boxCount]
            omega
          rw [hcount]
          simp only [tokensOf] at hfuel
          exact gives_list (gives_items ih hturn hnext _ (by omega) (count + 1))
  | @map fields hne hdistinct hnames h hturn ih =>
      intro s count fuel unindented rest _ hfuel
      obtain ⟨fuel, rfl⟩ : ∃ rest, fuel = rest + 2 := ⟨fuel - 2, by omega⟩
      have hentries : ∀ entry ∈ fieldEntries fields, MakesUp entry.2 := by
        intro entry hentry
        obtain ⟨field, hfield, rfl⟩ := List.mem_map.mp hentry
        exact ih field hfield
      have hcount : count + boxCount (.ofFields fields) =
          count + 1 + entryBoxCount (fieldEntries fields) := by
        rw [Data.ofFields, boxCount, fieldEntries]
        omega
      have htokens : tokensOf (.ofFields fields) ++ rest =
          .blockMapStart :: (entryTokens (fieldEntries fields) ++ .blockEnd :: rest) := by
        simp [Data.ofFields, tokensOf, fieldEntries]
      have hlength : (tokensOf (.ofFields fields)).length =
          (entryTokens (fieldEntries fields)).length + 2 := by
        simp [Data.ofFields, tokensOf, fieldEntries]
      rw [hcount, htokens]
      exact gives_map (gives_entries hentries _ (by omega) (count + 1))

/-! ## The document -/

/-- **Documents.** The tokens of written data make up a document, in which nothing has a name. -/
theorem ofTokens_tokensOf {d : Data} (h : Writable d)
    (hroot : ∀ items, d ≠ .list items) :
    Document.ofTokens (tokensOf d) none = .ok (some ⟨treeOf 0 d, #[], boxCount d⟩) := by
  obtain ⟨s, hs⟩ : ∃ s : ParseState, s =
      { tokens := tokensOf d, fault := none, handles := standardHandles } := ⟨_, rfl⟩
  have hstate : s = state (tokensOf d) 0 s := by rw [hs]; rfl
  have htree := makesUp_of_writable h s 0 (3 * (tokensOf d).length + 9) false []
    (fun item items heq => absurd heq (hroot _)) (by omega)
  rw [List.append_nil, Nat.zero_add] at htree
  -- nothing stands behind the tree
  have hending : Gives (ending (3 * (tokensOf d).length + 9)) (state [] (boxCount d) s) ()
      (state [] (boxCount d) s) :=
    (gives_peek_end (by rw [hs]) _).bind (.pure _ _)
  have hdocument : Gives (document (3 * (tokensOf d).length + 9)) (state (tokensOf d) 0 s)
      (some (treeOf 0 d)) (state [] (boxCount d) s) := by
    obtain ⟨token, tokens, htokens, hstart, -⟩ := tokensOf_eq_cons d
    rw [htokens] at htree hending ⊢
    refine (gives_peek 0).bind ?_
    dsimp only
    rw [if_neg (by cases hstart <;> simp [isDirective])]
    exact htree.bind (hending.bind (.pure _ _))
  rw [← hstate] at hdocument
  rw [Document.ofTokens]
  simp only [StateT.run, ← hs]
  rw [show document _ s = _ from hdocument]
  rw [hs]
  rfl

end Parse

end Stylesheet.Data.Yaml
