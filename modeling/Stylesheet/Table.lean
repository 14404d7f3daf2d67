import Stylesheet.Line
import Stylesheet.Text.Quoted

/-!
# Ordered tables

A table keeps its entries in the order in which their names were first defined; defining a name
again replaces its value and keeps its place.

* `get?_set_self`, `get?_set_of_ne` : a look-up after a definition.
* `All.set`, `All.setIfAbsent` : what holds of all values goes on to hold of them.
-/

namespace Stylesheet

/-- Named values in the order of their first definition. -/
structure Table (α : Type) where
  entries : List (String × α) := []
  deriving Repr

namespace Table

variable {α : Type}

def setEntries (name : String) (value : α) : List (String × α) → List (String × α)
  | [] => [(name, value)]
  | (n, v) :: rest =>
    if n = name then (name, value) :: rest else (n, v) :: setEntries name value rest

def set (t : Table α) (name : String) (value : α) : Table α :=
  ⟨setEntries name value t.entries⟩

def get? (t : Table α) (name : String) : Option α :=
  (t.entries.find? (·.1 = name)).map (·.2)

def contains (t : Table α) (name : String) : Bool :=
  (t.get? name).isSome

def setIfAbsent (t : Table α) (name : String) (value : α) : Table α :=
  if t.contains name then t else t.set name value

def names (t : Table α) : List String :=
  t.entries.map (·.1)

def size (t : Table α) : Nat :=
  t.entries.length

def setAll (t : Table α) (entries : List (String × α)) : Table α :=
  entries.foldl (fun t entry => t.set entry.1 entry.2) t

def ofList (entries : List (String × α)) : Table α :=
  setAll {} entries

/-- A name that is set holds its value. -/
@[simp] theorem get?_set_self (t : Table α) (name : String) (value : α) :
    (t.set name value).get? name = some value := by
  obtain ⟨entries⟩ := t
  simp only [set, get?]
  induction entries with
  | nil => simp [setEntries]
  | cons entry rest ih =>
    obtain ⟨n, v⟩ := entry
    by_cases h : n = name <;> simp [setEntries, h, ih]

/-- Setting one name leaves the others. -/
theorem get?_set_of_ne (t : Table α) {name other : String} (value : α) (h : other ≠ name) :
    (t.set name value).get? other = t.get? other := by
  obtain ⟨entries⟩ := t
  simp only [set, get?]
  induction entries with
  | nil => simp [setEntries, Ne.symm h]
  | cons entry rest ih =>
    obtain ⟨n, v⟩ := entry
    by_cases hn : n = name
    · subst hn
      simp [setEntries, Ne.symm h]
    · rw [setEntries, if_neg hn]
      by_cases ho : n = other <;> simp [ho, ih]

/-! ## All values -/

def All (P : α → Prop) (t : Table α) : Prop :=
  ∀ name value, t.get? name = some value → P value

/-- What holds of all values and of a new one holds after it is set. -/
theorem All.set {P : α → Prop} {t : Table α} (h : t.All P) (name : String) {value : α}
    (hvalue : P value) : (t.set name value).All P := by
  intro other found hfound
  by_cases hname : other = name
  · rw [hname, get?_set_self] at hfound
    cases hfound
    exact hvalue
  · rw [get?_set_of_ne _ _ hname] at hfound
    exact h other found hfound

theorem All.setIfAbsent {P : α → Prop} {t : Table α} (h : t.All P) (name : String) {value : α}
    (hvalue : P value) : (t.setIfAbsent name value).All P := by
  unfold Table.setIfAbsent
  split
  · exact h
  · exact h.set name hvalue

end Table

/-- The constants in effect: their names and the written forms of their values. -/
abbrev Constants := Table String

/-- The mixins in effect: their names and the lines of their bodies. -/
abbrev Mixins := Table (List Line)

def Constants.standard : Constants :=
  ⟨[("important", "!important")]⟩

/-- The standard constants and some more, which may replace them. -/
def Constants.withStandard (entries : List (String × String)) : Constants :=
  Table.setAll Constants.standard entries

def Constants.shown (constants : Constants) : String :=
  "ConstantTable(\x7b" ++
    String.intercalate ", " (constants.entries.map fun entry =>
      Text.quoted entry.1 ++ ": " ++ Text.quoted entry.2) ++ "\x7d)"

def Mixins.shown (mixins : Mixins) : String :=
  "MixinTable([" ++
    String.intercalate ", " ((mixins.names.mergeSort (fun a b => decide (a ≤ b))).map Text.quoted) ++
    "])"

end Stylesheet
