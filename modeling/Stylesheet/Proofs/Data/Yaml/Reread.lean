import Mathlib
import Stylesheet.Proofs.Data.Yaml.Quoted

/-!
# Data as it is read back

Written data comes back as it was, but for its brittle texts. `reread` changes these, each for the
indentation that it has.

* `Writable` : the data that is followed from its text to its values.
* `reread_eq_self_iff` : data without brittle texts is the data that comes back.
-/

namespace Stylesheet.Data.Yaml

/-! ## Data that is written -/

/-- Whether a text may stand as the name of an entry: plainly, in one word. -/
def isName (cs : List Char) : Bool :=
  isPlain cs && isShortKey cs && !cs.contains ' '

/-- Data that is read back but for brittle texts: maps with different names and lists take turns, and no
integer is too long. -/
inductive Writable : Data → Prop
  | null : Writable .null
  | bool (b : Bool) : Writable (.bool b)
  | int {n : Int} (h : Json.Fits true n) : Writable (.int n)
  | text (s : String) : Writable (.text s)
  | list {items : List Data} (h : ∀ d ∈ items, Writable d)
      (hturn : ∀ d ∈ items, ∀ inner, d ≠ .list inner) : Writable (.list items)
  | map {fields : List (String × Data)} (hne : fields ≠ []) (hdistinct : (fields.map (·.1)).Nodup)
      (hnames : ∀ field ∈ fields, isName field.1.toList) (h : ∀ field ∈ fields, Writable field.2)
      (hturn : ∀ field ∈ fields, ∀ entries, field.2 ≠ .map entries) : Writable (.ofFields fields)

/-- A map that can be written has fields with names, and no map among their values. -/
theorem Writable.exists_fields {entries : List (Atom × Data)} (h : Writable (.map entries)) :
    ∃ fields, fields ≠ [] ∧ (∀ field ∈ fields, isName field.1.toList) ∧
      (∀ field ∈ fields, Writable field.2) ∧
      (∀ field ∈ fields, ∀ entries, field.2 ≠ .map entries) ∧
      Data.map entries = .ofFields fields := by
  generalize hd : Data.map entries = d at h
  cases h with
  | map hne hdistinct hnames h hturn => exact ⟨_, hne, hnames, h, hturn, rfl⟩
  | _ => cases hd

/-! ## Reading back -/

def rereadText (indent : Nat) (s : String) : String :=
  String.ofList (Quoted.reread indent s.toList)

@[simp] theorem toList_rereadText (indent : Nat) (s : String) :
    (rereadText indent s).toList = Quoted.reread indent s.toList := by
  rw [rereadText, String.toList_ofList]

/-- A text comes back unchanged exactly when it is not brittle at its margin. -/
theorem rereadText_eq_self_iff {indent : Nat} {s : String} :
    rereadText indent s = s ↔ Quoted.isBrittle indent s.toList = false := by
  rw [← Quoted.reread_eq_self_iff, ← toList_rereadText, String.toList_inj]

mutual

/-- What data is read back as, if the further lines of its texts are indented by a depth. -/
def reread (indent : Nat) : Data → Data
  | .atom (.text s) => .text (rereadText indent s)
  | .atom a => .atom a
  | .list items => .list (rereadItems indent items)
  | .map entries => .map (rereadEntries (indent + 2) entries)

def rereadItems (indent : Nat) : List Data → List Data
  | [] => []
  | d :: ds => reread indent d :: rereadItems indent ds

def rereadEntries (indent : Nat) : List (Atom × Data) → List (Atom × Data)
  | [] => []
  | (key, d) :: entries => (key, reread indent d) :: rereadEntries indent entries

end

def fieldEntries (fields : List (String × Data)) : List (Atom × Data) :=
  fields.map fun field => (.text field.1, field.2)

theorem rereadItems_eq (indent : Nat) (items : List Data) :
    rereadItems indent items = items.map (reread indent) := by
  induction items with
  | nil => rfl
  | cons d items ih => rw [rereadItems, ih, List.map_cons]

theorem rereadEntries_fields (indent : Nat) (fields : List (String × Data)) :
    rereadEntries indent (fieldEntries fields) =
      fieldEntries (fields.map fun field => (field.1, reread indent field.2)) := by
  induction fields with
  | nil => rfl
  | cons field fields ih =>
      rw [fieldEntries, List.map_cons, rereadEntries, ← fieldEntries, ih]
      rfl

/-- Reading a map back changes its values only, each at its own margin. -/
theorem reread_ofFields (indent : Nat) (fields : List (String × Data)) :
    reread indent (.ofFields fields) =
      .ofFields (fields.map fun field => (field.1, reread (indent + 2) field.2)) := by
  rw [Data.ofFields, reread, ← fieldEntries, rereadEntries_fields]
  rfl

theorem reread_ne_list {indent : Nat} {d : Data} (h : ∀ items, d ≠ .list items) :
    ∀ items, reread indent d ≠ .list items := by
  cases d with
  | list items => exact absurd rfl (h items)
  | map entries => exact nofun
  | atom a => cases a <;> exact nofun

theorem reread_ne_map {indent : Nat} {d : Data} (h : ∀ entries, d ≠ .map entries) :
    ∀ entries, reread indent d ≠ .map entries := by
  cases d with
  | map entries => exact absurd rfl (h entries)
  | list items => exact nofun
  | atom a => cases a <;> exact nofun

/-- What is read back may be written again. -/
theorem Writable.reread {d : Data} (h : Writable d) (indent : Nat) : Writable (reread indent d) := by
  induction h generalizing indent with
  | null => exact .null
  | bool b => exact .bool b
  | int h => exact .int h
  | text s => exact .text _
  | list h hturn ih =>
      rw [Yaml.reread, rereadItems_eq]
      refine .list ?_ ?_ <;> rw [List.forall_mem_map]
      · exact fun d hd => ih d hd indent
      · exact fun d hd => reread_ne_list (hturn d hd)
  | map hne hdistinct hnames h hturn ih =>
      rw [reread_ofFields]
      refine .map (by simpa using hne) (by simpa [Function.comp_def] using hdistinct) ?_ ?_ ?_ <;>
        rw [List.forall_mem_map]
      · exact hnames
      · exact fun field hfield => ih field hfield (indent + 2)
      · exact fun field hfield => reread_ne_map (hturn field hfield)

/-! ## Brittle texts -/

mutual

/-- The texts of data, each with the indentation of its further lines. -/
def texts (indent : Nat) : Data → List (Nat × String)
  | .atom (.text s) => [(indent, s)]
  | .atom _ => []
  | .list items => itemTexts indent items
  | .map entries => entryTexts (indent + 2) entries

def itemTexts (indent : Nat) : List Data → List (Nat × String)
  | [] => []
  | d :: ds => texts indent d ++ itemTexts indent ds

def entryTexts (indent : Nat) : List (Atom × Data) → List (Nat × String)
  | [] => []
  | (_, d) :: entries => texts indent d ++ entryTexts indent entries

end

/-- Whether all texts come back as they were. -/
def AllSturdy (places : List (Nat × String)) : Prop :=
  ∀ place ∈ places, Quoted.isBrittle place.1 place.2.toList = false

theorem allSturdy_append {places more : List (Nat × String)} :
    AllSturdy (places ++ more) ↔ AllSturdy places ∧ AllSturdy more :=
  List.forall_mem_append

mutual

/-- Data comes back as it was exactly if all its texts do. -/
theorem reread_eq_self_iff (indent : Nat) : ∀ d : Data,
    reread indent d = d ↔ AllSturdy (texts indent d)
  | .atom a => by
    cases a with
    | text s => simp [reread, texts, AllSturdy, rereadText_eq_self_iff]
    | _ => simp [reread, texts, AllSturdy]
  | .list items => by
    rw [reread, texts, Data.list.injEq, rereadItems_eq_self_iff indent items]
  | .map entries => by
    rw [reread, texts, Data.map.injEq, rereadEntries_eq_self_iff (indent + 2) entries]

/-- Items come back unchanged exactly when all their texts are sturdy. -/
theorem rereadItems_eq_self_iff (indent : Nat) : ∀ items : List Data,
    rereadItems indent items = items ↔ AllSturdy (itemTexts indent items)
  | [] => by simp [rereadItems, itemTexts, AllSturdy]
  | d :: ds => by
    rw [rereadItems, itemTexts, List.cons_eq_cons, allSturdy_append, reread_eq_self_iff indent d,
      rereadItems_eq_self_iff indent ds]

theorem rereadEntries_eq_self_iff (indent : Nat) : ∀ entries : List (Atom × Data),
    rereadEntries indent entries = entries ↔ AllSturdy (entryTexts indent entries)
  | [] => by simp [rereadEntries, entryTexts, AllSturdy]
  | (key, d) :: entries => by
    rw [rereadEntries, entryTexts, List.cons_eq_cons, Prod.mk.injEq, eq_self, true_and,
      allSturdy_append, reread_eq_self_iff indent d, rereadEntries_eq_self_iff indent entries]

end

end Stylesheet.Data.Yaml
