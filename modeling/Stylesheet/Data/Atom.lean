import Stylesheet.Data.Timestamp
import Stylesheet.Number.Length
import Stylesheet.Number.Shortest
import Stylesheet.Text.Quoted

/-!
# Values that hold no others

Atoms are what data is made of in the end, and the keys of maps.

* `Atom.atMost_total` : of two numbers one is not greater than the other.
-/

namespace Stylesheet

/-- A value of a data file that holds no others. -/
inductive Atom where
  | null
  | bool (value : Bool)
  | int (value : Int)
  | float (value : Float)
  | text (value : String)
  /-- A text of which some code points are no characters. -/
  | codes (value : List Nat)
  | bytes (value : List UInt8)
  | timestamp (value : Timestamp)
  deriving BEq, Inhabited

namespace Atom

def ofCodes (codes : List Nat) : Atom :=
  if codes.all fun n => n.isValidChar then text (String.ofList (codes.map Char.ofNat))
  else .codes codes

/-! ## Showing atoms -/

def quoted : Atom → Except Number.TooLong String
  | null => .ok "None"
  | bool true => .ok "True"
  | bool false => .ok "False"
  | int n => Number.write n
  | float x => .ok (Number.shown x)
  | text s => .ok (Text.quoted s)
  | codes ns => .ok (Text.quotedCodes ns)
  | bytes bs => .ok (Text.quotedBytes bs)
  | timestamp t => .ok t.quoted

/-- An atom as a text: a text itself, and everything else as it is quoted. What is no character has a
sign in its place. -/
def shown : Atom → Except Number.TooLong String
  | text s => .ok s
  | codes ns => .ok (String.ofList (ns.map fun n => if n.isValidChar then Char.ofNat n else '\ufffd'))
  | timestamp t => .ok t.shown
  | a => a.quoted

/-! ## Keys -/

/-- The exact worth of a number as a fraction; truth values count as one and zero, and an infinity has
the denominator zero. -/
def worth? : Atom → Option (Int × Nat)
  | bool b => some (if b then 1 else 0, 1)
  | int n => some (n, 1)
  | float x =>
    if x.isNaN then none
    else match Number.Dyadic.ofFloat? x with
      | some d => some (if d.negative then -d.quotient.1 else d.quotient.1, d.quotient.2)
      | none => some (if x < 0 then -1 else 1, 0)
  | _ => none

def atMost (a b : Int × Nat) : Bool :=
  if a.2 = 0 ∧ b.2 = 0 then a.1 ≤ b.1 else a.1 * b.2 ≤ b.1 * a.2

/-- Whether an atom is what no number is. -/
def isNaN : Atom → Bool
  | float x => x.isNaN
  | _ => false

/-- Whether two atoms are the same key of a map. Numbers are the same key if they are worth the same,
whatever their kind. -/
def sameKey : Atom → Atom → Bool
  | null, null => true
  | text a, text b => a == b
  | codes a, codes b => a == b
  | bytes a, bytes b => a == b
  | timestamp a, timestamp b => a.position == b.position
  | a, b => match a.worth?, b.worth? with
    | some x, some y => atMost x y && atMost y x
    | _, _ => a.isNaN && b.isNaN

/-- Whether numbers come before other ones or are the same: the first difference decides, and nothing
comes first. -/
def inOrder : List Nat → List Nat → Bool
  | [], _ => true
  | _ :: _, [] => false
  | a :: as, b :: bs => if a = b then inOrder as bs else Nat.blt a b

def codesOf (s : String) : List Nat :=
  s.toList.map Char.toNat

/-- Whether an atom comes before another one or is worth the same; atoms of different kinds have no
order, unless they are numbers. -/
def precedes? : Atom → Atom → Option Bool
  | text a, text b => some (inOrder (codesOf a) (codesOf b))
  | text a, codes b => some (inOrder (codesOf a) b)
  | codes a, text b => some (inOrder a (codesOf b))
  | codes a, codes b => some (inOrder a b)
  | bytes a, bytes b => some (inOrder (a.map UInt8.toNat) (b.map UInt8.toNat))
  | timestamp a, timestamp b => a.precedes? b
  | a, b => match a.worth?, b.worth? with
    | some x, some y => some (atMost x y)
    | some _, none => if b.isNaN then some true else none
    | none, some _ => if a.isNaN then some true else none
    | none, none => if a.isNaN && b.isNaN then some true else none

def sorted? : List Atom → Option (List Atom)
  | [] => some []
  | [a] => some [a]
  | as =>
    if as.all fun a => as.all fun b => (precedes? a b).isSome then
      some (as.mergeSort fun a b => (precedes? a b).getD true)
    else none

/-! ## Looking into atoms -/

/-- The atoms of which an atom consists one by one: the characters of a text, the numbers of bytes. -/
def elements? : Atom → Option (List Atom)
  | text s => some (s.toList.map fun c => text c.toString)
  | codes ns => some (ns.map fun n => ofCodes [n])
  | bytes bs => some (bs.map fun b => int b.toNat)
  | _ => none

def isEmpty : Atom → Bool
  | null => true
  | bool b => !b
  | int n => n == 0
  | float x => x == 0
  | text s => s.isEmpty
  | codes ns => ns.isEmpty
  | bytes bs => bs.isEmpty
  | timestamp _ => false

def text? : Atom → Option String
  | text s => some s
  | _ => none

/-- Of two numbers one is not greater than the other. -/
theorem atMost_total (a b : Int × Nat) : atMost a b = true ∨ atMost b a = true := by
  unfold atMost
  by_cases h : a.2 = 0 ∧ b.2 = 0
  · simpa [h] using Int.le_total a.1 b.1
  · have h' : ¬(b.2 = 0 ∧ a.2 = 0) := fun hb => h hb.symm
    simpa [h, h'] using Int.le_total (a.1 * b.2) (b.1 * a.2)

end Atom

end Stylesheet
