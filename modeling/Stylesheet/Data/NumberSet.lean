import Stylesheet.Data.Atom

/-!
# Sets of numbers

A set keeps numbers in the slots of a table, and they are gone through in the order of the slots. A
number has its first slot by its worth; where it is taken, others follow.

* `NumberSet.arranged` : the order of numbers in a set.
-/

namespace Stylesheet.NumberSet

def modulus : Nat :=
  Number.twoTo 61 - 1

/-- The residue of a fraction whose denominator is a power of two, as a word of 64 bits. -/
def residue (worth : Int × Nat) : Nat :=
  let r :=
    if worth.2 = 0 then 314159
    else worth.1.natAbs % modulus * Number.twoTo ((61 - Nat.log2 worth.2 % 61) % 61) % modulus
  if worth.1 < 0 then (Number.twoTo 64 - if r = 1 then 2 else r) % Number.twoTo 64
  else r

/-- The least power of two from `size` on that is greater than `count`. -/
def sizeOver (count : Nat) : Nat → Nat → Nat
  | 0, size => size
  | fuel + 1, size => if count < size then size else sizeOver count fuel (2 * size)

def slots (count : Nat) : Nat :=
  if count < 5 then 8 else sizeOver (2 * count) (2 * count) 8

def freeNear? (table : Array (Option Atom)) (slot : Nat) : Option Nat :=
  let last := if slot + 9 < table.size then slot + 9 else slot
  (List.range' slot (last + 1 - slot)).find? fun i => (table.getD i none).isNone

/-- The slot that a number gets. Further slots are tried one after the other, which takes one unit of
`fuel` each. -/
def freeFrom (table : Array (Option Atom)) : Nat → Nat → Nat → Nat
  | 0, slot, _ => slot
  | fuel + 1, slot, residue =>
    match freeNear? table slot with
    | some free => free
    | none =>
      let residue := residue / 32
      freeFrom table fuel ((5 * slot + 1 + residue) % table.size) residue

def insert (table : Array (Option Atom)) (a : Atom) (residue : Nat) : Array (Option Atom) :=
  let free := freeFrom table (64 + table.size) (residue % table.size) residue
  table.setIfInBounds free (some a)

/-- Atoms that are all different in the order in which a set keeps them. Only numbers have one of their
own; others stay as they are. -/
def arranged (items : List Atom) : List Atom :=
  match items.mapM fun a => a.worth?.map fun worth => (a, residue worth) with
  | none => items
  | some numbers =>
    let table := numbers.foldl (fun table entry => insert table entry.1 entry.2)
      (Array.replicate (slots items.length) none)
    table.toList.filterMap id

end Stylesheet.NumberSet
