/-!
# Base 64

Bytes are written six bits at a time with an alphabet of 64 characters, four of which make up three
bytes. Two or three characters that are left at the end are filled up with equals signs.

* `decode?` : the bytes that a text writes.
-/

namespace Stylesheet.Text.Base64

def value? (c : Char) : Option Nat :=
  if 'A' ≤ c ∧ c ≤ 'Z' then some (c.toNat - 65)
  else if 'a' ≤ c ∧ c ≤ 'z' then some (c.toNat - 71)
  else if '0' ≤ c ∧ c ≤ '9' then some (c.toNat + 4)
  else if c = '+' then some 62
  else if c = '/' then some 63
  else none

/-- The bytes of the rest of a text within a group of four. Of the group, `place` characters have
been read, their bits that belong to no byte yet make up `left`, and `fill` equals signs have come
since. The text ends with its group filled up; what is no character of the alphabet is passed over. -/
def decodeFrom? (place left fill : Nat) : List Char → Option (List UInt8)
  | [] => if place = 0 then some [] else none
  | '=' :: cs =>
    if 2 ≤ place then
      if 4 ≤ place + fill + 1 then some [] else decodeFrom? place left (fill + 1) cs
    else decodeFrom? place left fill cs
  | c :: cs =>
    match value? c with
    | none => decodeFrom? place left fill cs
    | some v =>
      match place with
      | 0 => decodeFrom? 1 v 0 cs
      | 1 => (decodeFrom? 2 (v % 16) 0 cs).map (UInt8.ofNat (left * 4 + v / 16) :: ·)
      | 2 => (decodeFrom? 3 (v % 4) 0 cs).map (UInt8.ofNat (left * 16 + v / 4) :: ·)
      | _ => (decodeFrom? 0 0 0 cs).map (UInt8.ofNat (left * 64 + v) :: ·)

def decode? (cs : List Char) : Option (List UInt8) :=
  decodeFrom? 0 0 0 cs

end Stylesheet.Text.Base64
