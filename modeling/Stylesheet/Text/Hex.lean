/-!
# Hexadecimal

Numbers in base sixteen with a fixed number of digits, as colors and escapes write them.

* `length_hex` : the written form has the asked width.
-/

namespace Stylesheet.Text

/-- The digit worth `d`, for `d` below sixteen. -/
def hexDigit (upper : Bool) (d : Nat) : Char :=
  if d < 10 then Char.ofNat (0x30 + d) else Char.ofNat ((if upper then 0x37 else 0x57) + d)

/-- The last `width` digits of a number, most significant first. -/
def hex (upper : Bool) : Nat → Nat → List Char
  | 0, _ => []
  | width + 1, n => hex upper width (n / 16) ++ [hexDigit upper (n % 16)]

/-- What a hexadecimal digit is worth; `none` for every other character. -/
def hexValue? (c : Char) : Option Nat :=
  if '0' ≤ c ∧ c ≤ '9' then some (c.toNat - 0x30)
  else if 'a' ≤ c ∧ c ≤ 'f' then some (c.toNat - 0x57)
  else if 'A' ≤ c ∧ c ≤ 'F' then some (c.toNat - 0x37)
  else none

def isHexDigit (c : Char) : Bool :=
  (hexValue? c).isSome

/-- The number that a row of hexadecimal digits writes; `none` if another character is among
them. -/
def ofHex? (cs : List Char) : Option Nat :=
  cs.foldlM (fun n c => (hexValue? c).map (16 * n + ·)) 0

@[simp] theorem length_hex (upper : Bool) (width n : Nat) : (hex upper width n).length = width := by
  induction width generalizing n with
  | zero => rfl
  | succ width ih => simp [hex, ih]

end Stylesheet.Text
