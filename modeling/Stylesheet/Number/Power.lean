/-!
# Powers of two and ten

The two bases in which the values of numbers are given.

* `twoTo_pos`, `tenTo_pos` : no power is zero.
-/

namespace Stylesheet.Number

def twoTo (exponent : Nat) : Nat :=
  Nat.pow 2 exponent

def tenTo (exponent : Nat) : Nat :=
  Nat.pow 10 exponent

theorem twoTo_pos (exponent : Nat) : 0 < twoTo exponent :=
  Nat.pow_pos (by decide)

theorem tenTo_pos (exponent : Nat) : 0 < tenTo exponent :=
  Nat.pow_pos (by decide)

end Stylesheet.Number
