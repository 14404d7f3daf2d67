/-!
# Sets of characters as ranges of code points

A property of characters that no rule describes is given as a list of closed ranges.
-/

namespace Stylesheet.Text

def inRanges (ranges : List (Nat × Nat)) (n : Nat) : Bool :=
  ranges.any fun r => r.1 ≤ n && n ≤ r.2

end Stylesheet.Text
