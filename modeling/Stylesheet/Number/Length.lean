/-!
# How long integers may be

In decimal notation an integer is read and written only up to a number of digits, which no sensible
document reaches.
-/

namespace Stylesheet.Number

def maxDigits : Nat := 4300

inductive TooLong where
  /-- It cannot be read, having this number of digits. -/
  | read (digits : Nat)
  /-- It cannot be written. -/
  | written
  deriving DecidableEq, Repr

def TooLong.message (fault : TooLong) : String :=
  "Exceeds the limit (" ++ toString maxDigits ++ " digits) for integer string conversion" ++
    (match fault with
      | read digits => ": value has " ++ toString digits ++ " digits"
      | written => "") ++
    "; use sys.set_int_max_str_digits() to increase the limit"

def write (n : Int) : Except TooLong String :=
  if maxDigits < (toString n.natAbs).length then .error .written else .ok (toString n)

end Stylesheet.Number
