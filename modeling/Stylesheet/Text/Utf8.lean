import Stylesheet.Text.Hex

/-!
# Reading UTF-8

`decodeUtf8` reads bytes as text and refuses everything that is not the shortest encoding of a
scalar value, saying where the first refused sequence starts, how many of its bytes were looked at
and what is wrong with it.

* `decodeUtf8_ascii` : bytes below 0x80 stand for themselves.
-/

namespace Stylesheet.Text

inductive Utf8Reason where
  /-- No character starts with this byte. -/
  | start
  /-- The byte after the ones looked at does not continue them. -/
  | continuation
  /-- The bytes end inside a character. -/
  | ending
  deriving DecidableEq, Repr

/-- The first sequence of bytes that is no character: its position, the number of its bytes that
were looked at, and its first byte. -/
structure Utf8Fault where
  position : Nat
  count : Nat
  first : UInt8
  reason : Utf8Reason
  deriving DecidableEq, Repr

def Utf8Reason.message : Utf8Reason → String
  | start => "invalid start byte"
  | continuation => "invalid continuation byte"
  | ending => "unexpected end of data"

def Utf8Fault.message (fault : Utf8Fault) : String :=
  "'utf-8' codec can't decode " ++
    (if fault.count = 1 then
      "byte 0x" ++ String.ofList (hex false 2 fault.first.toNat) ++ " in position " ++
        toString fault.position
    else
      "bytes in position " ++ toString fault.position ++ "-" ++
        toString (fault.position + fault.count - 1)) ++
    ": " ++ fault.reason.message

def isContinuation (b : UInt8) : Bool :=
  0x80 ≤ b && b < 0xC0

/-- Whether `b` may follow the first byte `a` of a character of three or four bytes: the encoding
must be the shortest one, of a scalar value. -/
def isSecond (a b : UInt8) : Bool :=
  isContinuation b && !(a == 0xE0 && b < 0xA0) && !(a == 0xED && 0xA0 ≤ b) &&
    !(a == 0xF0 && b < 0x90) && !(a == 0xF4 && 0x90 ≤ b)

private def low6 (b : UInt8) : Nat :=
  b.toNat % 0x40

/-- Reads the bytes that start at `position`. -/
def decodeUtf8From (position : Nat) : List UInt8 → Except Utf8Fault (List Char)
  | [] => .ok []
  | a :: rest =>
    if a < 0x80 then
      (decodeUtf8From (position + 1) rest).map (Char.ofNat a.toNat :: ·)
    else if a < 0xC2 || 0xF5 ≤ a then .error ⟨position, 1, a, .start⟩
    else match rest with
      | [] => .error ⟨position, 1, a, .ending⟩
      | b :: rest =>
        if a < 0xE0 then
          if isContinuation b then
            (decodeUtf8From (position + 2) rest).map
              (Char.ofNat (a.toNat % 0x20 * 0x40 + low6 b) :: ·)
          else .error ⟨position, 1, a, .continuation⟩
        else if !isSecond a b then .error ⟨position, 1, a, .continuation⟩
        else match rest with
          | [] => .error ⟨position, 2, a, .ending⟩
          | c :: rest =>
            if !isContinuation c then .error ⟨position, 2, a, .continuation⟩
            else if a < 0xF0 then
              (decodeUtf8From (position + 3) rest).map
                (Char.ofNat ((a.toNat % 0x10 * 0x40 + low6 b) * 0x40 + low6 c) :: ·)
            else match rest with
              | [] => .error ⟨position, 3, a, .ending⟩
              | d :: rest =>
                if !isContinuation d then .error ⟨position, 3, a, .continuation⟩
                else (decodeUtf8From (position + 4) rest).map
                  (Char.ofNat (((a.toNat % 8 * 0x40 + low6 b) * 0x40 + low6 c) * 0x40 + low6 d)
                    :: ·)

def decodeUtf8 (bytes : List UInt8) : Except Utf8Fault (List Char) :=
  decodeUtf8From 0 bytes

theorem decodeUtf8From_ascii {bytes : List UInt8} (h : ∀ b ∈ bytes, b < 0x80) (position : Nat) :
    decodeUtf8From position bytes = .ok (bytes.map fun b => Char.ofNat b.toNat) := by
  induction bytes generalizing position with
  | nil => rfl
  | cons b bytes ih =>
    have hb := h b (by simp)
    have ih' := ih (fun x hx => h x (by simp [hx])) (position + 1)
    unfold decodeUtf8From
    simp [hb, ih', Except.map]

/-- ASCII bytes are decoded to the characters they number. -/
theorem decodeUtf8_ascii {bytes : List UInt8} (h : ∀ b ∈ bytes, b < 0x80) :
    decodeUtf8 bytes = .ok (bytes.map fun b => Char.ofNat b.toNat) :=
  decodeUtf8From_ascii h 0

/-- A text in which every line ends with a line feed, whichever way it ended before: with a
carriage return, a line feed, or both in this order. -/
def unifyNewlines : List Char → List Char
  | [] => []
  | '\r' :: '\n' :: cs => '\n' :: unifyNewlines cs
  | c :: cs => (if c = '\r' then '\n' else c) :: unifyNewlines cs

end Stylesheet.Text
