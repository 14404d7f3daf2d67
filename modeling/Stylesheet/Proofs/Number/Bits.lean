import Mathlib
import Stylesheet.Number.Dyadic

/-!
# The bits of numbers

A number is put together of its sign, its exponent and its fraction, in 64 bits, and is taken apart
again. Only what is no number at all has more than one row of bits.

* `toBits_ofBits` : finite numbers keep their bits.
* `Dyadic.ofBits?_ofNat` : a number that is put together.
* `Dyadic.ofFloat?_neg_eq_none_iff` : the range of numbers does not depend on their sign.
-/

namespace Stylesheet.Number

section

open Float.Model Float.Model.UnpackedFloat

variable {bits : UInt64}

theorem toNat_unpackExponent (bits : UInt64) :
    (@unpackExponent Format.binary64 bits.toBitVec).toNat = bits.toNat / twoTo 52 % twoTo 11 := by
  unfold unpackExponent
  rw [BitVec.toNat_cast, BitVec.extractLsb_toNat, Nat.shiftRight_eq_div_pow]
  rfl

/-- Bits are no finite number exactly when their exponent field is full. -/
theorem Dyadic.ofBits?_eq_none_iff :
    ofBits? bits = none ↔ bits.toNat / twoTo 52 % twoTo 11 = 2047 := by
  unfold ofBits?
  dsimp only
  split
  · next hfull => simp [hfull]
  · next hfull => split <;> simp [hfull]

/-- A finite number keeps the bits that it is put together of. -/
theorem toBits_ofBits (h : Dyadic.ofBits? bits ≠ none) : (Float.ofBits bits).toBits = bits := by
  have hexponent : @unpackExponent Format.binary64 bits.toBitVec ≠ -1#11 := by
    intro hfull
    rw [Ne, Dyadic.ofBits?_eq_none_iff, ← toNat_unpackExponent, hfull] at h
    exact h rfl
  have hvalid : Format.binary64.Valid bits.toBitVec := ⟨fun hfull => absurd hfull hexponent⟩
  have hpack : (unpack Format.binary64 bits.toBitVec).pack Format.binary64 = bits.toBitVec :=
    pack_unpack_of_valid hvalid
  show UInt64.ofBitVec ((unpack Format.binary64 bits.toBitVec).pack Format.binary64) = bits
  rw [hpack]

/-! ## Changing the sign -/

/-- The sign does not reach into the exponent field. -/
theorem unpackExponent_pack_neg (format : Format) (x : UnpackedFloat) :
    unpackExponent (x.neg.pack format) = unpackExponent (x.pack format) := by
  cases x with
  | notANumber => rfl
  | infinity sign =>
      simp only [UnpackedFloat.neg, UnpackedFloat.pack, packedInfinity,
        unpackExponent_packComponents]
  | zero sign =>
      simp only [UnpackedFloat.neg, UnpackedFloat.pack, packedZero, unpackExponent_packComponents]
  | finite sign mantissa exponent hpos =>
      -- all three ways of packing put the sign in front of the exponent and look at it no more
      simp only [UnpackedFloat.neg, UnpackedFloat.pack, packedInfinity]
      split
      · simp only [unpackExponent_packComponents]
      · split <;> simp only [unpackExponent_packComponents]

/-- The exponent of a number does not depend on its sign. -/
theorem unpackExponent_toBits_neg (x : Float) :
    @unpackExponent Format.binary64 (-x).toBits.toBitVec =
      @unpackExponent Format.binary64 x.toBits.toBitVec := by
  have hneg : (-x).toBits.toBitVec = x.toModel.unpack.neg.pack Format.binary64 := rfl
  have hself : x.toModel.unpack.pack Format.binary64 = x.toBits.toBitVec :=
    pack_unpack_of_valid x.toModel.valid
  rw [hneg, unpackExponent_pack_neg, hself]

end

namespace Dyadic

/-- A number is as far in range as the one of the other sign. -/
theorem ofFloat?_neg_eq_none_iff {x : Float} : ofFloat? (-x) = none ↔ ofFloat? x = none := by
  unfold ofFloat?
  rw [ofBits?_eq_none_iff, ofBits?_eq_none_iff, ← toNat_unpackExponent, ← toNat_unpackExponent,
    unpackExponent_toBits_neg]

/-! ## Putting numbers together -/

/-- The sign, the exponent and the fraction that are put into bits are taken out of them. -/
theorem ofBits?_ofNat (negative : Bool) {exponent fraction : Nat} (he : exponent < 2047)
    (hf : fraction < twoTo 52) :
    ofBits? (UInt64.ofNat
        ((if negative then twoTo 63 else 0) + (exponent * twoTo 52 + fraction))) =
      some (if exponent = 0 then ⟨negative, fraction, -1074⟩
        else ⟨negative, fraction + twoTo 52, (exponent : Int) - 1075⟩) := by
  have h63 : twoTo 63 = 9223372036854775808 := rfl
  have h52 : twoTo 52 = 4503599627370496 := rfl
  have h11 : twoTo 11 = 2048 := rfl
  have hsign : (if negative then twoTo 63 else 0) = 9223372036854775808 * negative.toNat := by
    cases negative <;> rfl
  have hbool : negative.toNat ≤ 1 := Bool.toNat_le negative
  rw [hsign, h52]
  generalize hn : 9223372036854775808 * negative.toNat +
    (exponent * 4503599627370496 + fraction) = n
  have hbits : (UInt64.ofNat n).toNat = n := by
    refine UInt64.toNat_ofNat_of_lt' ?_
    show _ < 18446744073709551616
    omega
  have hnegative : (n / twoTo 63 == 1) = negative := by
    have : n / twoTo 63 = negative.toNat := by
      rw [h63]
      omega
    rw [this]
    cases negative <;> rfl
  have hexponent : n / twoTo 52 % twoTo 11 = exponent := by
    rw [h52, h11]
    omega
  have hfraction : n % twoTo 52 = fraction := by
    rw [h52]
    omega
  unfold ofBits?
  dsimp only
  rw [hbits, hnegative, hexponent, hfraction, h52, if_neg (by omega), apply_ite some]

end Dyadic

end Stylesheet.Number
