import LispSession.Proofs.Decimal.Nearest
import Mathlib
/-!
# The bits of a double

A double is its sign, its exponent and its mantissa, side by side.  So it can be put together again from the
significand and the exponent that numbers are written from (`Binary64.ofFloat_finite`).

The facts about `Float` itself, such as `Float.beq_self_iff`, come with no part of the library but the whole of it, so
it is imported whole here, and here only.
-/
namespace LispSession

open Float.Model Float.Model.UnpackedFloat

theorem exponent_toNat (b : BitVec 64) : (@unpackExponent Format.binary64 b).toNat = b.toNat / 2 ^ 52 % 2048 := by
  unfold unpackExponent
  rw [BitVec.toNat_cast, BitVec.extractLsb_toNat, Nat.shiftRight_eq_div_pow]
  rfl

theorem mantissa_toNat (b : BitVec 64) : (@unpackMantissa Format.binary64 b).toNat = b.toNat % 2 ^ 52 := by
  unfold unpackMantissa
  rw [BitVec.toNat_cast, BitVec.extractLsb_toNat, Nat.shiftRight_zero]
  rfl

theorem exponent_ne_of_isFinite {x : Float} (h : x.isFinite = true) : x.toBits.toNat / 2 ^ 52 % 2048 ≠ 2047 := by
  intro hfield
  rw [← UInt64.toNat_toBitVec, ← exponent_toNat] at hfield
  have he : @unpackExponent Format.binary64 x.toBits.toBitVec = -1#_ := BitVec.eq_of_toNat_eq hfield
  have hu : x.isFinite = (UnpackedFloat.unpack Format.binary64 x.toBits.toBitVec).isFinite := rfl
  rw [hu, UnpackedFloat.unpack] at h
  dsimp only at h
  rw [if_pos he] at h
  split at h <;> cases h

theorem beq_self_of_isFinite {x : Float} (h : x.isFinite = true) : (x == x) = true := by
  rw [Float.beq_self_iff]
  rintro rfl
  revert h
  decide

/-- A double is finite if it is neither of the other kinds. -/
theorem isFinite_of_not {x : Float} (hnan : x.isNaN = false) (hinf : x.isInf = false) : x.isFinite = true := by
  have hn : (UnpackedFloat.unpack Format.binary64 x.toBits.toBitVec).isNaN = false := hnan
  have hi : (UnpackedFloat.unpack Format.binary64 x.toBits.toBitVec).isInf = false := hinf
  change (UnpackedFloat.unpack Format.binary64 x.toBits.toBitVec).isFinite = true
  cases hu : UnpackedFloat.unpack Format.binary64 x.toBits.toBitVec with
  | infinity sign => rw [hu] at hi; cases hi
  | notANumber => rw [hu] at hn; cases hn
  | zero sign => rfl
  | finite sign mantissa exponent pos => rfl

/-- Bits are a number unless the exponent is the greatest one and the mantissa is not zero. -/
theorem isNaN_ofBits {b : UInt64} (h : b.toNat / 2 ^ 52 % 2048 = 2047 → b.toNat % 2 ^ 52 = 0) :
    (Float.ofBits b).isNaN = false := by
  have hnumber : @isNaNBits Format.binary64 b.toBitVec = false := by
    rw [isNaNBits, decide_eq_false_iff_not]
    rintro ⟨hexponent, hmantissa⟩
    have hfield : b.toBitVec.toNat / 2 ^ 52 % 2048 = 2047 := by
      rw [← exponent_toNat, hexponent]
      rfl
    refine hmantissa (BitVec.eq_of_toNat_eq ?_)
    rw [mantissa_toNat]
    exact h hfield
  have hbits : (Float.ofBits b).toBits.toBitVec = b.toBitVec := by
    have hpack := @pack_unpack Format.binary64 b.toBitVec (by decide)
    rw [hnumber, if_neg Bool.false_ne_true] at hpack
    exact hpack
  rw [Float.isNaN_eq_decide_eq_nan, decide_eq_false_iff_not]
  intro hnan
  have hb : b.toBitVec = packedNaN Format.binary64 := by
    rw [← hbits, hnan]
    rfl
  rw [hb, isNaNBits_packedNaN] at hnumber
  cases hnumber

namespace Binary64

/-- **A finite double is put together again from what it was taken apart into.** -/
theorem ofFloat_finite {x : Float} (h : x.isFinite = true) :
    ∃ negative m q, ofFloat x = .finite negative m q ∧ toFloat negative (bitsOf m q) = x ∧ (0 < m → Canonical m q) := by
  have hfield := exponent_ne_of_isFinite h
  have hlt : x.toBits.toNat < 2 ^ 64 := x.toBits.toNat_lt
  have hbits : x.toBits.toNat.toUInt64 = x.toBits := UInt64.ofNat_toNat
  have hback {negative : Bool} {bits : Nat} (hn : (if negative then signBit else 0) + bits = x.toBits.toNat) :
      toFloat negative bits = x := by
    rw [toFloat, hn, hbits, Float.ofBits_toBits]
  have hsign : (if (x.toBits.toNat / signBit == 1) = true then signBit else 0) =
      x.toBits.toNat / signBit * signBit := by
    unfold signBit at *
    split
    · next h1 => rw [beq_iff_eq.1 h1, one_mul]
    · next h1 =>
      have : x.toBits.toNat / 0x8000000000000000 ≠ 1 := fun h => h1 (beq_iff_eq.2 h)
      omega
  unfold ofFloat ofBits
  dsimp only
  rw [if_neg (by simpa [leadingBit] using hfield)]
  by_cases h0 : x.toBits.toNat / leadingBit % 2048 = 0
  · rw [if_pos (by simpa using h0)]
    have hm : x.toBits.toNat % leadingBit < leadingBit := Nat.mod_lt _ (by decide)
    refine ⟨_, _, _, rfl, hback ?_,
      fun hpos => ⟨hpos, by omega, le_refl _, by decide, fun hq => absurd hq (lt_irrefl _)⟩⟩
    rw [hsign, bitsOf, if_pos hm]
    unfold signBit leadingBit at *
    omega
  · rw [if_neg (by simpa using h0)]
    have hm : x.toBits.toNat % leadingBit < leadingBit := Nat.mod_lt _ (by decide)
    refine ⟨_, _, _, rfl, hback ?_, fun hpos => ⟨hpos, by omega, ?_, ?_, fun hq => Nat.le_add_right _ _⟩⟩
    · rw [hsign, bitsOf, if_neg (by omega)]
      unfold signBit leadingBit at *
      omega
    · unfold leastExponent
      omega
    · unfold leadingBit at *
      omega

/-- Bits up to those of infinity are a number, whatever the sign. -/
theorem isNaN_toFloat (negative : Bool) {bits : Nat} (h : bits ≤ infinityBits) :
    (toFloat negative bits).isNaN = false := by
  unfold infinityBits leadingBit at h
  have hb : ∀ n, n < 2 ^ 64 → n.toUInt64.toNat = n := fun n hn => Nat.mod_eq_of_lt hn
  refine isNaN_ofBits ?_
  cases negative with
  | false =>
    rw [if_neg Bool.false_ne_true, hb _ (by omega)]
    omega
  | true =>
    unfold signBit
    rw [if_pos rfl, hb _ (by omega)]
    omega

theorem nearestBits_le (n d : Nat) : nearestBits n d ≤ infinityBits := by
  unfold nearestBits
  split
  · exact Nat.zero_le _
  · exact Nat.min_le_right _ _

end Binary64

end LispSession
