/-
**Doubles and their bit patterns.**

* `toNat_toBits_ofBits` — a pattern up to that of infinity is kept by its double.
* `ofFloat_eq_finite` — the finite doubles without a sign are those with a
  pattern below that of infinity.
* `of_ofFloat` — a finite double without a sign has a canonical magnitude, and is
  the double of its pattern.
* `not_negative_nearest` — the double nearest to a quotient is not negative.
-/

import Lox.Proofs.Decimal.Nearest
import Mathlib

namespace Lox

namespace Binary64

open Float.Model Float.Model.UnpackedFloat

/-- No pattern up to that of infinity stands for no number. -/
theorem isNaNBits_eq_false {bits : BitVec Format.binary64.numBits}
    (small : bits.toNat ≤ infinityBits) :
    isNaNBits bits = false := by
  rw [isNaNBits, unpackExponent_def, unpackMantissa_def]
  refine decide_eq_false ?_
  rintro ⟨ones, nonzero⟩
  have ones := congrArg BitVec.toNat ones
  have nonzero := mt BitVec.toNat_inj.mp nonzero
  rw [BitVec.extractLsb'_toNat] at ones nonzero
  have exponent : bits.toNat / 2 ^ 52 % 2 ^ 11 = 2047 := by
    rw [← Nat.shiftRight_eq_div_pow]
    exact ones
  have mantissa : bits.toNat % 2 ^ 52 ≠ 0 := nonzero
  have power : infinityBits = 2047 * 2 ^ 52 := rfl
  omega

/-- A pattern up to that of infinity is kept by its double. -/
theorem toNat_toBits_ofBits {bits : Nat} (small : bits ≤ infinityBits) :
    (Float.ofBits (UInt64.ofNat bits)).toBits.toNat = bits := by
  have isBits : (UInt64.ofNat bits).toNat = bits := by
    rw [UInt64.toNat_ofNat']
    exact Nat.mod_eq_of_lt (Nat.lt_of_le_of_lt small (by decide))
  have isNumber := isNaNBits_eq_false (isBits.trans_le small)
  have packed : (Float.ofBits (UInt64.ofNat bits)).toBits.toBitVec = (UInt64.ofNat bits).toBitVec :=
    (@pack_unpack Format.binary64 _ (by decide)).trans (if_neg (Bool.eq_false_iff.mp isNumber))
  rw [UInt64.toBitVec_inj.mp packed, isBits]

/-- The finite doubles without a sign are those whose patterns are below that of infinity. -/
theorem ofFloat_eq_finite {x : Float} {magnitude : Magnitude} :
    Reading.ofFloat x = .finite false magnitude ↔
      x.toBits.toNat < infinityBits ∧ magnitude = Magnitude.ofBits x.toBits.toNat := by
  have infinity : infinityBits < twoTo 63 := by decide
  unfold Reading.ofFloat Reading.ofBits
  dsimp only
  constructor
  · intro isFinite
    split at isFinite
    case isTrue finite =>
      obtain ⟨positive, rfl⟩ := Reading.finite.inj isFinite
      have small : x.toBits.toNat < twoTo 63 := Nat.lt_of_not_le (of_decide_eq_false positive)
      rw [Nat.mod_eq_of_lt small] at finite ⊢
      exact ⟨finite, rfl⟩
    case isFalse =>
      split at isFinite <;> cases isFinite
  · rintro ⟨finite, rfl⟩
    have small : x.toBits.toNat < twoTo 63 := Nat.lt_trans finite infinity
    rw [Nat.mod_eq_of_lt small, if_pos finite, decide_eq_false (Nat.not_le.mpr small)]

/-- A finite double without a sign has a canonical magnitude, and is the double of its pattern. -/
theorem of_ofFloat {x : Float} {magnitude : Magnitude}
    (isFinite : Reading.ofFloat x = .finite false magnitude) :
    magnitude.Canonical ∧ x = Float.ofBits (UInt64.ofNat magnitude.bits) := by
  obtain ⟨finite, rfl⟩ := ofFloat_eq_finite.mp isFinite
  refine ⟨Magnitude.canonical_ofBits finite, ?_⟩
  rw [Magnitude.bits_ofBits, UInt64.ofNat_toNat, Float.ofBits_toBits]

/-- The double nearest to a quotient is not negative. -/
theorem not_negative_nearest {numerator denominator : Nat} {negative : Bool} {magnitude : Magnitude}
    (isFinite : Reading.ofFloat (nearest numerator denominator) = .finite negative magnitude) :
    negative = false := by
  have small : nearestBits numerator denominator ≤ infinityBits := Nat.min_le_right _ _
  unfold Reading.ofFloat Reading.ofBits nearest at isFinite
  rw [toNat_toBits_ofBits small] at isFinite
  dsimp only at isFinite
  split at isFinite
  case isTrue =>
    obtain ⟨rfl, -⟩ := Reading.finite.inj isFinite
    exact decide_eq_false (Nat.not_le.mpr (Nat.lt_of_le_of_lt small (by decide)))
  case isFalse =>
    split at isFinite <;> cases isFinite

end Binary64

end Lox
