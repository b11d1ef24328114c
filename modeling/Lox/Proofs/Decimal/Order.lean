/-
**Doubles in order.**

* `lt_iff`, `le_iff` — of two finite doubles without a sign, the one with the lower pattern is less.
* `Magnitude.high_le_low` — so their ranges do not overlap, and lie in the same order.
* `Decimal.point_le_of_lt`, `Decimal.lt_point_of_le` — a decimal that is bounded by powers of ten
  has its point there.
* `point_shortest` — the point of the text of a double from `10 ^ -3` on and below `10 ^ 7`.
-/

import Lox.Decimal.Layout
import Lox.Proofs.Decimal.Patterns
import Lox.Proofs.Decimal.Shortest

namespace Lox

namespace Decimal

variable {x : Decimal}

/-- A decimal below a power of ten has no digits of that power or a higher one. -/
theorem point_le_of_lt {exponent : Nat} (nonzero : 0 < x.digits)
    (below : x.numerator < tenTo exponent * x.denominator) : x.point ≤ exponent := by
  by_contra beyond
  unfold point at beyond
  generalize isLength : (digitChars x.digits).length = length at beyond
  have leading : 10 ^ (length - 1) ≤ x.digits := by
    rcases Nat.eq_zero_or_pos (length - 1) with isOne | more
    · rw [isOne]
      exact nonzero
    · refine Nat.le_of_not_lt fun fewer => ?_
      have short := (Nat.length_toDigits_le_iff (by decide) more).mpr fewer
      rw [show Nat.toDigits 10 x.digits = digitChars x.digits from rfl] at short
      omega
  refine absurd below (Nat.not_lt.mpr ?_)
  rw [numerator, denominator]
  show 10 ^ exponent * 10 ^ (-x.exponent).toNat ≤ x.digits * 10 ^ x.exponent.toNat
  calc 10 ^ exponent * 10 ^ (-x.exponent).toNat
      = 10 ^ (exponent + (-x.exponent).toNat) := (Nat.pow_add ..).symm
    _ ≤ 10 ^ (length - 1 + x.exponent.toNat) := Nat.pow_le_pow_right (by decide) (by omega)
    _ = 10 ^ (length - 1) * 10 ^ x.exponent.toNat := Nat.pow_add ..
    _ ≤ x.digits * 10 ^ x.exponent.toNat := Nat.mul_le_mul_right _ leading

/-- A decimal not below a power of ten has a digit of that power or a higher one. -/
theorem lt_point_of_le {exponent : Nat} (above : x.denominator ≤ tenTo exponent * x.numerator) :
    -(exponent : Int) < x.point := by
  by_contra beyond
  unfold point at beyond
  have some : 0 < (digitChars x.digits).length := Nat.length_toDigits_pos
  have all : x.digits < 10 ^ (digitChars x.digits).length :=
    (Nat.length_toDigits_le_iff (by decide) some).mp (Nat.le_refl _)
  refine absurd above (Nat.not_le.mpr ?_)
  rw [numerator_of_nonpos (by omega), denominator]
  show 10 ^ exponent * x.digits < 10 ^ (-x.exponent).toNat
  calc 10 ^ exponent * x.digits
      < 10 ^ exponent * 10 ^ (digitChars x.digits).length :=
        Nat.mul_lt_mul_of_pos_left all (Nat.pow_pos (by decide))
    _ = 10 ^ (exponent + (digitChars x.digits).length) := (Nat.pow_add ..).symm
    _ ≤ 10 ^ (-x.exponent).toNat := Nat.pow_le_pow_right (by decide) (by omega)

end Decimal

namespace Binary64

namespace Magnitude

variable {first second : Magnitude} (canonical : first.Canonical) (canonicalToo : second.Canonical)

include canonical canonicalToo

/-- A lower pattern has a lower shift, or the same one and a lower mantissa. -/
theorem bits_lt_iff : first.bits < second.bits ↔
    first.shift < second.shift ∨ first.shift = second.shift ∧ first.mantissa < second.mantissa := by
  have small := canonical.mantissa_lt
  have smallToo := canonicalToo.mantissa_lt
  have leading := canonical.leading
  have leadingToo := canonicalToo.leading
  have power : twoTo 52 = 2 ^ 52 := rfl
  unfold bits
  rw [power]
  constructor <;> intro <;> omega

/-- **The ranges of magnitudes do not overlap,** and lie in the order of their patterns. -/
theorem high_le_low (lower : first.bits < second.bits) : first.range.high ≤ second.range.low := by
  have small := canonical.mantissa_lt
  have leading := canonicalToo.leading
  have power : twoTo 52 = 2 ^ 52 := rfl
  have high := first.high_mul 1
  have low := second.low_mul 1
  rw [Nat.mul_one, Nat.one_mul] at high low
  rw [high, low]
  rcases (bits_lt_iff canonical canonicalToo).mp lower with less | ⟨same, less⟩
  · -- the higher one is at least twice as coarse
    obtain ⟨more, isMore⟩ := Nat.exists_eq_add_of_lt less
    have coarse : twoTo second.shift = 2 * (twoTo first.shift * twoTo more) := by
      rw [isMore, twoTo, twoTo, twoTo, Nat.pow_eq, Nat.pow_eq, Nat.pow_eq]
      ring
    have wide : twoTo first.shift ≤ twoTo first.shift * twoTo more :=
      Nat.le_mul_of_pos_right _ (twoTo_pos more)
    have least := leading (by omega)
    rw [coarse]
    generalize twoTo first.shift = width, twoTo first.shift * twoTo more = wider at wide
    have most : first.mantissa * width ≤ (2 ^ 53 - 1) * wider :=
      Nat.mul_le_mul (Nat.le_sub_one_of_lt small) wide
    split
    case isTrue isPower =>
      rw [isPower.1, power]
      omega
    case isFalse notPower =>
      have more : (2 ^ 52 + 1) * (2 * wider) ≤ second.mantissa * (2 * wider) :=
        Nat.mul_le_mul_right _ (by omega)
      omega
  · rw [same]
    generalize twoTo second.shift = width
    have next : (first.mantissa + 1) * width ≤ second.mantissa * width :=
      Nat.mul_le_mul_right width less
    rw [Nat.succ_mul] at next
    split <;> omega

end Magnitude

/-! ### Decimals in ranges -/

/-- What is in the range of a magnitude below a natural number is less than that number. -/
theorem lt_of_contains {first second : Magnitude} (canonical : first.Canonical)
    (canonicalToo : second.Canonical) {numerator denominator bound : Nat}
    (inRange : first.range.Contains numerator denominator) (positive : 0 < denominator)
    (lower : first.bits < second.bits) (isBelow : second.range.low < 4 * (bound * unitsPerOne)) :
    numerator < bound * denominator := by
  refine Nat.lt_of_mul_lt_mul_right (a := 4 * unitsPerOne) ?_
  calc numerator * (4 * unitsPerOne)
      = 4 * (numerator * unitsPerOne) := by ring
    _ ≤ first.range.high * denominator := inRange.below
    _ ≤ second.range.low * denominator :=
        Nat.mul_le_mul_right _ (Magnitude.high_le_low canonical canonicalToo lower)
    _ < 4 * (bound * unitsPerOne) * denominator := Nat.mul_lt_mul_of_pos_right isBelow positive
    _ = bound * denominator * (4 * unitsPerOne) := by ring

/-- What is in the range of a magnitude above the inverse of a natural number is
not less than that inverse. -/
theorem le_of_contains {first second : Magnitude} (canonical : first.Canonical)
    (canonicalToo : second.Canonical) {numerator denominator bound : Nat}
    (inRange : second.range.Contains numerator denominator) (lower : first.bits < second.bits)
    (isAbove : 4 * unitsPerOne ≤ bound * first.range.high) :
    denominator ≤ bound * numerator := by
  refine Nat.le_of_mul_le_mul_right (c := 4 * unitsPerOne) ?_
    (Nat.mul_pos (by decide) (twoTo_pos 1074))
  calc denominator * (4 * unitsPerOne)
      ≤ denominator * (bound * first.range.high) := Nat.mul_le_mul_left _ isAbove
    _ ≤ denominator * (bound * second.range.low) :=
        Nat.mul_le_mul_left _ (Nat.mul_le_mul_left _
          (Magnitude.high_le_low canonical canonicalToo lower))
    _ = bound * (second.range.low * denominator) := by ring
    _ ≤ bound * (4 * (numerator * unitsPerOne)) := Nat.mul_le_mul_left _ inRange.above
    _ = bound * numerator * (4 * unitsPerOne) := by ring

/-! ### The order of doubles -/

open Float.Model Float.Model.UnpackedFloat

/-- The parts of a float are those of a magnitude without a sign. -/
def Unpacks : UnpackedFloat → Magnitude → Prop
  | .zero .positive, magnitude => magnitude.mantissa = 0
  | .finite .positive mantissa exponent _, magnitude =>
    mantissa = magnitude.mantissa ∧ exponent = magnitude.shift - 1074
  | _, _ => False

section

variable {bits : BitVec Format.binary64.numBits} (finite : bits.toNat < infinityBits)

include finite

theorem unpackSign_eq : unpackSign bits = 0#1 := by
  have infinity : infinityBits = 2047 * 2 ^ 52 := rfl
  refine BitVec.eq_of_toNat_eq ?_
  rw [unpackSign, BitVec.toNat_cast, BitVec.extractLsb_toNat]
  show bits.toNat >>> 63 % 2 ^ 1 = 0
  rw [Nat.shiftRight_eq_div_pow]
  omega

theorem toNat_unpackExponent : (unpackExponent bits).toNat = bits.toNat / 2 ^ 52 := by
  have infinity : infinityBits = 2047 * 2 ^ 52 := rfl
  rw [unpackExponent_def, BitVec.extractLsb'_toNat, Nat.shiftRight_eq_div_pow]
  show bits.toNat / 2 ^ 52 % 2 ^ 11 = _
  omega

omit finite in
theorem toNat_unpackMantissa (bits : BitVec Format.binary64.numBits) :
    (unpackMantissa bits).toNat = bits.toNat % 2 ^ 52 := by
  rw [unpackMantissa_def, BitVec.extractLsb'_toNat]
  rfl

/-- A pattern below that of infinity is unpacked to its magnitude. -/
theorem unpacks_ofBits :
    Unpacks (UnpackedFloat.unpack Format.binary64 bits) (Magnitude.ofBits bits.toNat) := by
  have infinity : infinityBits = 2047 * 2 ^ 52 := rfl
  have power : twoTo 52 = 2 ^ 52 := rfl
  have bias : (Format.binary64.exponentBias : Int) + Format.binary64.mantissaBitsWithoutImplicit =
    1075 := rfl
  have exponent := toNat_unpackExponent finite
  have mantissa := toNat_unpackMantissa bits
  unfold UnpackedFloat.unpack Magnitude.ofBits
  dsimp only
  rw [unpackSign_eq finite, bias, exponent, power]
  split
  case isTrue all =>
    have all := exponent.symm.trans (congrArg BitVec.toNat all)
    have all : bits.toNat / 2 ^ 52 = 2047 := all
    omega
  case isFalse =>
    split
    case isTrue subnormal =>
      have subnormal := exponent.symm.trans (congrArg BitVec.toNat subnormal)
      have subnormal : bits.toNat / 2 ^ 52 = 0 := subnormal
      rw [if_pos (by omega)]
      split
      case isTrue isZero =>
        have isZero := mantissa.symm.trans (congrArg BitVec.toNat isZero)
        have isZero : bits.toNat % 2 ^ 52 = 0 := isZero
        show bits.toNat = 0
        omega
      case isFalse =>
        constructor
        · show (unpackMantissa bits).toNat = bits.toNat
          omega
        · show ((bits.toNat / 2 ^ 52 : Nat) : Int) - 1075 + 1 = 0 - 1074
          omega
    case isFalse normal =>
      have normal : bits.toNat / 2 ^ 52 ≠ 0 :=
        fun isZero => normal (BitVec.eq_of_toNat_eq (exponent.trans isZero))
      rw [if_neg (by omega)]
      constructor
      · show (1#1 ++ unpackMantissa bits).toNat = 2 ^ 52 + bits.toNat % 2 ^ 52
        rw [BitVec.toNat_append, mantissa,
          ← Nat.shiftLeft_add_eq_or_of_lt (Nat.mod_lt _ (by decide))]
        rfl
      · show ((bits.toNat / 2 ^ 52 : Nat) : Int) - 1075 = (bits.toNat / 2 ^ 52 - 1 : Nat) - 1074
        omega

end

theorem bits_eq_zero {x : Magnitude} (canonical : x.Canonical) (isZero : x.mantissa = 0) :
    x.bits = 0 := by
  have unshifted : x.shift = 0 := by
    by_contra shifted
    have leading := canonical.leading shifted
    omega
  rw [Magnitude.bits, isZero, unshifted, Nat.zero_mul]

theorem compare_of_unpacks {x y : UnpackedFloat} {first second : Magnitude}
    (unpacks : Unpacks x first) (unpacksToo : Unpacks y second) (canonical : first.Canonical)
    (canonicalToo : second.Canonical) :
    x.compare y = some (compare first.bits second.bits) := by
  unfold Unpacks at unpacks unpacksToo
  split at unpacks
  case h_1 =>
    rw [bits_eq_zero canonical unpacks]
    split at unpacksToo
    case h_1 =>
      rw [bits_eq_zero canonicalToo unpacksToo]
      rfl
    case h_2 mantissa _ positive =>
      have less : 0 < second.bits := Nat.add_pos_left (unpacksToo.1 ▸ positive) _
      exact congrArg some (Nat.compare_eq_lt.mpr less).symm
    case h_3 => exact unpacksToo.elim
  case h_2 mantissa exponent positive =>
    obtain ⟨rfl, rfl⟩ := unpacks
    split at unpacksToo
    case h_1 =>
      rw [bits_eq_zero canonicalToo unpacksToo]
      have more : 0 < first.bits := Nat.add_pos_left positive _
      exact congrArg some (Nat.compare_eq_gt.mpr more).symm
    case h_2 other _ positiveToo =>
      obtain ⟨rfl, rfl⟩ := unpacksToo
      show some ((compare ((first.shift : Int) - 1074) (second.shift - 1074)).then
        (compare first.mantissa second.mantissa)) = _
      congr 1
      have order := Magnitude.bits_lt_iff canonical canonicalToo
      have orderToo := Magnitude.bits_lt_iff canonicalToo canonical
      rcases Nat.lt_trichotomy first.bits second.bits with less | same | more
      · rw [Nat.compare_eq_lt.mpr less, Ordering.then_eq_lt, Int.compare_eq_lt,
          Int.compare_eq_eq, Nat.compare_eq_lt]
        omega
      · rw [Nat.compare_eq_eq.mpr same, Ordering.then_eq_eq, Int.compare_eq_eq, Nat.compare_eq_eq]
        omega
      · rw [Nat.compare_eq_gt.mpr more, Ordering.then_eq_gt, Int.compare_eq_gt,
          Int.compare_eq_eq, Nat.compare_eq_gt]
        omega
    case h_3 => exact unpacksToo.elim
  case h_3 => exact unpacks.elim

section

variable {x y : Float} {first second : Magnitude}
  (isFinite : Reading.ofFloat x = .finite false first)
  (isFiniteToo : Reading.ofFloat y = .finite false second)

include isFinite isFiniteToo

/-- Finite doubles without a sign compare like their patterns. -/
theorem compare_of_finite :
    x.toModel.unpack.compare y.toModel.unpack = some (compare first.bits second.bits) := by
  obtain ⟨canonical, -⟩ := of_ofFloat isFinite
  obtain ⟨canonicalToo, -⟩ := of_ofFloat isFiniteToo
  obtain ⟨finite, rfl⟩ := ofFloat_eq_finite.mp isFinite
  obtain ⟨finiteToo, rfl⟩ := ofFloat_eq_finite.mp isFiniteToo
  exact compare_of_unpacks (unpacks_ofBits finite) (unpacks_ofBits finiteToo) canonical canonicalToo

/-- **Of two finite doubles without a sign, the one with the lower pattern is less.** -/
theorem lt_iff : x < y ↔ first.bits < second.bits := by
  show decide (UnpackedFloat.lt x.toModel.unpack y.toModel.unpack = true) = true ↔ _
  rw [decide_eq_true_iff, UnpackedFloat.lt, compare_of_finite isFinite isFiniteToo,
    beq_iff_eq, Option.some_inj, Nat.compare_eq_lt]

theorem le_iff : x ≤ y ↔ first.bits ≤ second.bits := by
  show decide (UnpackedFloat.le x.toModel.unpack y.toModel.unpack = true) = true ↔ _
  rw [decide_eq_true_iff, UnpackedFloat.le, compare_of_finite isFinite isFiniteToo,
    Option.any_some, Nat.isLE_compare]

end

/-! ### The window -/

/-- **From `10 ^ -3` on and below `10 ^ 7`, the point stands next to the first seven digits or two
zeros before them.** -/
theorem point_shortest {x : Float} {magnitude : Magnitude}
    (isFinite : Reading.ofFloat x = .finite false magnitude) (tie : Tie) (above : 1e-3 ≤ x)
    (below : x < 1e7) :
    -2 ≤ (magnitude.shortest tie).point ∧ (magnitude.shortest tie).point ≤ 7 := by
  have thousandth : Reading.ofFloat 1e-3 = .finite false (.ofBits 0x3F50624DD2F1A9FC) := by
    decide +kernel
  have tenMillions : Reading.ofFloat 1e7 = .finite false (.ofBits 0x416312D000000000) := by
    decide +kernel
  obtain ⟨canonical, -⟩ := of_ofFloat isFinite
  obtain ⟨canonicalLow, -⟩ := of_ofFloat thousandth
  obtain ⟨canonicalHigh, -⟩ := of_ofFloat tenMillions
  have inRange := magnitude.contains_shortest tie
  have less : (magnitude.shortest tie).numerator < tenTo 7 * (magnitude.shortest tie).denominator :=
    lt_of_contains canonical canonicalHigh inRange (Decimal.denominator_pos _)
      ((lt_iff isFinite tenMillions).mp below) (by decide +kernel)
  rcases Nat.eq_or_lt_of_le ((le_iff thousandth isFinite).mp above) with same | more
  · obtain ⟨-, rfl⟩ := ofFloat_eq_finite.mp isFinite
    rw [Magnitude.bits_ofBits, Magnitude.bits_ofBits] at same
    rw [← same]
    cases tie <;> decide +kernel
  · have atLeast : (magnitude.shortest tie).denominator ≤
        tenTo 3 * (magnitude.shortest tie).numerator :=
      le_of_contains canonicalLow canonical inRange more (by decide +kernel)
    have nonzero : 0 < (magnitude.shortest tie).digits := by
      refine Nat.pos_of_ne_zero fun isZero => ?_
      rw [Decimal.numerator, isZero, Nat.zero_mul, Nat.mul_zero] at atLeast
      exact Nat.not_le.mpr (Decimal.denominator_pos _) atLeast
    exact ⟨Decimal.lt_point_of_le atLeast, Decimal.point_le_of_lt nonzero less⟩

end Binary64

end Lox
