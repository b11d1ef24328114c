/-
**Quotients that round to a double.**

* `RoundsTo` — a quotient is within half of a natural number, or less than that if the number is
  odd. `roundQuotient_eq`: then it is rounded to that number.
* `Range.Contains` — a quotient lies in a range.
* `Magnitude.Canonical` — the magnitudes of finite doubles, which their bit patterns determine.
* `nearestBits_eq_bits` — every quotient in the range of a magnitude is rounded to that magnitude.
-/

import Lox.Decimal.Shortest
import Mathlib.Tactic.Ring

namespace Lox

namespace Binary64

/-! ### Rounding to natural numbers -/

theorem twoTo_pos (exponent : Nat) : 0 < twoTo exponent :=
  Nat.two_pow_pos exponent

theorem mul_twoTo_succ (factor exponent : Nat) :
    factor * twoTo (exponent + 1) = 2 * (factor * twoTo exponent) := by
  rw [twoTo, twoTo, Nat.pow_eq, Nat.pow_eq, Nat.pow_succ]
  ring

/-- A quotient is within half of a natural number, and less than half away if that number is odd. -/
structure RoundsTo (numerator denominator rounded : Nat) : Prop where
  above : 2 * (rounded * denominator) ≤ 2 * numerator + denominator
  below : 2 * numerator ≤ 2 * (rounded * denominator) + denominator
  odd : rounded % 2 = 1 → 2 * (rounded * denominator) < 2 * numerator + denominator ∧
    2 * numerator < 2 * (rounded * denominator) + denominator

theorem roundQuotient_eq {numerator denominator rounded : Nat} (positive : 0 < denominator)
    (rounds : RoundsTo numerator denominator rounded) :
    roundQuotient numerator denominator = rounded := by
  obtain ⟨above, below, odd⟩ := rounds
  have split : numerator / denominator * denominator + numerator % denominator = numerator :=
    Nat.div_add_mod' numerator denominator
  have short : numerator % denominator < denominator := Nat.mod_lt numerator positive
  unfold roundQuotient
  dsimp only
  generalize numerator / denominator = quotient at split ⊢
  generalize numerator % denominator = remainder at split short ⊢
  -- The number is the quotient or the one after it.
  have notBelow : quotient ≤ rounded := by
    refine Nat.le_of_lt_succ (Nat.lt_of_mul_lt_mul_right (a := denominator) ?_)
    rw [Nat.succ_mul rounded]
    omega
  have notAbove : rounded ≤ quotient + 1 := by
    refine Nat.le_of_lt_succ (Nat.lt_of_mul_lt_mul_right (a := denominator) ?_)
    rw [Nat.succ_mul (quotient + 1), Nat.succ_mul quotient]
    omega
  rcases Nat.eq_or_lt_of_le notBelow with rfl | isNext
  · split <;> [rfl; split] <;> omega
  · obtain rfl : rounded = quotient + 1 := by omega
    rw [Nat.succ_mul quotient] at above below odd
    split <;> [skip; split] <;> omega

/-- A number has the shift that leaves fifty-three of its bits, or none if it has fewer. -/
theorem log2_sub_eq {number shift : Nat} (short : number < 2 ^ (53 + shift))
    (long : shift ≠ 0 → 2 ^ (52 + shift) ≤ number) : number.log2 - 52 = shift := by
  rcases Nat.eq_zero_or_pos number with rfl | nonzero
  · have unshifted : shift = 0 := by
      by_contra shifted
      exact absurd (long shifted) (Nat.not_le.mpr (Nat.two_pow_pos _))
    rw [unshifted]
    decide
  have isBelow := (Nat.log2_lt (Nat.ne_of_gt nonzero)).mpr short
  by_cases unshifted : shift = 0
  · omega
  · have isAbove := (Nat.le_log2 (Nat.ne_of_gt nonzero)).mpr (long unshifted)
    omega

/-- A quotient is rounded at the shift that leaves fifty-three bits before the point,
or none if it has fewer. -/
theorem nearestBits_eq {numerator denominator rounded shift : Nat} (positive : 0 < denominator)
    (long : shift ≠ 0 → 2 ^ 52 * (denominator * twoTo shift) ≤ numerator * unitsPerOne)
    (short : numerator * unitsPerOne < 2 ^ 53 * (denominator * twoTo shift))
    (rounds : RoundsTo (numerator * unitsPerOne) (denominator * twoTo shift) rounded)
    (finite : rounded + shift * twoTo 52 < infinityBits) :
    nearestBits numerator denominator = rounded + shift * twoTo 52 := by
  have isShift : (numerator * unitsPerOne / denominator).log2 - 52 = shift := by
    refine log2_sub_eq ?_ fun shifted => ?_
    · rw [Nat.div_lt_iff_lt_mul positive, Nat.pow_add, Nat.mul_assoc, Nat.mul_comm (2 ^ shift)]
      exact short
    · rw [Nat.le_div_iff_mul_le positive, Nat.pow_add, Nat.mul_assoc, Nat.mul_comm (2 ^ shift)]
      exact long shifted
  unfold nearestBits
  dsimp only
  rw [isShift, roundQuotient_eq (Nat.mul_pos positive (twoTo_pos shift)) rounds]
  exact Nat.min_eq_left (Nat.le_of_lt finite)

/-! ### Magnitudes of doubles -/

/-- The magnitude of a finite double, whose mantissa has its leading bit unless it is subnormal. -/
structure Magnitude.Canonical (x : Magnitude) : Prop where
  mantissa_lt : x.mantissa < 2 ^ 53
  leading : x.shift ≠ 0 → 2 ^ 52 ≤ x.mantissa
  bits_lt : x.bits < infinityBits

namespace Magnitude

theorem bits_ofBits (bits : Nat) : (ofBits bits).bits = bits := by
  unfold ofBits
  split
  case isTrue => simp [Magnitude.bits]
  case isFalse notSmall =>
    have exponentPositive : 1 ≤ bits / twoTo 52 :=
      (Nat.one_le_div_iff (by decide)).mpr (Nat.le_of_not_lt notSmall)
    have split := Nat.div_add_mod' bits (twoTo 52)
    obtain ⟨shift, isShift⟩ := Nat.exists_eq_add_of_le' exponentPositive
    rw [isShift, Nat.succ_mul] at split
    rw [isShift, Nat.add_sub_cancel]
    show twoTo 52 + bits % twoTo 52 + shift * twoTo 52 = bits
    omega

theorem canonical_ofBits {bits : Nat} (finite : bits < infinityBits) : (ofBits bits).Canonical := by
  have below := Nat.mod_lt bits (show 0 < twoTo 52 by decide)
  have power : twoTo 52 = 2 ^ 52 := rfl
  refine ⟨?_, ?_, by rwa [bits_ofBits]⟩ <;> unfold ofBits <;> split <;> dsimp only <;> omega

end Magnitude

/-! ### Ranges -/

/-- A quotient lies in a range, and not at its ends if they do not belong to it. -/
structure Range.Contains (range : Range) (numerator denominator : Nat) : Prop where
  above : range.low * denominator ≤ 4 * (numerator * unitsPerOne)
  below : 4 * (numerator * unitsPerOne) ≤ range.high * denominator
  inside : range.closed = false → range.low * denominator < 4 * (numerator * unitsPerOne) ∧
    4 * (numerator * unitsPerOne) < range.high * denominator

theorem Range.Contains.scale {range : Range} {numerator denominator : Nat}
    (inRange : range.Contains numerator denominator) {factor : Nat} (positive : 0 < factor) :
    range.Contains (numerator * factor) (denominator * factor) := by
  obtain ⟨above, below, inside⟩ := inRange
  have units : 4 * (numerator * factor * unitsPerOne) =
    4 * (numerator * unitsPerOne) * factor := by ring
  constructor <;> rw [units]
  · rw [← Nat.mul_assoc range.low]
    exact Nat.mul_le_mul_right factor above
  · rw [← Nat.mul_assoc range.high]
    exact Nat.mul_le_mul_right factor below
  · rw [← Nat.mul_assoc range.low, ← Nat.mul_assoc range.high]
    exact fun isOpen => ⟨Nat.mul_lt_mul_of_pos_right (inside isOpen).1 positive,
      Nat.mul_lt_mul_of_pos_right (inside isOpen).2 positive⟩

namespace Magnitude

variable {x : Magnitude}

theorem high_mul (denominator : Nat) : x.range.high * denominator =
    4 * (x.mantissa * (denominator * twoTo x.shift)) + 2 * (denominator * twoTo x.shift) := by
  simp only [range, units]
  ring

theorem low_mul (denominator : Nat) : x.range.low * denominator =
    4 * (x.mantissa * (denominator * twoTo x.shift)) -
      (if x.mantissa = twoTo 52 ∧ x.shift ≠ 0 then 1 else 2) * (denominator * twoTo x.shift) := by
  simp only [range, units, Nat.sub_mul]
  congr 1 <;> ring

variable {numerator denominator : Nat} (inRange : x.range.Contains numerator denominator)

include inRange

/-- A quotient in the range of a magnitude is rounded to its mantissa at its shift. -/
theorem roundsTo_mantissa :
    RoundsTo (numerator * unitsPerOne) (denominator * twoTo x.shift) x.mantissa := by
  obtain ⟨above, below, inside⟩ := inRange
  rw [low_mul] at above inside
  rw [high_mul] at below inside
  refine ⟨?_, by omega, fun odd => ?_⟩
  · split at above <;> omega
  · have isOpen : x.range.closed = false := by simpa [range] using odd
    have ⟨strictAbove, strictBelow⟩ := inside isOpen
    refine ⟨?_, by omega⟩
    split at strictAbove <;> omega

/-- The range of a power of two reaches below it, to quotients of a smaller shift. There they are
rounded up to twice its mantissa. -/
theorem roundsTo_double (canonical : x.Canonical) {shift : Nat} (isNext : x.shift = shift + 1)
    (small : numerator * unitsPerOne < 2 ^ 52 * (denominator * twoTo x.shift)) :
    x.mantissa = 2 ^ 52 ∧ RoundsTo (numerator * unitsPerOne) (denominator * twoTo shift)
      (2 ^ 53) := by
  have shifted : x.shift ≠ 0 := isNext ▸ Nat.succ_ne_zero shift
  have above := inRange.above
  have leading := canonical.leading shifted
  rw [low_mul] at above
  rw [isNext, mul_twoTo_succ] at above small
  generalize denominator * twoTo shift = width at above small ⊢
  have isPower : x.mantissa = 2 ^ 52 := by
    by_contra notPower
    have more : (2 ^ 52 + 1) * (2 * width) ≤ x.mantissa * (2 * width) :=
      Nat.mul_le_mul_right _ (by omega)
    split at above <;> omega
  rw [if_pos ⟨isPower, isNext ▸ shifted⟩, isPower] at above
  exact ⟨isPower, by omega, by omega, fun odd => by omega⟩

/-- **Every quotient in the range of a magnitude is rounded to that magnitude.** -/
theorem nearestBits_eq_bits (canonical : x.Canonical) (positive : 0 < denominator) :
    nearestBits numerator denominator = x.bits := by
  have rounds := roundsTo_mantissa inRange
  have wide := Nat.mul_pos positive (twoTo_pos x.shift)
  have short : numerator * unitsPerOne < 2 ^ 53 * (denominator * twoTo x.shift) := by
    have below := rounds.below
    have isSmall : x.mantissa * (denominator * twoTo x.shift) ≤
        (2 ^ 53 - 1) * (denominator * twoTo x.shift) :=
      Nat.mul_le_mul_right _ (Nat.le_sub_one_of_lt canonical.mantissa_lt)
    omega
  by_cases regular : x.shift ≠ 0 → 2 ^ 52 * (denominator * twoTo x.shift) ≤ numerator * unitsPerOne
  · exact nearestBits_eq positive regular short rounds canonical.bits_lt
  · obtain ⟨shifted, notLong⟩ := Classical.not_imp.mp regular
    obtain ⟨shift, isNext⟩ := Nat.exists_eq_succ_of_ne_zero shifted
    have small := Nat.lt_of_not_le notLong
    obtain ⟨isPower, double⟩ := roundsTo_double inRange canonical isNext small
    have sameBits : x.bits = 2 ^ 53 + shift * twoTo 52 := by
      have power : twoTo 52 = 2 ^ 52 := rfl
      rw [bits, isPower, isNext, Nat.succ_mul]
      omega
    have above := double.above
    rw [isNext, mul_twoTo_succ] at small wide
    rw [sameBits]
    exact nearestBits_eq positive (fun _ => by omega) (by omega) double
      (sameBits ▸ canonical.bits_lt)

end Magnitude

end Binary64

end Lox
