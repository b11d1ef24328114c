/-
**The shortest decimal of a double lies in its range.**

* `Decimal.numerator`, `Decimal.denominator` — a decimal as a quotient.
* `contains_shortest` — the decimal that a magnitude is written as lies in its range, and so it is
  rounded to the magnitude again (`nearestBits_shortest`).
* `contains_whole` — so does a magnitude that is a whole number.
-/

import Lox.Proofs.Decimal.Nearest

namespace Lox

namespace Decimal

/-- The numerator of a decimal as a quotient. -/
def numerator (x : Decimal) : Nat :=
  x.digits * tenTo x.exponent.toNat

/-- The denominator of a decimal as a quotient. -/
def denominator (x : Decimal) : Nat :=
  tenTo (-x.exponent).toNat

theorem numerator_of_nonpos {x : Decimal} (fractional : x.exponent ≤ 0) :
    x.numerator = x.digits := by
  rw [numerator, Int.toNat_of_nonpos fractional]
  exact Nat.mul_one x.digits

theorem denominator_of_nonneg {x : Decimal} (whole : 0 ≤ x.exponent) : x.denominator = 1 := by
  rw [denominator, Int.toNat_of_nonpos (Int.neg_nonpos_of_nonneg whole)]
  rfl

theorem denominator_pos (x : Decimal) : 0 < x.denominator :=
  Nat.pow_pos (by decide)

end Decimal

namespace Binary64

/-! ### Points of grids -/

theorem Range.contains_of_holds {range : Range} {exponent : Int} {point : Nat}
    (holds : range.holds (Grid.ofExponent exponent) point = true) :
    range.Contains (Decimal.numerator ⟨point, exponent⟩)
      (Decimal.denominator ⟨point, exponent⟩) := by
  have sameUnits : point * (Grid.ofExponent exponent).step =
      4 * (Decimal.numerator ⟨point, exponent⟩ * unitsPerOne) := by
    rw [Grid.ofExponent, Decimal.numerator]
    ring
  unfold Range.holds at holds
  rw [sameUnits] at holds
  split at holds
  case isTrue isClosed =>
    obtain ⟨above, below⟩ := Bool.and_eq_true_iff.mp holds
    exact ⟨of_decide_eq_true above, of_decide_eq_true below,
      fun isOpen => absurd isClosed (by simp [isOpen])⟩
  case isFalse =>
    obtain ⟨above, below⟩ := Bool.and_eq_true_iff.mp holds
    have above := of_decide_eq_true above
    have below := of_decide_eq_true below
    exact ⟨Nat.le_of_lt above, Nat.le_of_lt below, fun _ => ⟨above, below⟩⟩

theorem Range.holds_of_pointOn? {range : Range} {grid : Grid} {tie : Tie} {point : Nat}
    (found : range.pointOn? grid tie = some point) : range.holds grid point = true := by
  unfold Range.pointOn? at found
  dsimp only at found
  generalize range.value * grid.parts / grid.step = below at found
  generalize 2 * (range.value * grid.parts % grid.step) = past at found
  split at found
  case h_1 => cases found
  case h_2 first second => exact Option.some.inj found ▸ first
  case h_3 first second => exact Option.some.inj found ▸ second
  case h_4 first second =>
    -- Each way to choose leads to one of the two neighbours.
    have isOne : point = below ∨ point = below + 1 := by
      rcases Nat.mod_two_eq_zero_or_one below with even | odd <;> cases tie <;> grind
    rcases isOne with rfl | rfl
    · exact first
    · exact second

theorem Range.contains_of_search {range : Range} {tie : Tie} {exponent : Int} {count : Nat}
    {found : Decimal} (isFound : range.search tie exponent count = some found) :
    range.Contains found.numerator found.denominator := by
  induction count generalizing exponent with
  | zero => cases isFound
  | succ count ih =>
    rw [Range.search] at isFound
    split at isFound
    case h_1 point isPoint =>
      obtain rfl := Option.some.inj isFound
      exact contains_of_holds (holds_of_pointOn? isPoint)
    case h_2 => exact ih isFound

theorem pow_five_mul_twoTo (exponent : Nat) :
    Nat.pow 5 exponent * twoTo exponent = tenTo exponent :=
  (Nat.mul_pow 5 2 exponent).symm

namespace Magnitude

/-- The exact value of a magnitude lies in its range. -/
theorem contains_of_units {x : Magnitude} {numerator denominator : Nat} (positive : 0 < denominator)
    (isUnits : numerator * unitsPerOne = x.units * denominator) :
    x.range.Contains numerator denominator := by
  have low : x.range.low ≤ 4 * x.units := Nat.sub_le _ _
  have high : 4 * x.units ≤ x.range.high := Nat.le_add_right _ _
  have width := twoTo_pos x.shift
  constructor <;> rw [isUnits, ← Nat.mul_assoc]
  · exact Nat.mul_le_mul_right denominator low
  · exact Nat.mul_le_mul_right denominator high
  · intro isOpen
    have odd : x.mantissa % 2 = 1 := by simpa [range] using isOpen
    have units : 0 < x.units := Nat.mul_pos (by omega) width
    have lowStrict : x.range.low < 4 * x.units :=
      Nat.sub_lt (by omega) (Nat.mul_pos (by split <;> decide) width)
    have highStrict : 4 * x.units < x.range.high :=
      Nat.lt_add_of_pos_right (Nat.mul_pos (by decide) width)
    exact ⟨Nat.mul_lt_mul_of_pos_right lowStrict positive,
      Nat.mul_lt_mul_of_pos_right highStrict positive⟩

theorem contains_exact (x : Magnitude) :
    x.range.Contains x.exact.numerator x.exact.denominator := by
  refine contains_of_units x.exact.denominator_pos ?_
  have exponent : (-(-1074 : Int)).toNat = 1074 := rfl
  rw [Decimal.numerator_of_nonpos (show (-1074 : Int) ≤ 0 by decide), Decimal.denominator,
    exact, exponent, unitsPerOne, Nat.mul_assoc]
  generalize 1074 = exponent
  rw [pow_five_mul_twoTo]

/-- **The decimal that a magnitude is written as lies in its range.** -/
theorem contains_shortest (x : Magnitude) (tie : Tie) :
    x.range.Contains (x.shortest tie).numerator (x.shortest tie).denominator := by
  unfold shortest
  cases isFound : x.range.search tie x.topExponent 24 with
  | none => exact x.contains_exact
  | some found => exact Range.contains_of_search isFound

theorem contains_whole {x : Magnitude} {n : Nat} (isWhole : x.whole? = some n) :
    x.range.Contains n 1 := by
  unfold whole? at isWhole
  split at isWhole
  case isTrue divides =>
    obtain rfl := Option.some.inj isWhole
    refine contains_of_units Nat.one_pos ?_
    rw [Nat.mul_one, Nat.div_mul_cancel (Nat.dvd_of_mod_eq_zero divides)]
  case isFalse => cases isWhole

end Magnitude

end Binary64

end Lox
