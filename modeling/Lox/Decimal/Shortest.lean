/-
**The fewest decimal digits that read back as the same double.**

* `Decimal` — a number `digits * 10 ^ exponent`.
* `Range` — the numbers that round to a magnitude, in quarters of a unit. Its ends round to the
  magnitude exactly when the mantissa is even.
* `shortest` — a decimal in that range. It lies on the coarsest grid `10 ^ exponent` that has a
  point in the range, and it is the point of that grid nearest to the magnitude; of two that are
  equally near, the one that `Tie` says. If no grid that is tried had a point in the range, the
  result is the exact value, so that it is in the range in any case.
-/

import Lox.Decimal.Binary64

namespace Lox

/-- A decimal number, `digits * 10 ^ exponent`. -/
structure Decimal where
  digits : Nat
  exponent : Int
deriving DecidableEq, Repr

/-- Which of two decimals that are equally near to a number is taken. -/
inductive Tie where
  /-- The greater one. -/
  | up
  /-- The one whose last digit is even. -/
  | even
deriving DecidableEq, Repr

namespace Binary64

/-! ### Ranges and grids -/

/-- The numbers that round to a magnitude, in quarters of a unit. -/
structure Range where
  low : Nat
  value : Nat
  high : Nat
  /-- Whether the ends belong to it. -/
  closed : Bool
deriving DecidableEq, Repr

/-- The numbers that round to a magnitude: up to half the way to the neighbour on each side, where
the neighbour below a power of two is at half the distance. -/
def Magnitude.range (x : Magnitude) : Range where
  low := 4 * x.units - (if x.mantissa = twoTo 52 ∧ x.shift ≠ 0 then 1 else 2) * twoTo x.shift
  value := 4 * x.units
  high := 4 * x.units + 2 * twoTo x.shift
  closed := x.mantissa % 2 = 0

/-- A grid of decimals as a multiple of quarters of a unit: one step of the grid `10 ^ exponent` is
`step / parts` quarters. -/
structure Grid where
  step : Nat
  parts : Nat
deriving DecidableEq, Repr

/-- The grid of the multiples of `10 ^ exponent`. -/
def Grid.ofExponent (exponent : Int) : Grid where
  step := 4 * unitsPerOne * tenTo exponent.toNat
  parts := tenTo (-exponent).toNat

/-- Whether a point of a grid lies in a range. -/
def Range.holds (range : Range) (grid : Grid) (point : Nat) : Bool :=
  if range.closed then
    range.low * grid.parts ≤ point * grid.step && point * grid.step ≤ range.high * grid.parts
  else
    range.low * grid.parts < point * grid.step && point * grid.step < range.high * grid.parts

/-- The point of a grid that lies in a range and is nearest to the range's value, if there is any:
only the two neighbours of the value can be. -/
def Range.pointOn? (range : Range) (grid : Grid) (tie : Tie) : Option Nat :=
  let below := range.value * grid.parts / grid.step
  match range.holds grid below, range.holds grid (below + 1) with
  | false, false => none
  | true, false => some below
  | false, true => some (below + 1)
  | true, true =>
    let past := 2 * (range.value * grid.parts % grid.step)
    if past < grid.step then some below
    else if grid.step < past then some (below + 1)
    else
      match tie with
      | .up => some (below + 1)
      | .even => some (below + below % 2)

/-! ### The search -/

/-- The first decimal in a range on the grids from `10 ^ exponent` down, `count` of them. -/
def Range.search (range : Range) (tie : Tie) (exponent : Int) : (count : Nat) → Option Decimal
  | 0 => none
  | count + 1 =>
    match range.pointOn? (Grid.ofExponent exponent) tie with
    | some point => some ⟨point, exponent⟩
    | none => range.search tie (exponent - 1) count

/-- The exponent of a power of ten that exceeds a magnitude. -/
def Magnitude.topExponent (x : Magnitude) : Int :=
  ((x.units.log2 : Int) - 1073) * 30103 / 100000 + 1

/-- The exact value of a magnitude. -/
def Magnitude.exact (x : Magnitude) : Decimal :=
  ⟨x.units * Nat.pow 5 1074, -1074⟩

/-- The fewest digits that read back as a magnitude, and of those the nearest. -/
def Magnitude.shortest (x : Magnitude) (tie : Tie) : Decimal :=
  (x.range.search tie x.topExponent 24).getD x.exact

end Binary64

end Lox
