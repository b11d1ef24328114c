/-
**Doubles as exact numbers, and exact numbers as doubles.**

Every finite double is a whole number of units of `2 ^ -1074`, the least positive double.

* `Magnitude` — a finite double without its sign, as `mantissa * 2 ^ shift` units.
* `Reading` — what a double stands for: a signed magnitude, an infinity, or no number.
* `nearestBits`, `nearest` — the double nearest to a quotient of natural numbers; of two that are
  equally near, the one with the even mantissa. Beyond the greatest finite double that is infinity.

The bit pattern of a positive double is `mantissa + shift * 2 ^ 52` throughout, for
subnormal numbers and for normal ones, and a mantissa that rounds up to `2 ^ 53` carries
into the next shift by itself.
-/

namespace Lox

/-- A power of two. -/
def twoTo (exponent : Nat) : Nat :=
  Nat.pow 2 exponent

/-- A power of ten. -/
def tenTo (exponent : Nat) : Nat :=
  Nat.pow 10 exponent

namespace Binary64

/-- The number of units in one. -/
def unitsPerOne : Nat :=
  twoTo 1074

/-- The bit pattern of infinity. -/
def infinityBits : Nat :=
  2047 * twoTo 52

/-- A finite double without its sign: `mantissa * 2 ^ shift` units. -/
structure Magnitude where
  mantissa : Nat
  shift : Nat
deriving DecidableEq, Repr

namespace Magnitude

/-- The number of units in a magnitude. -/
def units (x : Magnitude) : Nat :=
  x.mantissa * twoTo x.shift

/-- The magnitude of a bit pattern without its sign bit, below that of infinity. -/
def ofBits (bits : Nat) : Magnitude :=
  if bits < twoTo 52 then ⟨bits, 0⟩
  else ⟨twoTo 52 + bits % twoTo 52, bits / twoTo 52 - 1⟩

/-- The bit pattern of a magnitude. -/
def bits (x : Magnitude) : Nat :=
  x.mantissa + x.shift * twoTo 52

/-- The whole number that the magnitude is, if it is one. -/
def whole? (x : Magnitude) : Option Nat :=
  if x.units % unitsPerOne = 0 then some (x.units / unitsPerOne) else none

end Magnitude

/-- What a double stands for. -/
inductive Reading where
  /-- No number. -/
  | nan
  | infinite (negative : Bool)
  | finite (negative : Bool) (magnitude : Magnitude)
deriving DecidableEq, Repr

/-- What a 64-bit pattern stands for: the sign in the top bit, then eleven bits of exponent, then
fifty-two of mantissa. -/
def Reading.ofBits (pattern : Nat) : Reading :=
  let negative : Bool := twoTo 63 ≤ pattern
  let bits := pattern % twoTo 63
  if bits < infinityBits then .finite negative (Magnitude.ofBits bits)
  else if bits = infinityBits then .infinite negative
  else .nan

/-- What a double stands for. -/
def Reading.ofFloat (x : Float) : Reading :=
  Reading.ofBits x.toBits.toNat

/-- The quotient of two natural numbers rounded to the nearest one, a half to the even one. -/
def roundQuotient (numerator denominator : Nat) : Nat :=
  let quotient := numerator / denominator
  let remainder := numerator % denominator
  if 2 * remainder < denominator then quotient
  else if denominator < 2 * remainder then quotient + 1
  else quotient + quotient % 2

/-- The bit pattern of the double nearest to a quotient of natural numbers. The shift is the least
that leaves fewer than fifty-four bits before the point. -/
def nearestBits (numerator denominator : Nat) : Nat :=
  let units := numerator * unitsPerOne
  let shift := (units / denominator).log2 - 52
  min (roundQuotient units (denominator * twoTo shift) + shift * twoTo 52) infinityBits

/-- The double nearest to a quotient of natural numbers. -/
def nearest (numerator denominator : Nat) : Float :=
  Float.ofBits (UInt64.ofNat (nearestBits numerator denominator))

end Binary64

end Lox
