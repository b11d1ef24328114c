/-
**Decimals written as text.**

* `Decimal.plain` — all digits around a point, and no exponent.
* `Decimal.scientific` — one digit before the point, and an exponent.
* `readDecimal` — the double nearest to the digits before and after a point.
-/

import Lox.Decimal.Shortest

namespace Lox

/-- The digits of a natural number, without leading zeros. -/
def digitChars (n : Nat) : List Char :=
  Nat.toDigits 10 n

/-- The value of a digit, from `0` to `9`. -/
def digitValue (digit : Char) : Nat :=
  digit.toNat - '0'.toNat

/-- The natural number that a run of digits stands for. -/
def ofDigitChars (digits : List Char) : Nat :=
  digits.foldl (fun number digit => 10 * number + digitValue digit) 0

/-- The double nearest to a run of digits, the point, and a second run of digits. -/
def readDecimal (whole fraction : List Char) : Float :=
  Binary64.nearest (ofDigitChars (whole ++ fraction)) (tenTo fraction.length)

/-- Whether a text without need for a fraction gets the fraction `.0`. -/
inductive Fraction where
  | always
  | asNeeded
deriving DecidableEq, Repr

/-- The fraction of a whole number. -/
def Fraction.ofWhole : Fraction → List Char
  | .always => ['.', '0']
  | .asNeeded => []

/-- How an exponent is written. -/
structure ExponentStyle where
  mark : Char
  /-- What stands before an exponent that is not negative. -/
  plus : List Char
deriving DecidableEq, Repr

namespace Decimal

/-- The position of the point relative to the first digit: the number is `0.d₁d₂… * 10 ^ point`. -/
def point (x : Decimal) : Int :=
  (digitChars x.digits).length + x.exponent

/-- All digits around a point. -/
def plain (x : Decimal) (fraction : Fraction) : List Char :=
  let digits := digitChars x.digits
  if 0 ≤ x.exponent then
    digits ++ List.replicate x.exponent.toNat '0' ++ fraction.ofWhole
  else if 0 < x.point then
    digits.take x.point.toNat ++ '.' :: digits.drop x.point.toNat
  else
    '0' :: '.' :: List.replicate (-x.point).toNat '0' ++ digits

/-- One digit before the point, and the exponent of the power of ten that it is multiplied with. -/
def scientific (x : Decimal) (style : ExponentStyle) (fraction : Fraction) : List Char :=
  let mantissa :=
    match digitChars x.digits with
    | [] => []
    | [digit] => digit :: fraction.ofWhole
    | digit :: others => digit :: '.' :: others
  let exponent := x.point - 1
  let sign := if exponent < 0 then ['-'] else style.plus
  mantissa ++ style.mark :: sign ++ digitChars exponent.natAbs

end Decimal

end Lox
