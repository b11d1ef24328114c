/-
**The four texts of a number.**

They all have the fewest digits that read back as the same number, and differ in where an exponent
starts, in the fraction of a whole number, and in the words for what is not finite.

* `Number.printed` — what a program prints: `3`, `2.5`, `1.0E7`, `Infinity`.
* `Number.inTree` — a literal in the text of a syntax tree: `3.0`, `0.000001`, whole numbers in
  full.
* `Number.inToken` — the literal of a token in a listing: `3.0`, whole numbers from `10 ^ 15` on
  without a fraction.
* `Number.inJson` — the literal of a token in JSON: `3.0`, `1e+21`, `null` for what is not finite.
-/

import Lox.Decimal.Layout

namespace Lox

open Binary64 (Reading Magnitude)

namespace Number

/-- A text with the sign of its number before it. -/
def signed (negative : Bool) (text : List Char) : String :=
  String.ofList (if negative then '-' :: text else text)

/-- The fewest digits of a finite number around a point, zero as a single digit. -/
def positional (magnitude : Magnitude) (tie : Tie) (fraction : Fraction) : List Char :=
  if magnitude.mantissa = 0 then '0' :: fraction.ofWhole
  else (magnitude.shortest tie).plain fraction

/-- The text that a program prints: an exponent below `10 ^ -3` and from `10 ^ 7` on, and then
always a fraction. -/
def printed (x : Float) : String :=
  match Reading.ofFloat x with
  | .nan => "NaN"
  | .infinite negative => signed negative "Infinity".toList
  | .finite negative magnitude =>
    let shortest := magnitude.shortest .up
    if magnitude.mantissa = 0 ∨ (-2 ≤ shortest.point ∧ shortest.point ≤ 7) then
      signed negative (positional magnitude .up .asNeeded)
    else signed negative (shortest.scientific ⟨'E', []⟩ .always)

/-- The text of a number that is not whole, or not finite, and never has an exponent. -/
def pointed (x : Float) : String :=
  match Reading.ofFloat x with
  | .nan => "NaN"
  | .infinite negative => signed negative "inf".toList
  | .finite negative magnitude => signed negative (positional magnitude .up .asNeeded)

/-- The whole number that a finite number is, with its sign, if it is one. -/
def whole? (x : Float) : Option (Bool × Nat) :=
  match Reading.ofFloat x with
  | .finite negative magnitude => magnitude.whole?.map fun n => (negative, n)
  | _ => none

/-- The text of a literal in a syntax tree: a whole number exactly and with the fraction `.0`. -/
def inTree (x : Float) : String :=
  match whole? x with
  | some (negative, n) => signed negative (digitChars n ++ Fraction.always.ofWhole)
  | none => pointed x

/-- The text of a token's literal: a whole number below `10 ^ 15` as an integer, which has no
negative zero, with the fraction `.0`. -/
def inToken (x : Float) : String :=
  match whole? x with
  | some (negative, n) =>
    if n < tenTo 15 then signed (negative && n != 0) (digitChars n ++ Fraction.always.ofWhole)
    else pointed x
  | none => pointed x

/-- The text of a number in JSON: an exponent below `10 ^ -5` and from `10 ^ 16` on, always with its
sign, and a fraction wherever there is no exponent. -/
def inJson (x : Float) : String :=
  match Reading.ofFloat x with
  | .nan => "null"
  | .infinite _ => "null"
  | .finite negative magnitude =>
    let shortest := magnitude.shortest .even
    if magnitude.mantissa = 0 ∨ (-5 < shortest.point ∧ shortest.point ≤ 16) then
      signed negative (positional magnitude .even .always)
    else signed negative (shortest.scientific ⟨'e', ['+']⟩ .asNeeded)

end Number

end Lox
