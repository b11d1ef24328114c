/-
**Numerals and the numbers they stand for.**

* `Numeral` — a text of digits, with or without a point and further digits after it.
* `Denotes` — a text is a numeral for a quotient. The texts of whole numbers and of decimals are
  (`denotes_whole`, `denotes_plain`).
* `readNumber_of_denotes` — a numeral for a quotient in the range of a magnitude
  is read as that magnitude.
* `Number.denotes_inTree`, `Number.denotes_inToken`, `Number.denotes_printed` — the texts of a
  number are such numerals, the printed one as long as it has no exponent.
* `Number.readNumber_inTree` — the text of a literal in a syntax tree is read as the same number, so
  that no two numbers have the same text (`Number.inTree_injective`).
-/

import Lox.Number
import Lox.Token.Scan
import Lox.Proofs.Decimal.Patterns
import Lox.Proofs.Decimal.Shortest

namespace Lox

/-! ### Digits -/

/-- At least one digit, and nothing else. -/
structure AreDigits (text : List Char) : Prop where
  ne_nil : text ≠ []
  digit : ∀ c ∈ text, c.isDigit = true

theorem areDigits_zero : AreDigits ['0'] :=
  ⟨List.cons_ne_nil _ _, List.forall_mem_singleton.mpr rfl⟩

theorem digit_zeros (count : Nat) : ∀ c ∈ List.replicate count '0', c.isDigit = true := by
  intro c isOne
  rw [List.eq_of_mem_replicate isOne]
  rfl

theorem areDigits_digitChars (n : Nat) : AreDigits (digitChars n) :=
  ⟨Nat.toDigits_ne_nil, fun _ => Nat.isDigit_of_mem_toDigits (by decide) (by decide)⟩

theorem ofDigitChars_digitChars (n : Nat) : ofDigitChars (digitChars n) = n :=
  Nat.ofDigitChars_ten_toDigits

theorem ofDigitChars_append_zeros (digits : List Char) (count : Nat) :
    ofDigitChars (digits ++ List.replicate count '0') = ofDigitChars digits * tenTo count := by
  have appended := Nat.ofDigitChars_append (b := 10) (l := digits) (m := List.replicate count '0') 0
  rw [Nat.ofDigitChars_replicate_zero, Nat.mul_comm] at appended
  exact appended

theorem ofDigitChars_zeros_append (count : Nat) (digits : List Char) :
    ofDigitChars (List.replicate count '0' ++ digits) = ofDigitChars digits := by
  have appended := Nat.ofDigitChars_append (b := 10) (l := List.replicate count '0') (m := digits) 0
  rw [Nat.ofDigitChars_replicate_zero, Nat.mul_zero] at appended
  exact appended

namespace AreDigits

variable {digits : List Char} (areDigits : AreDigits digits)

include areDigits

theorem ne_point : ∀ c ∈ digits, (c != '.') = true := by
  intro c isOne
  refine bne_iff_ne.mpr ?_
  rintro rfl
  cases areDigits.digit '.' isOne

theorem append_zeros (count : Nat) : AreDigits (digits ++ List.replicate count '0') :=
  ⟨List.append_ne_nil_of_left_ne_nil areDigits.ne_nil _,
    List.forall_mem_append.mpr ⟨areDigits.digit, digit_zeros count⟩⟩

theorem zeros_append (count : Nat) : AreDigits (List.replicate count '0' ++ digits) :=
  ⟨List.append_ne_nil_of_right_ne_nil _ areDigits.ne_nil,
    List.forall_mem_append.mpr ⟨digit_zeros count, areDigits.digit⟩⟩

theorem take {count : Nat} (some : 0 < count) : AreDigits (digits.take count) := by
  refine ⟨fun isNil => ?_, fun c isOne => areDigits.digit c (List.mem_of_mem_take isOne)⟩
  rcases List.take_eq_nil_iff.mp isNil with none | isNil
  · exact absurd none (Nat.ne_of_gt some)
  · exact areDigits.ne_nil isNil

theorem drop {count : Nat} (notAll : count < digits.length) : AreDigits (digits.drop count) :=
  ⟨mt List.drop_eq_nil_iff.mp (Nat.not_le.mpr notAll),
    fun c isOne => areDigits.digit c (List.mem_of_mem_drop isOne)⟩

end AreDigits

/-! ### Numerals -/

/-- A text of digits, with or without a point and further digits after it. -/
inductive Numeral : (text whole fraction : List Char) → Prop
  | whole {digits : List Char} : AreDigits digits → Numeral digits digits []
  | fraction {digits decimals : List Char} : AreDigits digits → AreDigits decimals →
      Numeral (digits ++ '.' :: decimals) digits decimals

namespace Numeral

variable {text whole fraction : List Char}

theorem readNumber_eq (numeral : Numeral text whole fraction) :
    readNumber text = readDecimal whole fraction := by
  cases numeral with
  | whole areDigits =>
    rw [readNumber, List.takeWhile_eq_self_iff.mpr areDigits.ne_point,
      List.dropWhile_eq_nil_iff.mpr areDigits.ne_point]
    rfl
  | fraction areDigits =>
    rw [readNumber, List.takeWhile_append_of_pos areDigits.ne_point,
      List.dropWhile_append_of_pos areDigits.ne_point]
    exact congrArg₂ readDecimal (List.append_nil whole) rfl

end Numeral

/-- A text is a numeral for a quotient. -/
def Denotes (text : List Char) (numerator denominator : Nat) : Prop :=
  ∃ whole fraction factor, Numeral text whole fraction ∧ 0 < factor ∧
    ofDigitChars (whole ++ fraction) = numerator * factor ∧
    tenTo fraction.length = denominator * factor

/-- A fraction of a whole number does not change the number. -/
theorem denotes_whole {digits : List Char} (areDigits : AreDigits digits) (fraction : Fraction) :
    Denotes (digits ++ fraction.ofWhole) (ofDigitChars digits) 1 := by
  cases fraction with
  | always =>
    have read : ofDigitChars (digits ++ ['0']) = ofDigitChars digits * tenTo 1 :=
      ofDigitChars_append_zeros digits 1
    exact ⟨digits, ['0'], tenTo 1, .fraction areDigits areDigits_zero, by decide, read, rfl⟩
  | asNeeded =>
    rw [Fraction.ofWhole, List.append_nil]
    exact ⟨digits, [], 1, .whole areDigits, Nat.one_pos, by rw [List.append_nil, Nat.mul_one], rfl⟩

theorem denotes_plain (x : Decimal) (fraction : Fraction) :
    Denotes (x.plain fraction) x.numerator x.denominator := by
  have areDigits := areDigits_digitChars x.digits
  have read := ofDigitChars_digitChars x.digits
  unfold Decimal.plain
  dsimp only
  split
  case isTrue whole =>
    have denotes := denotes_whole (areDigits.append_zeros x.exponent.toNat) fraction
    rw [ofDigitChars_append_zeros, read] at denotes
    rw [Decimal.denominator_of_nonneg whole]
    exact denotes
  case isFalse notWhole =>
    rw [Decimal.numerator_of_nonpos (by omega)]
    have point : x.point = (digitChars x.digits).length + x.exponent := rfl
    split
    case isTrue before =>
      refine ⟨_, _, 1, .fraction (areDigits.take (by omega)) (areDigits.drop (by omega)),
        Nat.one_pos, ?_, ?_⟩
      · rw [List.take_append_drop, read, Nat.mul_one]
      · rw [List.length_drop, Nat.mul_one, Decimal.denominator]
        congr 1
        omega
    case isFalse notBefore =>
      refine ⟨['0'], _, 1, .fraction areDigits_zero (areDigits.zeros_append _), Nat.one_pos, ?_, ?_⟩
      · have zeros := ofDigitChars_zeros_append ((-x.point).toNat + 1) (digitChars x.digits)
        rw [read] at zeros
        rw [Nat.mul_one]
        exact zeros
      · show tenTo (List.replicate (-x.point).toNat '0' ++ digitChars x.digits).length = _
        rw [List.length_append, List.length_replicate, Nat.mul_one, Decimal.denominator]
        congr 1
        omega

/-! ### Doubles -/

namespace Binary64

/-- A numeral for a quotient in the range of a magnitude is read as that magnitude. -/
theorem readNumber_of_denotes {text : List Char} {numerator denominator : Nat}
    {magnitude : Magnitude} (denotes : Denotes text numerator denominator)
    (inRange : magnitude.range.Contains numerator denominator) (canonical : magnitude.Canonical) :
    readNumber text = Float.ofBits (UInt64.ofNat magnitude.bits) := by
  obtain ⟨whole, fraction, factor, numeral, positive, isNumerator, isDenominator⟩ := denotes
  have inRange := inRange.scale positive
  rw [← isNumerator, ← isDenominator] at inRange
  rw [numeral.readNumber_eq, readDecimal, nearest,
    Magnitude.nearestBits_eq_bits inRange canonical (Nat.pow_pos (by decide))]

end Binary64

namespace Number

open Binary64

theorem denotes_positional (magnitude : Magnitude) (tie : Tie) (fraction : Fraction) :
    ∃ numerator denominator, Denotes (positional magnitude tie fraction) numerator denominator ∧
      magnitude.range.Contains numerator denominator := by
  unfold positional
  split
  case isTrue isZero =>
    refine ⟨_, _, denotes_whole areDigits_zero fraction, Magnitude.contains_of_units Nat.one_pos ?_⟩
    have isNothing : ofDigitChars ['0'] = 0 := rfl
    rw [Magnitude.units, isZero, isNothing, Nat.zero_mul, Nat.zero_mul, Nat.zero_mul]
  case isFalse => exact ⟨_, _, denotes_plain _ fraction, magnitude.contains_shortest tie⟩

/-- A text is a numeral for a quotient that is rounded to a magnitude. -/
def DenotesIn (text : String) (magnitude : Magnitude) : Prop :=
  ∃ numerator denominator, Denotes text.toList numerator denominator ∧
    magnitude.range.Contains numerator denominator

section

variable {x : Float} {magnitude : Magnitude}
  (isFinite : Reading.ofFloat x = .finite false magnitude)

include isFinite

theorem whole?_of_finite : whole? x = magnitude.whole?.map fun n => (false, n) := by
  rw [whole?, isFinite]

theorem denotes_pointed : DenotesIn (pointed x) magnitude := by
  unfold pointed
  rw [isFinite]
  dsimp only
  rw [DenotesIn, signed, String.toList_ofList]
  exact denotes_positional magnitude .up .asNeeded

omit isFinite in
/-- The digits of a magnitude that is a whole number, with a fraction. -/
theorem denotes_digits {n : Nat} (isWhole : magnitude.whole? = some n) :
    DenotesIn (signed false (digitChars n ++ Fraction.always.ofWhole)) magnitude := by
  have denotes := denotes_whole (areDigits_digitChars n) .always
  rw [ofDigitChars_digitChars] at denotes
  rw [DenotesIn, signed, String.toList_ofList]
  exact ⟨n, 1, denotes, Magnitude.contains_whole isWhole⟩

/-- The text of a literal in a syntax tree is a numeral for a quotient that is rounded to the
literal. -/
theorem denotes_inTree : DenotesIn (inTree x) magnitude := by
  unfold inTree
  rw [whole?_of_finite isFinite]
  cases isWhole : magnitude.whole? with
  | some n => exact denotes_digits isWhole
  | none => exact denotes_pointed isFinite

/-- So is the literal of a token in a listing. -/
theorem denotes_inToken : DenotesIn (inToken x) magnitude := by
  unfold inToken
  rw [whole?_of_finite isFinite]
  cases isWhole : magnitude.whole? with
  | some n =>
    dsimp only [Option.map_some]
    split
    · exact denotes_digits isWhole
    · exact denotes_pointed isFinite
  | none => exact denotes_pointed isFinite

/-- So is what is printed, if it has no exponent. -/
theorem denotes_printed (plain : magnitude.mantissa = 0 ∨
    (-2 ≤ (magnitude.shortest .up).point ∧ (magnitude.shortest .up).point ≤ 7)) :
    DenotesIn (printed x) magnitude := by
  unfold printed
  rw [isFinite]
  dsimp only
  rw [if_pos plain, DenotesIn, signed, String.toList_ofList]
  exact denotes_positional magnitude .up .asNeeded

/-- A numeral for a quotient that is rounded to a number is read as that number. -/
theorem DenotesIn.readNumber_eq {text : String} (denotesIn : DenotesIn text magnitude) :
    readNumber text.toList = x := by
  obtain ⟨canonical, isBits⟩ := of_ofFloat isFinite
  obtain ⟨_, _, denotes, inRange⟩ := denotesIn
  rw [readNumber_of_denotes denotes inRange canonical, ← isBits]

/-- **The text of a literal in a syntax tree is read as the same number.** -/
theorem readNumber_inTree : readNumber (inTree x).toList = x :=
  (denotes_inTree isFinite).readNumber_eq isFinite

end

/-- No two numbers have the same text in a syntax tree. -/
theorem inTree_injective {x y : Float} {first second : Magnitude}
    (isFinite : Reading.ofFloat x = .finite false first)
    (isFiniteToo : Reading.ofFloat y = .finite false second) (same : inTree x = inTree y) :
    x = y := by
  rw [← readNumber_inTree isFinite, same, readNumber_inTree isFiniteToo]

end Number

end Lox
