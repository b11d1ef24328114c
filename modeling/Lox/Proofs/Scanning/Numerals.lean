/-
**The texts of numbers are scanned as those numbers.**

* `Numeral.fits` — a numeral is a number by the rules that cut a text into pieces.
* `ScansAs` — a text is scanned as one number, and nothing else is in it. `scansAs_of_denotesIn`: a
  numeral for a quotient is scanned as what the quotient is rounded to.
* `number_texts_scan_as_the_number` — so are the texts of a finite number without a sign, in a
  syntax tree and in a listing, and from `10 ^ -3` on and below `10 ^ 7` in what is printed as well.
-/

import Lox.Proofs.Decimal.Numerals
import Lox.Proofs.Decimal.Order
import Lox.Proofs.Scanning.Joined
import Lox.Token.Listing
import Lox.Tree.Text
import Lox.Value

namespace Lox

open Binary64 (Reading Magnitude)

/-! ### Numerals as bytes -/

/-- Digits are those of bytes. -/
theorem AreDigits.exists_bytes {digits : List Char} (areDigits : AreDigits digits) :
    ∃ bytes, IsDigits bytes ∧ bytes.map Utf8.charOf = digits := by
  have each : ∀ c ∈ digits, isDigitByte (UInt8.ofNat c.toNat) = true ∧
      Utf8.charOf (UInt8.ofNat c.toNat) = c := by
    intro c isOne
    obtain ⟨atLeast, atMost⟩ := Bool.and_eq_true_iff.mp (areDigits.digit c isOne)
    have atLeast : 48 ≤ c.toNat := UInt32.le_iff_toNat_le.mp (of_decide_eq_true atLeast)
    have atMost : c.toNat ≤ 57 := UInt32.le_iff_toNat_le.mp (of_decide_eq_true atMost)
    have isByte : (UInt8.ofNat c.toNat).toNat = c.toNat :=
      Nat.mod_eq_of_lt (Nat.lt_of_le_of_lt atMost (by decide))
    constructor
    · rw [isDigitByte, Bool.and_eq_true_iff, decide_eq_true_iff, decide_eq_true_iff,
        UInt8.le_iff_toNat_le, UInt8.le_iff_toNat_le, isByte]
      exact ⟨atLeast, atMost⟩
    · rw [Utf8.charOf, isByte, Char.ofNat_toNat]
  refine ⟨digits.map fun c => UInt8.ofNat c.toNat, ⟨?_, ?_⟩, ?_⟩
  · exact fun isNil => areDigits.ne_nil (List.map_eq_nil_iff.mp isNil)
  · exact List.forall_mem_map.mpr fun c isOne => (each c isOne).1
  · rw [List.map_map]
    exact (List.map_congr_left fun c isOne => (each c isOne).2).trans (List.map_id digits)

/-- A numeral is a number by the rules that cut a text into pieces. -/
theorem Numeral.fits {text whole fraction : List Char} (numeral : Numeral text whole fraction) :
    ∃ bytes, Piece.Fits .number bytes [] ∧ bytes.map Utf8.charOf = text := by
  cases numeral with
  | whole areDigits =>
    obtain ⟨bytes, isDigits, isText⟩ := areDigits.exists_bytes
    exact ⟨bytes, .whole isDigits, isText⟩
  | fraction areDigits areDecimals =>
    obtain ⟨digits, isDigits, rfl⟩ := areDigits.exists_bytes
    obtain ⟨decimals, isDecimals, rfl⟩ := areDecimals.exists_bytes
    refine ⟨digits ++ Byte.dot :: decimals, .fraction isDigits isDecimals, ?_⟩
    rw [List.map_append, List.map_cons]
    rfl

/-- A number stands on one line. -/
theorem Piece.Fits.lineEnds_number {bytes after : List UInt8} (fits : Fits .number bytes after) :
    Piece.lineEnds ⟨.number, bytes⟩ = 0 := by
  refine List.count_eq_zero.mpr fun isOne => ?_
  have noDigit : ¬ isDigitByte Byte.newline = true := by decide
  cases fits with
  | whole isDigits => exact noDigit (isDigits.2 _ isOne)
  | fraction isDigits isDecimals =>
    rcases List.mem_append.mp isOne with isDigit | isRest
    · exact noDigit (isDigits.2 _ isDigit)
    rcases List.mem_cons.mp isRest with isPoint | isDecimal
    · cases isPoint
    · exact noDigit (isDecimals.2 _ isDecimal)

/-! ### Scanning -/

/-- A text is scanned as one number, which is all of it, and nothing is wrong with it. -/
def ScansAs (text : String) (x : Float) : Prop :=
  items (Utf8.encode text) = [.token ⟨.number x, text, 1⟩, .token (.finish 1)]

theorem Numeral.scansAs {text : String} {whole fraction : List Char}
    (numeral : Numeral text.toList whole fraction) :
    ScansAs text (readNumber text.toList) := by
  obtain ⟨bytes, fits, isText⟩ := numeral.fits
  have ascii : ∀ byte ∈ bytes, byte < 0x80 := fits.ascii rfl nofun
  have decoded : Utf8.decodeLossy bytes = text := by
    rw [Utf8.decodeLossy_ascii ascii, isText, String.ofList_toList]
  have encoded : Utf8.encode text = bytes := by
    rw [← decoded, Utf8.encode_decodeLossy_ascii ascii]
  have cut : pieces bytes = [⟨.number, bytes⟩] := by
    have atEnd : Piece.Apart [] := nofun
    have whole := @Piece.pieces_rewritten ⟨.number, bytes⟩ [] rfl fits [] atEnd
    rw [Piece.rewritten_ascii ascii, List.append_nil] at whole
    exact whole
  rw [ScansAs, encoded, items, cut, itemsFrom, itemsFrom, fits.lineEnds_number,
    Piece.item?, Piece.text, decoded]
  rfl

/-- A numeral for a quotient that is rounded to a number is scanned as that number. -/
theorem scansAs_of_denotesIn {text : String} {x : Float} {magnitude : Magnitude}
    (isFinite : Reading.ofFloat x = .finite false magnitude)
    (denotesIn : Number.DenotesIn text magnitude) :
    ScansAs text x := by
  have read := denotesIn.readNumber_eq isFinite
  obtain ⟨_, _, ⟨_, _, _, numeral, -⟩, -⟩ := denotesIn
  exact read ▸ numeral.scansAs

/-- **The texts of a number are scanned as that number,** for every finite double without a sign,
which are those of the patterns below that of infinity. The text of its literal in a syntax tree is
one number token with the same pattern, and nothing is wrong with it, and so is the text of its
literal in a listing. So is what is printed for it, if it is zero, or if it is at least `10 ^ -3`
and less than `10 ^ 7`. -/
theorem number_texts_scan_as_the_number (bits : UInt64)
    (finite : bits.toNat < Binary64.infinityBits) :
    (Float.ofBits bits).toBits = bits ∧
    ScansAs (Literal.number (.ofBits bits)).text (.ofBits bits) ∧
    ScansAs (Kind.number (.ofBits bits)).literal (.ofBits bits) ∧
    (Float.ofBits bits = 0 ∨ 1e-3 ≤ Float.ofBits bits ∧ Float.ofBits bits < 1e7 →
      ScansAs (Value.number (.ofBits bits)).text (.ofBits bits)) := by
  have sameBits : (Float.ofBits bits).toBits = bits := by
    have kept := Binary64.toNat_toBits_ofBits (Nat.le_of_lt finite)
    rw [UInt64.ofNat_toNat] at kept
    exact UInt64.toNat_inj.mp kept
  have isFinite : Reading.ofFloat (.ofBits bits) = .finite false (.ofBits bits.toNat) :=
    Binary64.ofFloat_eq_finite.mpr (by rw [sameBits]; exact ⟨finite, rfl⟩)
  refine ⟨sameBits, scansAs_of_denotesIn isFinite (Number.denotes_inTree isFinite),
    scansAs_of_denotesIn isFinite (Number.denotes_inToken isFinite),
    fun inWindow => scansAs_of_denotesIn isFinite (Number.denotes_printed isFinite ?_)⟩
  rcases inWindow with isZero | ⟨above, below⟩
  · have noBits : bits = 0 := by
      rw [← sameBits, isZero]
      decide +kernel
    rw [noBits]
    exact .inl (by decide)
  · exact .inr (Binary64.point_shortest isFinite .up above below)

/-- The greatest double below ten millions. -/
theorem greatest_below_ten_millions_scans_as_itself :
    (Value.number (.ofBits 0x416312CFFFFFFFFF)).text = "9999999.999999998" ∧
      ScansAs "9999999.999999998" (.ofBits 0x416312CFFFFFFFFF) := by
  have isText : (Value.number (.ofBits 0x416312CFFFFFFFFF)).text =
    "9999999.999999998" := by decide +kernel
  have scans := (number_texts_scan_as_the_number 0x416312CFFFFFFFFF (by decide)).2.2.2
    (.inr (by decide +kernel))
  exact ⟨isText, isText ▸ scans⟩

end Lox
