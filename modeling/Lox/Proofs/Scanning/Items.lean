/-
**What each piece of a source text yields.**

* `Piece.Yields` — the token or the diagnostic of a piece, with the text of its bytes. A word is a
  reserved word exactly if its bytes are those of one.
* `decodeLossy_ascii` — a text in ASCII has a character for each byte, so that words are told apart
  by their bytes as well as by their text (`Keyword.text_eq_iff`).
* `yields_item?`, `Cuts.yields` — every piece but blank space and comments yields one item, in
  order.
-/

import Lox.Proofs.Scanning.Longest
import Mathlib.Data.List.Forall2

namespace Lox

/-! ### Text in ASCII -/

namespace Utf8

/-- The character that a byte is in ASCII. -/
def charOf (byte : UInt8) : Char :=
  Char.ofNat byte.toNat

theorem toNat_ofNat {code : Nat} (valid : code.isValidChar) : (Char.ofNat code).toNat = code := by
  rw [Char.ofNat, dif_pos valid]
  rfl

theorem toNat_charOf (byte : UInt8) : (charOf byte).toNat = byte.toNat := by
  have isByte := byte.toNat_lt
  exact toNat_ofNat (.inl (by omega))

theorem charOf_injective : Function.Injective charOf := by
  intro first second same
  exact UInt8.toNat_inj.mp (by rw [← toNat_charOf first, ← toNat_charOf second, same])

theorem chunksWithin_ascii {bytes : List UInt8} (ascii : ∀ byte ∈ bytes, byte < 0x80) {count : Nat}
    (enough : bytes.length ≤ count) :
    chunksWithin count bytes = bytes.map fun byte => .char (charOf byte) := by
  induction bytes generalizing count with
  | nil => cases count <;> rfl
  | cons byte rest ih =>
    cases count with
    | zero => cases enough
    | succ count =>
      have isFirst : next byte rest = (.char (charOf byte), rest) :=
        if_pos (ascii byte List.mem_cons_self)
      have others := ih (fun other isOne => ascii other (List.mem_cons_of_mem _ isOne))
        (Nat.le_of_succ_le_succ enough)
      rw [chunksWithin, isFirst, List.map_cons, ← others]

/-- **A text in ASCII has a character for each byte.** -/
theorem decodeLossy_ascii {bytes : List UInt8} (ascii : ∀ byte ∈ bytes, byte < 0x80) :
    decodeLossy bytes = String.ofList (bytes.map charOf) := by
  rw [decodeLossy, chunks, chunksWithin_ascii ascii (Nat.le_refl _), List.map_map]
  rfl

end Utf8

theorem ascii_of_digit {byte : UInt8} (isDigit : isDigitByte byte = true) : byte < 0x80 := by
  unfold isDigitByte at isDigit
  grind

theorem ascii_of_word : ∀ byte, isWordByte byte = true → byte < 0x80 := by
  unfold isWordByte isWordStart isDigitByte
  grind

/-- A text in ASCII is a reserved word exactly if its bytes are those of the word. -/
theorem Keyword.text_eq_iff {bytes : List UInt8} (ascii : ∀ byte ∈ bytes, byte < 0x80)
    (keyword : Keyword) :
    keyword.text = Utf8.decodeLossy bytes ↔ Utf8.encode keyword.text = bytes := by
  have written : keyword.text = String.ofList ((Utf8.encode keyword.text).map Utf8.charOf) := by
    cases keyword <;> decide +kernel
  rw [Utf8.decodeLossy_ascii ascii]
  constructor
  · intro same
    rw [written] at same
    have chars := congrArg String.toList same
    rw [String.toList_ofList, String.toList_ofList] at chars
    exact (List.map_inj_right fun _ _ same => Utf8.charOf_injective same).mp chars
  · rintro rfl
    exact written

/-! ### Items of pieces -/

namespace Piece

/-- The piece is neither blank space nor a comment. -/
def isSolid (piece : Piece) : Bool :=
  piece.shape != .blank && piece.shape != .comment

/-- The item is the token or the diagnostic of the piece, on whatever line. -/
inductive Yields : Piece → Item → Prop
  | symbol {symbol : Symbol} {bytes : List UInt8} {line : Nat} :
      Yields ⟨.symbol symbol, bytes⟩ (.token ⟨.symbol symbol, Utf8.decodeLossy bytes, line⟩)
  | number {bytes : List UInt8} {line : Nat} :
      Yields ⟨.number, bytes⟩
        (.token ⟨.number (readNumber (Utf8.decodeLossy bytes).toList),
          Utf8.decodeLossy bytes, line⟩)
  | keyword {keyword : Keyword} {bytes : List UInt8} {line : Nat} :
      Utf8.encode keyword.text = bytes →
      Yields ⟨.word, bytes⟩ (.token ⟨.keyword keyword, Utf8.decodeLossy bytes, line⟩)
  | identifier {bytes : List UInt8} {line : Nat} :
      (∀ keyword : Keyword, Utf8.encode keyword.text ≠ bytes) →
      Yields ⟨.word, bytes⟩ (.token ⟨.identifier, Utf8.decodeLossy bytes, line⟩)
  | string {body : List UInt8} {line : Nat} :
      Yields ⟨.string, Byte.quote :: body ++ [Byte.quote]⟩
        (.token ⟨.string (Utf8.decodeLossy body),
          Utf8.decodeLossy (Byte.quote :: body ++ [Byte.quote]), line⟩)
  | openString {bytes : List UInt8} {line : Nat} :
      Yields ⟨.openString, bytes⟩ (.diagnostic ⟨line, .characters, .unterminatedString⟩)
  | stray {bytes : List UInt8} {line : Nat} :
      Yields ⟨.stray, bytes⟩
        (.diagnostic ⟨line, .characters, .unexpectedCharacter (Utf8.decodeLossy bytes)⟩)

theorem item?_eq_none {piece : Piece} (notSolid : piece.isSolid = false) (line : Nat) :
    piece.item? line = none := by
  obtain ⟨shape, bytes⟩ := piece
  cases shape with
  | blank | comment => rfl
  | _ => cases notSolid

theorem item?_reserved {bytes : List UInt8} {keyword : Keyword}
    (known : Keyword.ofText? (Utf8.decodeLossy bytes) = some keyword) (line : Nat) :
    item? ⟨.word, bytes⟩ line = some (.token ⟨.keyword keyword, Utf8.decodeLossy bytes, line⟩) := by
  simp only [item?, text, known]

theorem item?_name {bytes : List UInt8} (unknown : Keyword.ofText? (Utf8.decodeLossy bytes) = none)
    (line : Nat) :
    item? ⟨.word, bytes⟩ line = some (.token ⟨.identifier, Utf8.decodeLossy bytes, line⟩) := by
  simp only [item?, text, unknown]

/-- A word yields a reserved word if its bytes are those of one, and a name otherwise. -/
theorem yields_word {bytes : List UInt8} (ascii : ∀ byte ∈ bytes, byte < 0x80) (line : Nat) :
    ∃ item, item? ⟨.word, bytes⟩ line = some item ∧ Yields ⟨.word, bytes⟩ item := by
  cases known : Keyword.ofText? (Utf8.decodeLossy bytes) with
  | some keyword =>
    have isText := List.find?_some known
    exact ⟨_, item?_reserved known line,
      .keyword ((Keyword.text_eq_iff ascii keyword).mp (of_decide_eq_true isText))⟩
  | none =>
    refine ⟨_, item?_name known line, .identifier fun keyword spelled => ?_⟩
    have isOne : keyword ∈ Keyword.all := by cases keyword <;> decide
    have isNot := List.find?_eq_none.mp known keyword isOne
    exact isNot (decide_eq_true ((Keyword.text_eq_iff ascii keyword).mpr spelled))

theorem contents_string (body : List UInt8) :
    Piece.contents ⟨.string, Byte.quote :: body ++ [Byte.quote]⟩ = Utf8.decodeLossy body := by
  rw [Piece.contents, List.cons_append, List.tail_cons, List.dropLast_concat]

/-- **Every piece but blank space and comments yields its token or its diagnostic.** -/
theorem yields_item? {piece : Piece} {after : List UInt8}
    (fits : Fits piece.shape piece.bytes after) (solid : piece.isSolid = true) (line : Nat) :
    ∃ item, piece.item? line = some item ∧ piece.Yields item := by
  obtain ⟨shape, bytes⟩ := piece
  dsimp only at fits
  cases fits with
  | blank | comment => cases solid
  | symbol => exact ⟨_, rfl, .symbol⟩
  | whole | fraction => exact ⟨_, rfl, .number⟩
  | @word first body _ isWord all =>
    refine yields_word (fun byte isOne => ascii_of_word byte ?_) line
    rcases List.mem_cons.mp isOne with rfl | inBody
    · rw [isWordByte, isWord, Bool.true_or]
    · exact all byte inBody
  | @string body =>
    refine ⟨_, rfl, ?_⟩
    rw [contents_string]
    exact .string
  | openString => exact ⟨_, rfl, .openString⟩
  | stray => exact ⟨_, rfl, .stray⟩

end Piece

/-- The pieces that are neither blank space nor comments yield the items, one each. -/
theorem Cuts.yields {source : List UInt8} {parts : List Piece} (cuts : Cuts source parts)
    (line : Nat) :
    List.Forall₂ Piece.Yields (parts.filter Piece.isSolid) (itemsOf line parts) := by
  induction cuts generalizing line with
  | nil => exact .nil
  | @cons piece _ _ others longest _ ih =>
    rw [itemsOf]
    by_cases solid : piece.isSolid = true
    · obtain ⟨item, isItem, yields⟩ := Piece.yields_item? longest.fits solid (line + piece.lineEnds)
      rw [List.filter_cons_of_pos solid, isItem]
      exact .cons yields (ih _)
    · rw [List.filter_cons_of_neg solid, Piece.item?_eq_none (Bool.eq_false_iff.mpr solid)]
      exact ih _

end Lox
