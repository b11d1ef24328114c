/-
**A well-formed text is cut between its characters.**

* `Utf8.encodeChar_eq`, `Utf8.boundary_before`, `Utf8.boundary_after` — only the bytes after the
  first one of a character go on with it. So a place before any other byte, and one after a byte in
  ASCII, is between two characters.
* `Piece.Longest.boundary` — each piece ends at such a place: with a byte in ASCII, or where no more
  bytes go on with a character. A stray piece is one whole character (`Piece.Fits.stray_eq`).
* `Excerpt`, `Excerpt.Says` — a piece as characters, and what its item says about them.
* `startsToken` — the characters that tokens start with.
* `scans_whole_characters` — lexemes and contents are what is written there, and what is reported as
  unexpected is one character each: those outside of tokens, strings and comments that are not blank
  and start no token.
-/

import Lox.Proofs.Scanning.Lexemes
import Lox.Proofs.Scanning.Lines

namespace Lox

/-! ### Between characters -/

namespace Utf8

theorem isContinuation_ofNat {value : Nat} (isByte : value < 256)
    (outside : value < 0x80 ∨ 0xC0 ≤ value) :
    isContinuation (UInt8.ofNat value) = false := by
  have isValue : (UInt8.ofNat value).toNat = value := UInt8.toNat_ofNat_of_lt' isByte
  have low : (0x80 : UInt8).toNat = 0x80 := rfl
  have high : (0xBF : UInt8).toNat = 0xBF := rfl
  rw [← Bool.not_eq_true, isContinuation, Bool.and_eq_true, decide_eq_true_eq, decide_eq_true_eq,
    UInt8.le_iff_toNat_le, UInt8.le_iff_toNat_le]
  omega

/-- The first byte of a character goes on with none, and all others do. -/
theorem encodeChar_eq (c : Char) :
    ∃ first others, String.utf8EncodeChar c = first :: others ∧ isContinuation first = false ∧
      ∀ byte ∈ others, isContinuation byte = true := by
  have bound : c.val.toNat < 0x110000 :=
    c.valid.elim (fun low => Nat.lt_trans low (by decide)) And.right
  unfold String.utf8EncodeChar
  generalize c.val.toNat = code at bound
  dsimp only
  split
  · exact ⟨_, [], rfl, isContinuation_ofNat (by omega) (by omega), nofun⟩
  split
  · refine ⟨_, [tail code], rfl, isContinuation_ofNat (by omega) (by omega), ?_⟩
    simp only [List.forall_mem_cons, isContinuation_tail, List.not_mem_nil,
      false_imp_iff, implies_true, true_and]
  split
  · refine ⟨_, [tail (code / 64), tail code], rfl, isContinuation_ofNat (by omega) (by omega), ?_⟩
    simp only [List.forall_mem_cons, isContinuation_tail, List.not_mem_nil,
      false_imp_iff, implies_true, true_and]
  · refine ⟨_, [tail (code / 4096), tail (code / 64), tail code], rfl,
      isContinuation_ofNat (by omega) (by omega), ?_⟩
    simp only [List.forall_mem_cons, isContinuation_tail, List.not_mem_nil,
      false_imp_iff, implies_true, true_and]

/-- The bytes of characters. -/
def bytesOf (chars : List Char) : List UInt8 :=
  chars.flatMap String.utf8EncodeChar

theorem bytesOf_cons (c : Char) (rest : List Char) :
    bytesOf (c :: rest) = String.utf8EncodeChar c ++ bytesOf rest :=
  rfl

theorem bytesOf_append (first second : List Char) :
    bytesOf (first ++ second) = bytesOf first ++ bytesOf second :=
  List.flatMap_append

theorem bytesOf_charOf {byte : UInt8} (ascii : byte < 0x80) : bytesOf [charOf byte] = [byte] := by
  rw [bytesOf, List.flatMap_singleton, encode_charOf ascii]

theorem encode_ofList (chars : List Char) : encode (String.ofList chars) = bytesOf chars := by
  rw [encode_eq, String.toList_ofList]
  rfl

/-- The place between these bytes is one between two characters. -/
def Boundary (chars : List Char) (before after : List UInt8) : Prop :=
  ∃ front back, chars = front ++ back ∧ before = bytesOf front ∧ after = bytesOf back

/-- **Before a byte that does not go on with a character, none is cut in two.** -/
theorem boundary_before {chars : List Char} {before after : List UInt8}
    (whole : bytesOf chars = before ++ after)
    (starts : ∀ byte ∈ after.head?, isContinuation byte = false) : Boundary chars before after := by
  induction chars generalizing before with
  | nil =>
    obtain ⟨rfl, rfl⟩ := List.append_eq_nil_iff.mp whole.symm
    exact ⟨[], [], rfl, rfl, rfl⟩
  | cons c rest ih =>
    obtain ⟨first, others, bytes, isFirst, goOn⟩ := encodeChar_eq c
    rw [bytesOf_cons] at whole
    rcases List.append_eq_append_iff.mp whole with ⟨more, rfl, isRest⟩ | ⟨left, isChar, rfl⟩
    · obtain ⟨front, back, rfl, rfl, rfl⟩ := ih isRest
      exact ⟨c :: front, back, rfl, (bytesOf_cons c front).symm, rfl⟩
    · cases before with
      | nil => exact ⟨[], c :: rest, rfl, rfl, whole.symm⟩
      | cons byte before =>
        -- what is left of the character would go on with it
        cases left with
        | nil => exact ⟨[c], rest, rfl, by simpa [bytesOf] using isChar.symm, rfl⟩
        | cons next left =>
          rw [bytes, List.cons_append, List.cons.injEq] at isChar
          have continues := goOn next (by simp [isChar.2])
          rw [starts next rfl] at continues
          cases continues

/-- **After a byte in ASCII, none is cut in two.** -/
theorem boundary_after {chars : List Char} {before after : List UInt8} {stop : UInt8}
    (ascii : stop < 0x80) (whole : bytesOf chars = before ++ stop :: after) :
    Boundary chars (before ++ [stop]) after := by
  obtain ⟨front, back, rfl, rfl, isAfter⟩ := boundary_before whole (by
    rintro byte ⟨⟩
    exact isContinuation_ascii ascii)
  cases back with
  | nil => cases isAfter
  | cons c back =>
    -- the byte is a character of its own
    obtain ⟨first, others, bytes, -, -⟩ := encodeChar_eq c
    have isStop : stop :: after = first :: (others ++ bytesOf back) := by
      rw [isAfter, bytesOf_cons, bytes, List.cons_append]
    obtain ⟨rfl, isRest⟩ := List.cons.inj isStop
    obtain rfl : c = charOf stop := mem_encodeChar ascii (by rw [bytes]; exact List.mem_cons_self)
    have single := bytes.symm.trans (encode_charOf ascii)
    obtain ⟨-, rfl⟩ := List.cons.inj single
    refine ⟨front ++ [charOf stop], back, (List.append_cons ..), ?_, isRest⟩
    rw [bytesOf_append, bytesOf_charOf ascii]

end Utf8

/-! ### Where pieces end -/

theorem ascii_of_blank {byte : UInt8} (isBlank : isBlank byte = true) : byte < 0x80 := by
  unfold Lox.isBlank Byte.newline at isBlank
  grind

namespace Piece

/-- A stray character takes along all bytes that go on with it. -/
theorem Longest.after_stray {piece : Piece} {source after : List UInt8}
    (longest : piece.Longest source after) (isStray : piece.shape = .stray) :
    ∀ byte ∈ after.head?, Utf8.isContinuation byte = false := by
  obtain ⟨shape, bytes⟩ := piece
  obtain ⟨whole, fits, longest⟩ := longest
  dsimp only at isStray whole fits longest
  subst isStray
  cases fits with
  | @stray first body _ nothing all =>
    intro byte isNext
    obtain ⟨others, rfl⟩ := List.head?_eq_some_iff.mp isNext
    by_contra continues
    have allMore : ∀ other ∈ body ++ [byte], Utf8.isContinuation other = true := by
      simpa [or_imp, forall_and] using ⟨all, Bool.not_eq_false _ ▸ continues⟩
    have longer := longest .stray (first :: (body ++ [byte])) others (by rw [whole]; simp)
      (.stray nothing allMore)
    simp only [List.length_cons, List.length_append, List.length_nil] at longer
    omega

/-- The piece ends with a byte in ASCII, or the bytes after it start with one that
goes on with no character. -/
def EndsApart (piece : Piece) (after : List UInt8) : Prop :=
  (∃ before stop, piece.bytes = before ++ [stop] ∧ stop < 0x80) ∨
    ∀ byte ∈ after.head?, Utf8.isContinuation byte = false

theorem endsApart_of_ascii {piece : Piece} {after : List UInt8} (some : piece.bytes ≠ [])
    (ascii : ∀ byte ∈ piece.bytes, byte < 0x80) : piece.EndsApart after :=
  .inl ⟨piece.bytes.dropLast, piece.bytes.getLast some, (List.dropLast_append_getLast some).symm,
    ascii _ (List.getLast_mem some)⟩

/-- **No piece ends inside a character.** -/
theorem Longest.endsApart {piece : Piece} {source after : List UInt8}
    (longest : piece.Longest source after) :
    piece.EndsApart after := by
  obtain ⟨shape, bytes⟩ := piece
  have fits := longest.fits
  dsimp only at fits
  cases fits with
  | @blank byte _ isBlank =>
    exact endsApart_of_ascii (by simp) (List.forall_mem_singleton.mpr (ascii_of_blank isBlank))
  | symbol | whole | fraction
  | word => exact endsApart_of_ascii longest.fits.ne_nil (longest.fits.ascii rfl nofun)
  | @string body => exact .inl ⟨Byte.quote :: body, Byte.quote, rfl, by decide⟩
  | openString => exact .inr nofun
  | stray => exact .inr (longest.after_stray rfl)
  | comment =>
    refine .inr fun byte isNext => ?_
    rw [(longest.before_newline rfl).2 byte isNext]
    decide

theorem Longest.boundary {piece : Piece} {chars : List Char} {after : List UInt8}
    (longest : piece.Longest (Utf8.bytesOf chars) after) :
    Utf8.Boundary chars piece.bytes after := by
  rcases longest.endsApart with ⟨before, stop, isBytes, ascii⟩ | starts
  · have whole := longest.whole
    rw [isBytes, List.append_assoc] at whole
    rw [isBytes]
    exact Utf8.boundary_after ascii whole
  · exact Utf8.boundary_before longest.whole starts

end Piece

/-! ### Excerpts -/

/-- A piece of a text, as characters. -/
structure Excerpt where
  shape : Shape
  text : String

namespace Excerpt

/-- The bytes of an excerpt. -/
def piece (excerpt : Excerpt) : Piece :=
  ⟨excerpt.shape, Utf8.encode excerpt.text⟩

/-- The excerpt is no part of a token, a string or a comment. -/
def isOutside (excerpt : Excerpt) : Bool :=
  excerpt.shape == .blank || excerpt.shape == .stray

theorem text_piece (excerpt : Excerpt) : excerpt.piece.text = excerpt.text :=
  Utf8.decodeLossy_encode excerpt.text

end Excerpt

/-- **A text of characters is cut into texts of characters.** -/
theorem Cuts.exists_excerpts {source : List UInt8} {parts : List Piece} (cuts : Cuts source parts)
    {chars : List Char} (isSource : source = Utf8.bytesOf chars) :
    ∃ excerpts : List Excerpt, (excerpts.flatMap fun excerpt => excerpt.text.toList) = chars ∧
      excerpts.map Excerpt.piece = parts := by
  induction cuts generalizing chars with
  | nil =>
    cases chars with
    | nil => exact ⟨[], rfl, rfl⟩
    | cons c rest =>
      obtain ⟨first, others, bytes, -⟩ := Utf8.encodeChar_eq c
      rw [Utf8.bytesOf_cons, bytes] at isSource
      cases isSource
  | @cons piece source after others longest _ ih =>
    subst isSource
    obtain ⟨front, back, rfl, isFront, isBack⟩ := longest.boundary
    obtain ⟨excerpts, rfl, rfl⟩ := ih isBack
    refine ⟨⟨piece.shape, String.ofList front⟩ :: excerpts, ?_, ?_⟩
    · rw [List.flatMap_cons, String.toList_ofList]
    · rw [List.map_cons, Excerpt.piece, Utf8.encode_ofList, ← isFront]

/-! ### What items say -/

/-- A token says what is written there, and a string what is written between its quotes. An
unexpected character is the one that is written there. -/
def Excerpt.Says (excerpt : Excerpt) : Item → Prop
  | .token token => token.lexeme = excerpt.text ∧
      ∀ contents, token.kind = .string contents → excerpt.text = "\"" ++ contents ++ "\""
  | .diagnostic diagnostic => ∀ name, diagnostic.defect = .unexpectedCharacter name →
      name = excerpt.text ∧ ∃ c, excerpt.text = String.singleton c

/-- What is written as a string is its contents between quotes. -/
theorem decodeLossy_string (body : List UInt8) :
    Utf8.decodeLossy (Byte.quote :: body ++ [Byte.quote]) =
      "\"" ++ Utf8.decodeLossy body ++ "\"" := by
  have ascii : Byte.quote < 0x80 := by decide
  rw [List.cons_append, Utf8.decodeLossy_cons ascii, Utf8.decodeLossy_before ascii,
    String.append_assoc]
  rfl

/-- A stray piece of a text of characters is one of them. -/
theorem Piece.Fits.stray_eq {chars : List Char} {after : List UInt8}
    (fits : Fits .stray (Utf8.bytesOf chars) after) :
    ∃ c first others, chars = [c] ∧ String.utf8EncodeChar c = first :: others ∧
      StartsNothing first := by
  generalize isBytes : Utf8.bytesOf chars = bytes at fits
  cases fits with
  | @stray first body _ nothing all =>
    cases chars with
    | nil => cases isBytes
    | cons c rest =>
      obtain ⟨byte, others, bytes, -⟩ := Utf8.encodeChar_eq c
      rw [Utf8.bytesOf_cons, bytes, List.cons_append, List.cons.injEq] at isBytes
      obtain ⟨rfl, rfl⟩ := isBytes
      refine ⟨c, byte, others, ?_, bytes, nothing⟩
      cases rest with
      | nil => rfl
      | cons d rest =>
        -- a second character would not start with a byte that goes on with the first
        obtain ⟨start, more, bytesMore, isStart, -⟩ := Utf8.encodeChar_eq d
        have goesOn := all start (by simp [Utf8.bytesOf_cons, bytesMore])
        rw [isStart] at goesOn
        cases goesOn

namespace Excerpt

variable {excerpt : Excerpt} {after : List UInt8}

/-- A stray excerpt is one character. -/
theorem stray_eq (fits : Piece.Fits excerpt.shape excerpt.piece.bytes after)
    (isStray : excerpt.shape = .stray) :
    ∃ c first others, excerpt.text = String.singleton c ∧
      String.utf8EncodeChar c = first :: others ∧
      StartsNothing first := by
  have isBytes : excerpt.piece.bytes = Utf8.bytesOf excerpt.text.toList := by
    rw [← Utf8.encode_ofList, String.ofList_toList, piece]
  rw [isStray, isBytes] at fits
  obtain ⟨c, first, others, isText, bytes, nothing⟩ := fits.stray_eq
  exact ⟨c, first, others, String.toList_injective (by rw [isText, String.toList_singleton]),
    bytes, nothing⟩

theorem says_of_yields {item : Item} (fits : Piece.Fits excerpt.shape excerpt.piece.bytes after)
    (yields : excerpt.piece.Yields item) : excerpt.Says item := by
  have isText := excerpt.text_piece
  have isShape : excerpt.piece.shape = excerpt.shape := rfl
  have single := stray_eq fits
  generalize excerpt.piece = piece at yields isText isShape
  cases yields with
  | string =>
    refine ⟨isText, fun contents isString => ?_⟩
    cases isString
    rw [← isText, Piece.text, decodeLossy_string]
  | stray =>
    rintro name ⟨⟩
    obtain ⟨c, -, -, isSingle, -⟩ := single isShape.symm
    exact ⟨isText, c, isSingle⟩
  | openString =>
    intro name isName
    cases isName
  | symbol | number | keyword | identifier =>
    refine ⟨isText, fun contents isString => ?_⟩
    cases isString

end Excerpt

/-! ### Unexpected characters -/

/-- A space, a tab, or the end of a line. -/
def isBlankChar (c : Char) : Bool :=
  " \r\t\n".toList.contains c

/-- The characters of symbols, and those other than ASCII letters and digits that
start a string or a word. -/
def signs : List Char :=
  "()\x7b\x7d,.-+;/*?:!=><\"_".toList

/-- A character that tokens start with. -/
def startsToken (c : Char) : Bool :=
  c.isDigit || c.isAlpha || signs.contains c

/-- What is said about an unexpected character. -/
def Item.unexpected? : Item → Option String
  | .diagnostic ⟨_, _, .unexpectedCharacter name⟩ => some (Defect.unexpectedCharacter name).message
  | _ => none

/-- Characters of tokens and blanks are in ASCII. -/
theorem ascii_of_known {c : Char} (known : (isBlankChar c || startsToken c) = true) :
    ∃ byte, byte < 0x80 ∧ c = Utf8.charOf byte := by
  have blanks : " \r\t\n".toList.all (fun c => c.val < 0x80) = true := by decide +kernel
  have others : signs.all (fun c => c.val < 0x80) = true := by decide +kernel
  have low : c.val < 0x80 := by
    simp only [isBlankChar, startsToken, Bool.or_eq_true, List.contains_iff_mem] at known
    rcases known with isBlank | (isDigit | isAlpha) | isSign
    · exact of_decide_eq_true (List.all_eq_true.mp blanks c isBlank)
    · unfold Char.isDigit at isDigit
      grind
    · unfold Char.isAlpha Char.isUpper Char.isLower at isAlpha
      grind
    · exact of_decide_eq_true (List.all_eq_true.mp others c isSign)
  have isCode : c.val.toNat < 0x80 := UInt32.lt_iff_toNat_lt.mp low
  have isByte : (UInt8.ofNat c.val.toNat).toNat = c.val.toNat :=
    UInt8.toNat_ofNat_of_lt' (Nat.lt_trans isCode (by decide))
  refine ⟨UInt8.ofNat c.val.toNat, ?_, ?_⟩
  · rw [UInt8.lt_iff_toNat_lt, isByte]
    exact isCode
  · rw [Utf8.charOf, isByte]
    exact (Char.ofNat_toNat c).symm

theorem known_charOf (byte : UInt8) :
    (isBlankChar (Utf8.charOf byte) || startsToken (Utf8.charOf byte)) =
      (isBlank byte || byte == Byte.quote || isDigitByte byte || isWordStart byte ||
        (Symbol.ofByte? byte).isSome) := by
  revert byte
  exact Byte.forall_of_fin (by decide +kernel)

/-- A character is neither blank nor starts a token if no piece but a stray character
starts with its first byte. -/
theorem unknown_of_startsNothing {c : Char} {first : UInt8} {others : List UInt8}
    (bytes : String.utf8EncodeChar c = first :: others) (nothing : StartsNothing first) :
    (isBlankChar c || startsToken c) = false := by
  by_contra known
  obtain ⟨byte, ascii, rfl⟩ := ascii_of_known (Bool.not_eq_false _ ▸ known)
  rw [Utf8.encode_charOf ascii] at bytes
  obtain ⟨rfl, -⟩ := List.cons.inj bytes
  have noSymbol : Symbol.ofByte? byte = none := by
    refine Option.eq_none_iff_forall_ne_some.mpr fun symbol found => ?_
    exact nothing.symbol symbol (by rw [(Symbol.of_ofByte? found).1]; rfl)
  rw [known_charOf, nothing.blank, nothing.digit, nothing.word, noSymbol] at known
  simp [nothing.quote] at known

/-- A character that is neither blank nor starts a token. -/
def isUnexpected (c : Char) : Bool :=
  !(isBlankChar c || startsToken c)

namespace Excerpt

variable {excerpt : Excerpt} {after : List UInt8}

/-- A blank excerpt is one blank character. -/
theorem blank_eq (fits : Piece.Fits excerpt.shape excerpt.piece.bytes after)
    (isBlank : excerpt.shape = .blank) :
    excerpt.text.toList.filter isUnexpected = [] := by
  have isText := excerpt.text_piece
  rw [isBlank] at fits
  generalize excerpt.piece = piece at fits isText
  obtain ⟨shape, bytes⟩ := piece
  dsimp only at fits
  cases fits with
  | @blank byte _ blankByte =>
    have ascii : ∀ other ∈ [byte], other < 0x80 :=
      List.forall_mem_singleton.mpr (ascii_of_blank blankByte)
    have known : (isBlankChar (Utf8.charOf byte) || startsToken (Utf8.charOf byte)) = true := by
      rw [known_charOf, blankByte]
      simp only [Bool.true_or]
    rw [← isText, Piece.text, Utf8.decodeLossy_ascii ascii, String.toList_ofList]
    simp [isUnexpected, known]

/-- An excerpt is reported exactly if it is a stray character. -/
theorem unexpected_item? (fits : Piece.Fits excerpt.shape excerpt.piece.bytes after) (line : Nat) :
    (excerpt.piece.item? line).toList.filterMap Item.unexpected? =
      ((if excerpt.isOutside then excerpt.text.toList else []).filter isUnexpected).map fun c =>
        "Unexpected character: " ++ String.singleton c := by
  by_cases isStray : excerpt.shape = .stray
  · obtain ⟨c, first, others, isText, bytes, nothing⟩ := stray_eq fits isStray
    have isItem : excerpt.piece.item? line =
        some (.diagnostic ⟨line, .characters, .unexpectedCharacter (String.singleton c)⟩) := by
      rw [← isText, ← excerpt.text_piece, Piece.item?, show excerpt.piece.shape =
        .stray from isStray]
    have outside : excerpt.isOutside = true := by simp [isOutside, isStray]
    have unexpected : isUnexpected c = true := by
      rw [isUnexpected, unknown_of_startsNothing bytes nothing]; rfl
    rw [isItem, if_pos outside, isText, String.toList_singleton, List.filter_cons_of_pos unexpected]
    rfl
  by_cases isBlank : excerpt.shape = .blank
  · have isItem : excerpt.piece.item? line = none := by
      rw [Piece.item?, show excerpt.piece.shape = .blank from isBlank]
    rw [isItem, if_pos (by simp [isOutside, isBlank]), blank_eq fits isBlank]
    rfl
  · have inside : ¬excerpt.isOutside = true := by simp [isOutside, isStray, isBlank]
    rw [if_neg inside]
    unfold Piece.item?
    cases shape : excerpt.piece.shape with
    | blank => exact absurd shape isBlank
    | stray => exact absurd shape isStray
    | word => dsimp only; split <;> rfl
    | comment | symbol | number | string | openString => rfl

end Excerpt

/-- The characters that are reported are those outside of tokens, strings and comments that are
neither blank nor start a token. -/
theorem unexpected_itemsOf {excerpts : List Excerpt}
    (fits : ∀ excerpt ∈ excerpts, ∃ after, Piece.Fits excerpt.shape excerpt.piece.bytes after)
    (line : Nat) :
    (itemsOf line (excerpts.map Excerpt.piece)).filterMap Item.unexpected? =
      (((excerpts.filter Excerpt.isOutside).flatMap fun excerpt => excerpt.text.toList).filter
        isUnexpected).map fun c => "Unexpected character: " ++ String.singleton c := by
  induction excerpts generalizing line with
  | nil => rfl
  | cons excerpt rest ih =>
    obtain ⟨⟨after, fitsFirst⟩, fitsRest⟩ := List.forall_mem_cons.mp fits
    rw [List.map_cons, itemsOf, List.filterMap_append, ih fitsRest,
      Excerpt.unexpected_item? fitsFirst, ← List.map_append, ← List.filter_append, List.filter_cons]
    split <;> rfl

/-- **On a text of characters, scanning is exact.** The text is cut into excerpts, each the
longest piece in its place. A scanner hands out an item for each that is neither blank nor a
comment, and the end token after them. The lexeme of a token is the excerpt, and the contents of
a string are what stands between its quotes. The characters that are reported as unexpected are,
one by one and in this order, those outside of tokens, strings and comments that are neither
blank nor start a token. -/
theorem scans_whole_characters (text : String) :
    ∃ (excerpts : List Excerpt) (yielded : List Item) (line : Nat),
      (excerpts.flatMap fun excerpt => excerpt.text.toList) = text.toList ∧
      Cuts (Utf8.encode text) (excerpts.map Excerpt.piece) ∧
      Scanner.HandsOut (Utf8.encode text) (yielded ++ [.token (.finish line)]) ∧
      List.Forall₂ (fun excerpt item => excerpt.piece.Yields item ∧ excerpt.Says item)
        (excerpts.filter fun excerpt => excerpt.piece.isSolid) yielded ∧
      yielded.filterMap Item.unexpected? =
        (((excerpts.filter Excerpt.isOutside).flatMap fun excerpt => excerpt.text.toList).filter
          isUnexpected).map fun c => "Unexpected character: " ++ String.singleton c := by
  have cuts : Cuts (Utf8.encode text) (pieces (Utf8.encode text)) := cuts_iff.mpr rfl
  obtain ⟨excerpts, isText, isCut⟩ := cuts.exists_excerpts (encode_eq text)
  have fits : ∀ excerpt ∈ excerpts, ∃ after, Piece.Fits excerpt.shape excerpt.piece.bytes after :=
    fun excerpt isOne => cuts.fits (isCut ▸ List.mem_map_of_mem isOne)
  have whole : items (Utf8.encode text) =
      itemsOf 1 (excerpts.map Excerpt.piece) ++
        [.token (.finish (1 + lineEndsOf (pieces (Utf8.encode text))))] := by
    rw [items, itemsFrom_eq, isCut]
  have yields := cuts.yields 1
  rw [← isCut, List.filter_map, List.forall₂_map_left_iff] at yields
  refine ⟨excerpts, _, _, isText, isCut ▸ cuts, whole ▸ Scanner.handsOut_items _, ?_,
    unexpected_itemsOf fits 1⟩
  have fitting := (List.forall₂_and_left _ _).mpr
    ⟨fun excerpt isOne => fits excerpt (List.mem_of_mem_filter isOne), yields⟩
  refine fitting.imp ?_
  rintro excerpt item ⟨⟨after, fits⟩, yields⟩
  exact ⟨yields, Excerpt.says_of_yields fits yields⟩

end Lox
