/-
**The lexemes of tokens, joined by spaces, are scanned as the same tokens.**

* `Shape.isToken`, `Token.content` — which pieces are tokens, and what a token is apart from its
  line.
* `Piece.rewritten` — a piece as its text is encoded. It fits the same rule and has the same content
  (`fits_rewritten`, `content?_rewritten`), though what was ill formed in a string no longer is.
* `cut_apart` — a piece that is a token is cut off whole before blank space, and at the end of a
  text.
* `pieces_joined` — the pieces of joined texts are the pieces themselves, with a space between them.
* `joined_lexemes_scan_alike` — so scanning undoes joining.
-/

import Lox.Proofs.Text.Decoding

namespace Lox

/-! ### What a token is, apart from its line -/

/-- A piece of this shape is a token. -/
def Shape.isToken : Shape → Bool
  | .symbol _ => true
  | .number => true
  | .word => true
  | .string => true
  | _ => false

/-- The kind of a token, with the contents of a string and the value of a number, and its lexeme. -/
def Token.content (token : Token) : Kind × String :=
  (token.kind, token.lexeme)

/-- The content of the token that a piece is. -/
def Piece.content? (piece : Piece) : Option (Kind × String) :=
  ((piece.item? 0).bind Item.token?).map Token.content

namespace Piece

/-- The line does not matter to the content. -/
theorem content?_line (piece : Piece) (line : Nat) :
    ((piece.item? line).bind Item.token?).map Token.content = piece.content? := by
  have moved := piece.item?_below 0 line
  rw [Nat.zero_add] at moved
  rw [moved, content?]
  cases piece.item? 0 with
  | none => rfl
  | some item => cases item <;> rfl

/-- A piece has a content if it is a token, with its text as the lexeme. -/
theorem content?_snd (piece : Piece) :
    piece.content?.map Prod.snd = if piece.shape.isToken then some piece.text else none := by
  obtain ⟨shape, bytes⟩ := piece
  unfold content? item?
  cases shape with
  | word =>
    dsimp only
    cases Keyword.ofText? (text ⟨.word, bytes⟩) <;> rfl
  | _ => rfl

/-- A token is no diagnostic. -/
theorem no_diagnostic {piece : Piece} (isToken : piece.shape.isToken = true) (line : Nat) :
    (piece.item? line).bind Item.diagnostic? = none := by
  obtain ⟨shape, bytes⟩ := piece
  unfold item?
  cases shape with
  | word =>
    dsimp only
    cases Keyword.ofText? (text ⟨.word, bytes⟩) <;> rfl
  | openString | stray => cases isToken
  | _ => rfl

end Piece

theorem content_innerTokens (source : List UInt8) :
    (innerTokens source).map Token.content = (pieces source).filterMap Piece.content? := by
  unfold innerTokens
  generalize pieces source = parts, 1 = line
  induction parts generalizing line with
  | nil => rfl
  | cons piece rest ih =>
    rw [itemsOf, List.filterMap_append, List.map_append, ih, List.filterMap_cons,
      ← piece.content?_line (line + piece.lineEnds)]
    cases piece.item? (line + piece.lineEnds) with
    | none => rfl
    | some item => cases item <;> rfl

/-- The pieces of a text that are tokens. -/
def tokenPieces (source : List UInt8) : List Piece :=
  (pieces source).filter fun piece => piece.shape.isToken

theorem lexemes_innerTokens (source : List UInt8) :
    (innerTokens source).map Token.lexeme = (tokenPieces source).map Piece.text := by
  have contents := congrArg (List.map Prod.snd) (content_innerTokens source)
  rw [List.map_map, List.map_filterMap] at contents
  refine contents.trans ?_
  rw [tokenPieces, ← List.filterMap_eq_filter, List.map_filterMap]
  refine List.filterMap_congr fun piece _ => ?_
  rw [piece.content?_snd, Option.guard]
  split <;> rfl

/-- Pieces that are no tokens have no content. -/
theorem content_tokenPieces (source : List UInt8) :
    (tokenPieces source).filterMap Piece.content? = (pieces source).filterMap Piece.content? := by
  unfold tokenPieces
  rw [List.filterMap_filter]
  refine List.filterMap_congr fun piece _ => ?_
  have lexeme := piece.content?_snd
  split
  · rfl
  · rename_i noToken
    rw [if_neg noToken, Option.map_eq_none_iff] at lexeme
    exact lexeme.symm

/-- Where all pieces are tokens or blank, nothing is wrong with the characters. -/
theorem diagnosticsOf_eq_nil {source : List UInt8}
    (each : ∀ piece ∈ pieces source, piece.shape.isToken = true ∨ piece.shape = .blank) :
    diagnosticsOf source = [] := by
  rw [diagnosticsOf, items, itemsFrom_eq, List.filterMap_append]
  revert each
  generalize pieces source = parts, 1 = line
  intro each
  refine List.append_eq_nil_iff.mpr ⟨?_, rfl⟩
  induction parts generalizing line with
  | nil => rfl
  | cons piece rest ih =>
    have clean : (piece.item? (line + piece.lineEnds)).bind Item.diagnostic? = none := by
      rcases each piece List.mem_cons_self with isToken | isBlank
      · exact Piece.no_diagnostic isToken _
      · rw [Piece.item?, isBlank]
        rfl
    rw [itemsOf, List.filterMap_append,
      ih _ fun piece inRest => each piece (List.mem_cons_of_mem _ inRest), List.append_nil]
    cases isItem : piece.item? (line + piece.lineEnds) with
    | none => rfl
    | some item =>
      rw [isItem, Option.bind_some] at clean
      exact List.filterMap_cons_none clean

/-! ### A piece as its text is encoded -/

namespace Utf8

theorem encode_charOf {byte : UInt8} (ascii : byte < 0x80) :
    String.utf8EncodeChar (charOf byte) = [byte] := by
  have isByte : (charOf byte).val.toNat = byte.toNat := toNat_charOf byte
  unfold String.utf8EncodeChar
  dsimp only
  rw [isByte, if_pos (Nat.le_of_lt_succ (UInt8.lt_iff_toNat_lt.mp ascii)), UInt8.ofNat_toNat]

/-- What is in ASCII is encoded as it was. -/
theorem encode_decodeLossy_ascii {bytes : List UInt8} (ascii : ∀ byte ∈ bytes, byte < 0x80) :
    encode (decodeLossy bytes) = bytes := by
  rw [decodeLossy_ascii ascii, encode_eq, String.toList_ofList]
  induction bytes with
  | nil => rfl
  | cons byte rest ih =>
    rw [List.map_cons, List.flatMap_cons, encode_charOf (ascii byte List.mem_cons_self),
      ih fun other inRest => ascii other (List.mem_cons_of_mem _ inRest), List.singleton_append]

end Utf8

namespace Piece

/-- The piece as its text is encoded. -/
def rewritten (piece : Piece) : Piece :=
  ⟨piece.shape, Utf8.encode piece.text⟩

theorem rewritten_ascii {piece : Piece} (ascii : ∀ byte ∈ piece.bytes, byte < 0x80) :
    piece.rewritten = piece := by
  unfold rewritten text
  rw [Utf8.encode_decodeLossy_ascii ascii]

theorem text_rewritten (piece : Piece) : piece.rewritten.text = piece.text :=
  Utf8.decodeLossy_encode piece.text

/-- The bytes of a string, once its text is encoded. -/
theorem rewritten_string (body : List UInt8) :
    rewritten ⟨.string, Byte.quote :: body ++ [Byte.quote]⟩ =
      ⟨.string, Byte.quote :: Utf8.encode (Utf8.decodeLossy body) ++ [Byte.quote]⟩ := by
  have ascii : Byte.quote < 0x80 := by decide
  have closing : Utf8.encode (Utf8.decodeLossy [Byte.quote]) = [Byte.quote] :=
    Utf8.encode_decodeLossy_ascii (List.forall_mem_singleton.mpr ascii)
  have opening : Utf8.encode (String.singleton (Utf8.charOf Byte.quote)) = [Byte.quote] := by
    rw [encode_eq, String.toList_singleton, List.flatMap_singleton, Utf8.encode_charOf ascii]
  unfold rewritten text
  rw [List.cons_append, Utf8.decodeLossy_cons ascii, Utf8.decodeLossy_before ascii,
    encode_append, encode_append, opening, closing]
  rfl

/-- The bytes of a token that is no string are in ASCII. -/
theorem Fits.ascii {shape : Shape} {bytes after : List UInt8} (fits : Fits shape bytes after)
    (isToken : shape.isToken = true) (noString : shape ≠ .string) :
    ∀ byte ∈ bytes, byte < 0x80 := by
  intro byte isOne
  cases fits with
  | @symbol symbol =>
    have all : symbol.bytes.all (fun byte => byte < 0x80) = true := by cases symbol <;> rfl
    exact of_decide_eq_true (List.all_eq_true.mp all byte isOne)
  | whole isDigits => exact ascii_of_digit (isDigits.2 byte isOne)
  | fraction isDigits isDecimals =>
    rcases List.mem_append.mp isOne with isDigit | isRest
    · exact ascii_of_digit (isDigits.2 byte isDigit)
    rcases List.mem_cons.mp isRest with rfl | isDecimal
    · decide
    · exact ascii_of_digit (isDecimals.2 byte isDecimal)
  | word isWord all =>
    rcases List.mem_cons.mp isOne with rfl | inBody
    · exact ascii_of_word byte (by rw [isWordByte, isWord, Bool.true_or])
    · exact ascii_of_word byte (all byte inBody)
  | string => exact absurd rfl noString
  | blank | comment | openString | stray => cases isToken

/-- What follows a token does not matter to its rule. -/
theorem Fits.before {shape : Shape} {bytes after : List UInt8} (fits : Fits shape bytes after)
    (isToken : shape.isToken = true) (other : List UInt8) : Fits shape bytes other := by
  cases fits with
  | symbol => exact .symbol
  | whole isDigits => exact .whole isDigits
  | fraction isDigits isDecimals => exact .fraction isDigits isDecimals
  | word isWord all => exact .word isWord all
  | string noQuote => exact .string noQuote
  | blank | comment | openString | stray => cases isToken

section

variable {piece : Piece} {after : List UInt8} (fits : Fits piece.shape piece.bytes after)
  (isToken : piece.shape.isToken = true)

include fits isToken

/-- A string has quotes at both ends and none in between, and other tokens are in ASCII. -/
theorem string_or_ascii :
    (∃ body, piece = ⟨.string, Byte.quote :: body ++ [Byte.quote]⟩ ∧ Byte.quote ∉ body) ∨
      piece.rewritten = piece := by
  by_cases isString : piece.shape = .string
  · obtain ⟨shape, bytes⟩ := piece
    dsimp only at isString fits
    subst isString
    cases fits with
    | @string body _ noQuote => exact .inl ⟨body, rfl, noQuote⟩
  · exact .inr (rewritten_ascii (fits.ascii isToken isString))

/-- **A token that is written anew fits the rule that it was read by.** -/
theorem fits_rewritten (other : List UInt8) : Fits piece.shape piece.rewritten.bytes other := by
  rcases string_or_ascii fits isToken with ⟨body, rfl, noQuote⟩ | same
  · rw [rewritten_string]
    exact .string (Utf8.notMem_encode (by decide) (Utf8.quote_notMem_decodeLossy noQuote))
  · rw [same]
    exact fits.before isToken other

/-- **A token that is written anew has the same content.** -/
theorem content?_rewritten : piece.rewritten.content? = piece.content? := by
  rcases string_or_ascii fits isToken with ⟨body, rfl, -⟩ | same
  · have string : ∀ body, content? ⟨.string, Byte.quote :: body ++ [Byte.quote]⟩ =
        some (.string (Utf8.decodeLossy body),
          text ⟨.string, Byte.quote :: body ++ [Byte.quote]⟩) := by
      intro body
      rw [← contents_string]
      rfl
    have sameText := text_rewritten ⟨.string, Byte.quote :: body ++ [Byte.quote]⟩
    rw [rewritten_string] at sameText ⊢
    rw [string, string, sameText, Utf8.decodeLossy_encode]
  · rw [same]

end

/-! ### Tokens before blank space -/

/-- Blank space starts here, or the text ends. -/
def Apart (after : List UInt8) : Prop :=
  ∀ byte ∈ after.head?, isBlank byte = true

theorem blank_stops : ∀ byte, isBlank byte = true →
    isDigitByte byte = false ∧ isWordByte byte = false ∧ (byte == Byte.dot) = false ∧
      (byte == Byte.equals) = false ∧ (byte == Byte.slash) = false := by
  intro byte blank
  rw [isBlank, Bool.or_eq_true, Bool.or_eq_true, Bool.or_eq_true, beq_iff_eq,
    beq_iff_eq, beq_iff_eq, beq_iff_eq] at blank
  obtain ((rfl | rfl) | rfl) | rfl := blank <;> decide

section

variable {after : List UInt8} (apart : Apart after)

include apart

/-- A run of bytes that blank space ends is taken whole. -/
theorem takeWhile_apart {test : UInt8 → Bool}
    (stops : ∀ byte, isBlank byte = true → test byte = false) {body : List UInt8}
    (all : ∀ byte ∈ body, test byte = true) :
    (body ++ after).takeWhile test = body ∧ (body ++ after).dropWhile test = after := by
  rw [takeWhile_over all, dropWhile_over all]
  cases after with
  | nil => exact ⟨List.append_nil _, rfl⟩
  | cons byte rest =>
    have stop : ¬test byte = true := by
      rw [stops byte (apart byte rfl)]
      exact Bool.false_ne_true
    rw [List.takeWhile_cons_of_neg stop, List.dropWhile_cons_of_neg stop]
    exact ⟨List.append_nil _, rfl⟩

theorem cutNumber_apart {first : UInt8} {digits : List UInt8}
    (all : ∀ byte ∈ digits, isDigitByte byte = true) :
    cutNumber first (digits ++ after) = (⟨.number, first :: digits⟩, after) := by
  obtain ⟨taken, left⟩ := takeWhile_apart apart (fun byte blank => (blank_stops byte blank).1) all
  rw [cutNumber, taken, left]
  rcases after with _ | ⟨byte, _ | ⟨next, others⟩⟩
  · rfl
  · rfl
  · have noPoint := (blank_stops byte (apart byte rfl)).2.2.1
    simp only [noPoint, Bool.false_and, Bool.false_eq_true, if_false]

theorem cutNumber_fraction_apart {first : UInt8} {digits decimals : List UInt8}
    (all : ∀ byte ∈ digits, isDigitByte byte = true) (isDecimals : IsDigits decimals) :
    cutNumber first (digits ++ Byte.dot :: decimals ++ after) =
      (⟨.number, first :: digits ++ Byte.dot :: decimals⟩, after) := by
  obtain ⟨someDecimal, allDecimals⟩ := isDecimals
  obtain ⟨decimal, others, rfl⟩ := List.exists_cons_of_ne_nil someDecimal
  have isDecimal := allDecimals decimal List.mem_cons_self
  have point : ¬isDigitByte Byte.dot = true := by decide
  obtain ⟨taken, left⟩ := takeWhile_apart apart (fun byte blank => (blank_stops byte blank).1)
    fun byte isOne => allDecimals byte (List.mem_cons_of_mem _ isOne)
  rw [cutNumber, List.append_assoc, takeWhile_over all, dropWhile_over all,
    List.cons_append, List.cons_append, List.takeWhile_cons_of_neg point,
    List.dropWhile_cons_of_neg point]
  dsimp only
  rw [isDecimal, if_pos (by rfl), taken, left, List.append_nil]

theorem cutSymbol_apart {symbol : Symbol} {byte : UInt8}
    (found : Symbol.ofByte? byte = some symbol) :
    cut byte after = (⟨.symbol symbol, [byte]⟩, after) := by
  have noComment : ¬(byte == Byte.slash && after.head? == some Byte.slash) = true := by
    cases after with
    | nil => simp
    | cons next others =>
      have noSlash := (blank_stops next (apart next rfl)).2.2.2.2
      simp [beq_eq_false_iff_ne.mp noSlash]
  rw [cut_symbol found noComment, cutSymbol.eq_def]
  cases after with
  | nil => cases symbol.withEqual? <;> rfl
  | cons next others =>
    have noEqual := (blank_stops next (apart next rfl)).2.2.2.1
    cases symbol.withEqual? with
    | none => rfl
    | some longer =>
      dsimp only
      rw [noEqual, if_neg Bool.false_ne_true]

/-- **A token is cut off whole before blank space, and at the end of a text.** -/
theorem cut_apart {shape : Shape} {first : UInt8} {body : List UInt8}
    (isToken : shape.isToken = true) (fits : Fits shape (first :: body) after) :
    cut first (body ++ after) = (⟨shape, first :: body⟩, after) := by
  generalize whole : first :: body = bytes at fits
  cases fits with
  | @symbol symbol =>
    rcases symbol.bytes_cases with ⟨byte, bytes, found⟩ | ⟨shorter, byte, bytes, found, longer⟩
    · rw [bytes] at whole ⊢
      obtain ⟨rfl, rfl⟩ := List.cons.inj whole
      exact cutSymbol_apart apart found
    · rw [bytes] at whole ⊢
      obtain ⟨rfl, rfl⟩ := List.cons.inj whole
      have noComment : ¬(first == Byte.slash && (Byte.equals :: after).head? == some Byte.slash) =
          true := by
        rw [show ((Byte.equals :: after).head? == some Byte.slash) = false from rfl, Bool.and_false]
        exact Bool.false_ne_true
      rw [List.singleton_append, cut_symbol found noComment, cutSymbol.eq_def, longer]
      rfl
  | whole isDigits =>
    obtain rfl := whole
    rw [cut_digit (isDigits.2 first List.mem_cons_self)]
    exact cutNumber_apart apart fun byte isOne => isDigits.2 byte (List.mem_cons_of_mem _ isOne)
  | fraction isDigits isDecimals =>
    obtain ⟨digit, digits, rfl⟩ := List.exists_cons_of_ne_nil isDigits.1
    obtain ⟨rfl, rfl⟩ := List.cons.inj whole
    rw [cut_digit (isDigits.2 first List.mem_cons_self)]
    exact cutNumber_fraction_apart apart
      (fun byte isOne => isDigits.2 byte (List.mem_cons_of_mem _ isOne)) isDecimals
  | word isWord all =>
    obtain ⟨rfl, rfl⟩ := List.cons.inj whole
    obtain ⟨taken, left⟩ :=
      takeWhile_apart apart (fun byte blank => (blank_stops byte blank).2.1) all
    rw [cut_word isWord, run, taken, left]
  | string noQuote =>
    obtain ⟨rfl, rfl⟩ := List.cons.inj whole
    rw [cut_quote]
    show cutString (_ ++ [Byte.quote] ++ after) = _
    rw [List.append_assoc]
    exact cutString_closed noQuote after
  | blank | comment | openString | stray => cases isToken

end

/-- A token that is written anew is the first piece, before blank space and at the end of a text. -/
theorem pieces_rewritten {piece : Piece} {before : List UInt8}
    (isToken : piece.shape.isToken = true) (fits : Fits piece.shape piece.bytes before)
    {after : List UInt8} (apart : Apart after) :
    pieces (piece.rewritten.bytes ++ after) = piece.rewritten :: pieces after := by
  have rewritten := fits_rewritten fits isToken after
  obtain ⟨first, body, bytes⟩ := List.exists_cons_of_ne_nil rewritten.ne_nil
  have whole : (⟨piece.shape, first :: body⟩ : Piece) = piece.rewritten := by
    rw [← bytes]
    rfl
  rw [bytes] at rewritten ⊢
  rw [List.cons_append, pieces_cons, cut_apart apart isToken rewritten, whole]

end Piece

/-! ### Joined texts -/

/-- The lexemes of tokens, with a space between any two of them. -/
def joined (tokens : List Token) : String :=
  " ".intercalate (tokens.map Token.lexeme)

/-- The piece that a space is. -/
def Piece.space : Piece :=
  ⟨.blank, Utf8.encode " "⟩

/-- **The pieces of joined texts are the pieces themselves**, with a space
between any two of them. -/
theorem pieces_joined {parts : List Piece}
    (each : ∀ piece ∈ parts, piece.shape.isToken = true ∧ ∃ after,
      Piece.Fits piece.shape piece.bytes after) :
    pieces (Utf8.encode (" ".intercalate (parts.map Piece.text))) =
      (parts.map Piece.rewritten).intersperse Piece.space := by
  induction parts with
  | nil => rfl
  | cons piece rest ih =>
    obtain ⟨isToken, before, fits⟩ := each piece List.mem_cons_self
    have others := ih fun other inRest => each other (List.mem_cons_of_mem _ inRest)
    cases rest with
    | nil =>
      have alone : pieces (Utf8.encode piece.text ++ []) = piece.rewritten :: pieces [] :=
        Piece.pieces_rewritten isToken fits nofun
      rw [List.append_nil] at alone
      rw [List.map_singleton, String.intercalate_singleton]
      exact alone
    | cons next rest =>
      have space : ∀ after, pieces (Utf8.encode " " ++ after) = .space :: pieces after :=
        fun after => pieces_cons 0x20 after
      rw [List.map_cons, List.map_cons, String.intercalate_cons_cons, encode_append, encode_append,
        List.append_assoc, ← List.map_cons]
      refine (Piece.pieces_rewritten isToken fits ?_).trans ?_
      · rintro byte isFirst
        obtain rfl := Option.some.inj isFirst
        rfl
      · rw [space, others]
        rfl

theorem mem_intersperse {parts : List Piece} {separator piece : Piece}
    (isOne : piece ∈ parts.intersperse separator) : piece = separator ∨ piece ∈ parts := by
  induction parts with
  | nil => exact .inr isOne
  | cons first rest ih =>
    cases rest with
    | nil => exact .inr isOne
    | cons next rest =>
      rw [List.intersperse_cons_cons, List.mem_cons, List.mem_cons] at isOne
      rcases isOne with rfl | isSeparator | inRest
      · exact .inr List.mem_cons_self
      · exact .inl isSeparator
      · exact (ih inRest).imp_right (List.mem_cons_of_mem _)

/-- A space between any two pieces has no content. -/
theorem content_intersperse (parts : List Piece) :
    (parts.intersperse Piece.space).filterMap Piece.content? = parts.filterMap Piece.content? := by
  have noContent : Piece.space.content? = none := rfl
  induction parts with
  | nil => rfl
  | cons piece rest ih =>
    cases rest with
    | nil => rfl
    | cons next rest =>
      rw [List.intersperse_cons_cons, List.filterMap_cons, List.filterMap_cons_none noContent, ih]
      exact List.filterMap_cons.symm

/-- The tokens of a text but for the end token are its inner tokens. -/
theorem filter_tokensOf (source : List UInt8) :
    ((tokensOf source).filter fun token => token.kind ≠ .eof) = innerTokens source := by
  have inner : ((innerTokens source).filter fun token => token.kind ≠ .eof) = innerTokens source :=
    List.filter_eq_self.mpr fun token isInner => decide_eq_true
      (innerTokens_ne_end source token isInner)
  have ends : ([(endToken source).1].filter fun token => token.kind ≠ .eof) = [] :=
    List.filter_eq_nil_iff.mpr fun token isEnd => by simp [List.mem_singleton.mp isEnd]
  rw [tokensOf_eq, List.filter_append, inner, ends, List.append_nil]

/-- What a text is cut into fits the rules. -/
theorem Cuts.fits {source : List UInt8} {parts : List Piece} (cuts : Cuts source parts)
    {piece : Piece} (isPiece : piece ∈ parts) :
    ∃ after, Piece.Fits piece.shape piece.bytes after := by
  induction cuts with
  | nil => cases isPiece
  | cons longest _ ih =>
    rcases List.mem_cons.mp isPiece with rfl | isOther
    · exact ⟨_, longest.fits⟩
    · exact ih isOther

/-- The pieces of a text that are tokens fit their rules. -/
theorem fits_of_tokenPieces {source : List UInt8} {piece : Piece}
    (isPiece : piece ∈ tokenPieces source) :
    piece.shape.isToken = true ∧ ∃ after, Piece.Fits piece.shape piece.bytes after := by
  obtain ⟨inText, isToken⟩ := List.mem_filter.mp isPiece
  exact ⟨isToken, (cuts_iff.mpr rfl).fits inText⟩

/-- **Scanning undoes joining.** Whatever bytes a text consists of, and whatever is wrong with
them: the lexemes of its tokens, joined by single spaces, are scanned without a diagnostic as
tokens with the same kinds, contents of strings, values of numbers and lexemes, in the same order,
and one end token after them. -/
theorem joined_lexemes_scan_alike (source : List UInt8) :
    let tokens := (tokensOf source).filter fun token => token.kind ≠ .eof
    diagnosticsOf (Utf8.encode (joined tokens)) = [] ∧
      (tokensOf (Utf8.encode (joined tokens))).map Token.content =
        tokens.map Token.content ++ [(.eof, "")] := by
  intro tokens
  rw [show tokens = innerTokens source from filter_tokensOf source]
  have parts : pieces (Utf8.encode (joined (innerTokens source))) =
      ((tokenPieces source).map Piece.rewritten).intersperse .space := by
    rw [joined, lexemes_innerTokens]
    exact pieces_joined fun piece => fits_of_tokenPieces
  constructor
  · refine diagnosticsOf_eq_nil fun piece isPiece => ?_
    rw [parts] at isPiece
    rcases mem_intersperse isPiece with isSpace | isRewritten
    · exact .inr (by rw [isSpace]; rfl)
    · obtain ⟨original, isOriginal, rfl⟩ := List.mem_map.mp isRewritten
      exact .inl (fits_of_tokenPieces isOriginal).1
  · have same : ((tokenPieces source).map Piece.rewritten).filterMap Piece.content? =
        (tokenPieces source).filterMap Piece.content? := by
      rw [List.filterMap_map]
      refine List.filterMap_congr fun piece isPiece => ?_
      obtain ⟨isToken, after, fits⟩ := fits_of_tokenPieces isPiece
      exact Piece.content?_rewritten fits isToken
    rw [tokensOf_eq, List.map_append, content_innerTokens, content_innerTokens,
      parts, content_intersperse, same, content_tokenPieces]
    rfl

end Lox
