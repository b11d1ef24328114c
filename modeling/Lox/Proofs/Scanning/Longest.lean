/-
**A source text is cut in exactly one way, each piece the longest that the rules allow.**

* `Piece.Fits` — the rules, one for each shape, without regard to how pieces are found: which bytes
  are a piece of the shape, given the bytes after them.
* `Piece.Longest` — a piece at the start of a text that fits, where no piece that
  fits there has more bytes.
* `Cuts` — a text is cut into consecutive pieces, each the longest at its start.
* `fits_cut`, `Fits.reaches_cut` — what `Piece.cut` finds fits, and whatever else fits there has
  fewer bytes. So it finds the longest piece, and there is only one (`longest_iff`).
* `cuts_iff` — `pieces` is the one way to cut a text.
-/

import Lox.Proofs.Scanning

namespace Lox

/-! ### The rules -/

/-- The text that a symbol is written as. -/
def Symbol.spelling : Symbol → String
  | .leftParen => "("
  | .rightParen => ")"
  | .leftBrace => "\x7b"
  | .rightBrace => "\x7d"
  | .comma => ","
  | .dot => "."
  | .minus => "-"
  | .plus => "+"
  | .semicolon => ";"
  | .slash => "/"
  | .star => "*"
  | .question => "?"
  | .colon => ":"
  | .bang => "!"
  | .bangEqual => "!="
  | .equal => "="
  | .equalEqual => "=="
  | .greater => ">"
  | .greaterEqual => ">="
  | .less => "<"
  | .lessEqual => "<="

/-- The bytes that a symbol is written as. -/
def Symbol.bytes (symbol : Symbol) : List UInt8 :=
  Utf8.encode symbol.spelling

/-- A digit or more. -/
def IsDigits (bytes : List UInt8) : Prop :=
  bytes ≠ [] ∧ ∀ byte ∈ bytes, isDigitByte byte = true

/-- No piece but a stray character starts with the byte. -/
structure StartsNothing (byte : UInt8) : Prop where
  blank : isBlank byte = false
  quote : byte ≠ Byte.quote
  digit : isDigitByte byte = false
  word : isWordStart byte = false
  symbol : ∀ symbol : Symbol, symbol.bytes.head? ≠ some byte

/-- The bytes are a piece of this shape by the rules, with these bytes after them. Only a string
that never ends cares about what comes after it. -/
inductive Piece.Fits : Shape → (bytes after : List UInt8) → Prop
  | blank {byte : UInt8} {after : List UInt8} : isBlank byte = true → Fits .blank [byte] after
  | comment {body after : List UInt8} :
      Byte.newline ∉ body → Fits .comment (Byte.slash :: Byte.slash :: body) after
  | symbol {symbol : Symbol} {after : List UInt8} : Fits (.symbol symbol) symbol.bytes after
  | whole {digits after : List UInt8} : IsDigits digits → Fits .number digits after
  | fraction {digits decimals after : List UInt8} :
      IsDigits digits → IsDigits decimals → Fits .number (digits ++ Byte.dot :: decimals) after
  | word {first : UInt8} {body after : List UInt8} :
      isWordStart first = true → (∀ byte ∈ body, isWordByte byte = true) →
      Fits .word (first :: body) after
  | string {body after : List UInt8} :
      Byte.quote ∉ body → Fits .string (Byte.quote :: body ++ [Byte.quote]) after
  | openString {body : List UInt8} : Byte.quote ∉ body → Fits .openString (Byte.quote :: body) []
  | stray {first : UInt8} {body after : List UInt8} :
      StartsNothing first → (∀ byte ∈ body, Utf8.isContinuation byte = true) →
      Fits .stray (first :: body) after

/-- The text starts with the piece, which fits there, and no other piece that
fits there has more bytes. -/
structure Piece.Longest (piece : Piece) (source after : List UInt8) : Prop where
  whole : source = piece.bytes ++ after
  fits : Fits piece.shape piece.bytes after
  longest : ∀ shape bytes others, source = bytes ++ others → Fits shape bytes others →
    bytes.length ≤ piece.bytes.length

/-- The text is cut into these pieces, each of which is the longest at its start. -/
inductive Cuts : List UInt8 → List Piece → Prop
  | nil : Cuts [] []
  | cons {piece : Piece} {source after : List UInt8} {others : List Piece} :
      piece.Longest source after → Cuts after others → Cuts source (piece :: others)

/-! ### First bytes -/

namespace Byte

/-- What holds of the bytes up to 255 holds of all. -/
theorem forall_of_fin {holds : UInt8 → Prop} (each : ∀ index : Fin 256, holds (UInt8.ofNat index))
    (byte : UInt8) : holds byte := by
  have isByte := each byte.toFin
  rwa [show UInt8.ofNat byte.toFin = byte from UInt8.ofNat_toNat] at isByte

theorem of_word : ∀ byte, isWordStart byte = true →
    isBlank byte = false ∧ (byte == slash) = false ∧ (byte == quote) = false ∧
    isDigitByte byte = false := by
  unfold isBlank isWordStart isDigitByte newline slash quote
  grind

theorem of_digit : ∀ byte, isDigitByte byte = true →
    isBlank byte = false ∧ (byte == slash) = false ∧ (byte == quote) = false := by
  unfold isBlank isDigitByte newline slash quote
  grind

end Byte

namespace Symbol

/-- What is found by a byte is written as the byte alone, and no other piece starts with
it, except for comments. -/
theorem of_ofByte? {symbol : Symbol} {byte : UInt8} (found : ofByte? byte = some symbol) :
    symbol.bytes = [byte] ∧ isBlank byte = false ∧ (byte == Byte.quote) = false ∧
      isDigitByte byte = false ∧
      isWordStart byte = false := by
  have each : ∀ byte, (ofByte? byte).all (fun symbol => symbol.bytes == [byte] && !isBlank byte &&
      byte != Byte.quote && !isDigitByte byte && !isWordStart byte) = true :=
    Byte.forall_of_fin (by decide +kernel)
  have this := each byte
  rw [found] at this
  simpa [and_assoc] using this

/-- A symbol is written as one byte, or as a shorter symbol and an equals sign. -/
theorem bytes_cases (symbol : Symbol) :
    (∃ byte, symbol.bytes = [byte] ∧ ofByte? byte = some symbol) ∨
      ∃ shorter byte, symbol.bytes = [byte, Byte.equals] ∧ ofByte? byte = some shorter ∧
        shorter.withEqual? = some symbol := by
  cases symbol
  case bangEqual => exact .inr ⟨.bang, _, rfl, rfl, rfl⟩
  case equalEqual => exact .inr ⟨.equal, _, rfl, rfl, rfl⟩
  case greaterEqual => exact .inr ⟨.greater, _, rfl, rfl, rfl⟩
  case lessEqual => exact .inr ⟨.less, _, rfl, rfl, rfl⟩
  all_goals exact .inl ⟨_, rfl, rfl⟩

/-- A longer symbol is written as the shorter one and an equals sign. -/
theorem bytes_withEqual? {symbol longer : Symbol} (known : symbol.withEqual? = some longer) :
    longer.bytes = symbol.bytes ++ [Byte.equals] := by
  cases symbol <;> cases known <;> rfl

end Symbol

/-! ### Runs -/

section

variable {test : UInt8 → Bool}

variable (test) in
theorem takeWhile_all (bytes : List UInt8) : ∀ byte ∈ bytes.takeWhile test, test byte = true :=
  List.all_eq_true.mp List.all_takeWhile

/-- A run goes on at least as long as bytes satisfy the test. -/
theorem takeWhile_over {body : List UInt8} (all : ∀ byte ∈ body, test byte = true)
    (after : List UInt8) :
    (body ++ after).takeWhile test = body ++ after.takeWhile test :=
  List.takeWhile_append_of_pos all

theorem dropWhile_over {body : List UInt8} (all : ∀ byte ∈ body, test byte = true)
    (after : List UInt8) :
    (body ++ after).dropWhile test = after.dropWhile test :=
  List.dropWhile_append_of_pos all

/-- A byte that ends a run does not satisfy the test. -/
theorem of_dropWhile_cons {bytes others : List UInt8} {next : UInt8}
    (rest : bytes.dropWhile test = next :: others) : test next = false := by
  have fails := List.head?_dropWhile_not test bytes
  rwa [rest] at fails

end

/-- Bytes up to a quote are those before the first quote. -/
theorem ne_quote_of_notMem {body : List UInt8} (noQuote : Byte.quote ∉ body) :
    ∀ byte ∈ body, (byte != Byte.quote) = true := by
  intro byte inBody
  exact bne_iff_ne.mpr (ne_of_mem_of_not_mem inBody noQuote)

/-! ### What is cut off fits -/

namespace Piece

/-- The piece that is cut off fits before the bytes that are left. -/
def FitsThere (cut : Piece × List UInt8) : Prop :=
  Fits cut.1.shape cut.1.bytes cut.2

theorem fits_cutString (rest : List UInt8) : FitsThere (cutString rest) := by
  have noQuote : Byte.quote ∉ rest.takeWhile (· != Byte.quote) := by
    intro inside
    exact absurd (takeWhile_all (· != Byte.quote) rest _ inside) (by simp)
  unfold cutString
  cases others : rest.dropWhile (· != Byte.quote) with
  | nil => exact .openString noQuote
  | cons closing left =>
    obtain rfl : closing = Byte.quote := by simpa using of_dropWhile_cons others
    exact .string noQuote

theorem isDigits_takeWhile {first : UInt8} (digit : isDigitByte first = true) (rest : List UInt8) :
    IsDigits (first :: rest.takeWhile isDigitByte) := by
  refine ⟨List.cons_ne_nil _ _, fun byte isOne => ?_⟩
  rcases List.mem_cons.mp isOne with rfl | inRun
  · exact digit
  · exact takeWhile_all isDigitByte rest byte inRun

theorem fits_cutNumber {first : UInt8} (digit : isDigitByte first = true) (rest : List UInt8) :
    FitsThere (cutNumber first rest) := by
  have whole := isDigits_takeWhile digit rest
  unfold cutNumber
  dsimp only
  split
  · rename_i point next others left
    by_cases goesOn : (point == Byte.dot && isDigitByte next) = true
    · rw [if_pos goesOn]
      obtain ⟨isPoint, isDigit⟩ := Bool.and_eq_true_iff.mp goesOn
      obtain rfl := eq_of_beq isPoint
      exact .fraction whole (isDigits_takeWhile isDigit others)
    · rw [if_neg goesOn]
      exact .whole whole
  · exact .whole whole

theorem fits_cutSymbol {first : UInt8} {symbol : Symbol}
    (found : Symbol.ofByte? first = some symbol) (rest : List UInt8) :
    FitsThere (cutSymbol first symbol rest) := by
  have written : symbol.bytes = [first] := (Symbol.of_ofByte? found).1
  have single : ∀ after, Fits (.symbol symbol) [first] after := by
    intro after
    rw [← written]
    exact .symbol
  unfold cutSymbol
  split
  · rename_i longer next others known
    by_cases isEqual : (next == Byte.equals) = true
    · rw [if_pos isEqual, eq_of_beq isEqual]
      have writtenLonger := Symbol.bytes_withEqual? known
      rw [written] at writtenLonger
      show Fits (.symbol longer) ([first] ++ [Byte.equals]) others
      rw [← writtenLonger]
      exact .symbol
    · rw [if_neg isEqual]
      exact single _
  · exact single _

/-- **What is cut off fits before the bytes that are left.** -/
theorem fits_cut (first : UInt8) (rest : List UInt8) : FitsThere (cut first rest) := by
  unfold cut
  split
  · rename_i blank
    exact .blank blank
  rename_i blank
  split
  · rename_i slashes
    obtain ⟨isSlash, next⟩ := Bool.and_eq_true_iff.mp slashes
    obtain rfl := eq_of_beq isSlash
    obtain ⟨others, rfl⟩ := List.head?_eq_some_iff.mp (eq_of_beq next)
    exact .comment fun inside => absurd (takeWhile_all (· != Byte.newline) others _ inside)
      (by simp)
  split
  · exact fits_cutString rest
  rename_i quote
  split
  · rename_i digit
    exact fits_cutNumber digit rest
  rename_i digit
  split
  · rename_i word
    exact .word word (takeWhile_all _ rest)
  rename_i word
  split
  · rename_i symbol found
    exact fits_cutSymbol found rest
  · rename_i unknown
    refine .stray ⟨Bool.eq_false_iff.mpr blank, fun same => quote (beq_iff_eq.mpr same),
      Bool.eq_false_iff.mpr digit, Bool.eq_false_iff.mpr word, fun symbol starts => ?_⟩
        (takeWhile_all _ rest)
    rcases symbol.bytes_cases with ⟨byte, bytes, found⟩ | ⟨shorter, byte, bytes, found, -⟩
    all_goals
      rw [bytes, List.head?_cons] at starts
      obtain rfl := Option.some_inj.mp starts
      rw [found] at unknown
      cases unknown

/-! ### Whatever else fits has fewer bytes -/

/-- A piece is the other one, or has fewer bytes. -/
def Reaches (piece other : Piece) : Prop :=
  piece = other ∨ piece.bytes.length < other.bytes.length

/-- A piece with more bytes at the end reaches at least as far. -/
theorem reaches_append (shape : Shape) (bytes more : List UInt8) :
    Reaches ⟨shape, bytes⟩ ⟨shape, bytes ++ more⟩ := by
  cases more with
  | nil => exact .inl (by rw [List.append_nil])
  | cons byte more =>
    refine .inr ?_
    show bytes.length < (bytes ++ byte :: more).length
    rw [List.length_append, List.length_cons]
    omega

theorem reaches_run (shape : Shape) (first : UInt8) {test : UInt8 → Bool} {body : List UInt8}
    (all : ∀ byte ∈ body, test byte = true) (after : List UInt8) :
    Reaches ⟨shape, first :: body⟩ (run shape first test (body ++ after)).1 := by
  rw [run, takeWhile_over all]
  exact reaches_append shape (first :: body) _

theorem cutString_closed {body : List UInt8} (noQuote : Byte.quote ∉ body) (after : List UInt8) :
    cutString (body ++ Byte.quote :: after) =
      (⟨.string, Byte.quote :: body ++ [Byte.quote]⟩, after) := by
  have all := ne_quote_of_notMem noQuote
  rw [cutString, takeWhile_over all, dropWhile_over all, List.takeWhile_cons_of_neg (by simp),
    List.dropWhile_cons_of_neg (by simp), List.append_nil]

theorem cutString_open {body : List UInt8} (noQuote : Byte.quote ∉ body) :
    cutString body = (⟨.openString, Byte.quote :: body⟩, []) := by
  have all := ne_quote_of_notMem noQuote
  have taken := takeWhile_over all []
  have left := dropWhile_over all []
  rw [List.append_nil] at taken left
  rw [cutString, taken, left]
  simp

/-- A number reaches at least as far as its digits before the point. -/
theorem cutNumber_whole (first : UInt8) (rest : List UInt8) :
    ∃ more, (cutNumber first rest).1 = ⟨.number, first :: rest.takeWhile isDigitByte ++ more⟩ := by
  unfold cutNumber
  dsimp only
  split
  · split
    · exact ⟨_, rfl⟩
    · exact ⟨[], by rw [List.append_nil]⟩
  · exact ⟨[], by rw [List.append_nil]⟩

theorem reaches_whole (first : UInt8) {digits : List UInt8}
    (all : ∀ byte ∈ digits, isDigitByte byte = true) (after : List UInt8) :
    Reaches ⟨.number, first :: digits⟩ (cutNumber first (digits ++ after)).1 := by
  obtain ⟨more, found⟩ := cutNumber_whole first (digits ++ after)
  rw [found, takeWhile_over all, ← List.cons_append, List.append_assoc]
  exact reaches_append .number (first :: digits) _

theorem reaches_fraction (first : UInt8) {digits decimals : List UInt8}
    (all : ∀ byte ∈ digits, isDigitByte byte = true) (isDecimals : IsDigits decimals)
    (after : List UInt8) :
    Reaches ⟨.number, first :: digits ++ Byte.dot :: decimals⟩
      (cutNumber first (digits ++ Byte.dot :: decimals ++ after)).1 := by
  obtain ⟨someDecimal, allDecimals⟩ := isDecimals
  obtain ⟨decimal, others, rfl⟩ := List.exists_cons_of_ne_nil someDecimal
  have isDecimal := allDecimals decimal List.mem_cons_self
  have point : ¬isDigitByte Byte.dot = true := by decide
  have goesOn : (Byte.dot == Byte.dot && isDigitByte decimal) = true := by rw [isDecimal]; rfl
  have taken : (digits ++ Byte.dot :: decimal :: others ++ after).takeWhile isDigitByte =
      digits := by
    rw [List.append_assoc, takeWhile_over all, List.cons_append, List.takeWhile_cons_of_neg point,
      List.append_nil]
  have left : (digits ++ Byte.dot :: decimal :: others ++ after).dropWhile isDigitByte =
      Byte.dot :: decimal :: (others ++ after) := by
    rw [List.append_assoc, dropWhile_over all, List.cons_append, List.dropWhile_cons_of_neg point,
      List.cons_append]
  rw [cutNumber, taken, left]
  dsimp only
  rw [if_pos goesOn, takeWhile_over fun byte isOne => allDecimals byte
    (List.mem_cons_of_mem _ isOne), ← List.cons_append, ← List.cons_append, ← List.append_assoc]
  exact reaches_append .number (first :: digits ++ Byte.dot :: decimal :: others) _

theorem reaches_symbol {symbol : Symbol} {byte : UInt8} (bytes : symbol.bytes = [byte])
    (rest : List UInt8) :
    Reaches ⟨.symbol symbol, symbol.bytes⟩ (cutSymbol byte symbol rest).1 := by
  rw [bytes]
  unfold cutSymbol
  split
  · split
    · exact .inr (Nat.lt_succ_self 1)
    · exact .inl rfl
  · exact .inl rfl

theorem cutSymbol_longer {shorter symbol : Symbol} {byte : UInt8}
    (bytes : symbol.bytes = [byte, Byte.equals]) (longer : shorter.withEqual? = some symbol)
    (rest : List UInt8) :
    (cutSymbol byte shorter (Byte.equals :: rest)).1 = ⟨.symbol symbol, symbol.bytes⟩ := by
  unfold cutSymbol
  rw [longer, bytes]
  rfl

/-! ### What decides how a piece is cut off -/

theorem cut_blank {byte : UInt8} (isBlank : isBlank byte = true) (rest : List UInt8) :
    cut byte rest = (⟨.blank, [byte]⟩, rest) := by
  rw [cut, if_pos isBlank]

theorem cut_slashes (rest : List UInt8) :
    cut Byte.slash (Byte.slash :: rest) =
      run .comment Byte.slash (· != Byte.newline) (Byte.slash :: rest) :=
  rfl

theorem cut_quote (rest : List UInt8) : cut Byte.quote rest = cutString rest :=
  rfl

theorem cut_digit {byte : UInt8} (isDigit : isDigitByte byte = true) (rest : List UInt8) :
    cut byte rest = cutNumber byte rest := by
  obtain ⟨blank, slash, quote⟩ := Byte.of_digit byte isDigit
  simp only [cut, blank, slash, quote, isDigit, Bool.false_and, Bool.false_eq_true,
    if_false, if_true]

theorem cut_word {byte : UInt8} (isWord : isWordStart byte = true) (rest : List UInt8) :
    cut byte rest = run .word byte isWordByte rest := by
  obtain ⟨blank, slash, quote, digit⟩ := Byte.of_word byte isWord
  simp only [cut, blank, slash, quote, digit, isWord, Bool.false_and, Bool.false_eq_true,
    if_false, if_true]

theorem cut_symbol {byte : UInt8} {symbol : Symbol} (found : Symbol.ofByte? byte = some symbol)
    {rest : List UInt8} (noComment : ¬(byte == Byte.slash && rest.head? == some Byte.slash) =
      true) :
    cut byte rest = cutSymbol byte symbol rest := by
  obtain ⟨-, blank, quote, digit, word⟩ := Symbol.of_ofByte? found
  simp only [cut, blank, noComment, quote, digit, word, found, Bool.false_eq_true, if_false]

theorem cut_stray {byte : UInt8} (nothing : StartsNothing byte) (rest : List UInt8) :
    cut byte rest = run .stray byte Utf8.isContinuation rest := by
  obtain ⟨blank, quote, digit, word, symbol⟩ := nothing
  have unknown : Symbol.ofByte? byte = none := by
    cases found : Symbol.ofByte? byte with
    | none => rfl
    | some known => exact absurd (by rw [(Symbol.of_ofByte? found).1]; rfl) (symbol known)
  have slash : (byte == Byte.slash) = false := by
    refine beq_eq_false_iff_ne.mpr ?_
    rintro rfl
    exact symbol .slash rfl
  simp only [cut, blank, slash, beq_eq_false_iff_ne.mpr quote, digit, word, unknown, Bool.false_and,
    Bool.false_eq_true, if_false]

/-- **Whatever else fits where a piece is cut off has fewer bytes.** -/
theorem Fits.reaches_cut {shape : Shape} {bytes after : List UInt8} (fits : Fits shape bytes after)
    {first : UInt8} {rest : List UInt8} (whole : bytes ++ after = first :: rest) :
    Reaches ⟨shape, bytes⟩ (cut first rest).1 := by
  cases fits with
  | blank isBlank =>
    obtain ⟨rfl, rfl⟩ := List.cons.inj whole
    exact .inl (by rw [cut_blank isBlank])
  | @comment body _ noNewline =>
    obtain ⟨rfl, rfl⟩ := List.cons.inj whole
    have all : ∀ byte ∈ Byte.slash :: body, (byte != Byte.newline) = true := by
      intro byte isOne
      rcases List.mem_cons.mp isOne with rfl | inBody
      · rfl
      · exact bne_iff_ne.mpr (ne_of_mem_of_not_mem inBody noNewline)
    exact reaches_run .comment Byte.slash all after
  | @symbol symbol _ =>
    rcases symbol.bytes_cases with ⟨byte, bytes, found⟩ | ⟨shorter, byte, bytes, found, longer⟩
    · rw [bytes] at whole
      obtain ⟨rfl, rfl⟩ := List.cons.inj whole
      by_cases comment : (byte == Byte.slash && after.head? == some Byte.slash) = true
      · -- two slashes are more bytes than one
        obtain ⟨isSlash, next⟩ := Bool.and_eq_true_iff.mp comment
        obtain rfl := eq_of_beq isSlash
        obtain ⟨others, rfl⟩ := List.head?_eq_some_iff.mp (eq_of_beq next)
        exact .inr (by rw [bytes]; exact Nat.succ_le_succ (Nat.succ_le_succ (Nat.zero_le _)))
      · show Reaches _ (cut byte after).1
        rw [cut_symbol found comment]
        exact reaches_symbol bytes after
    · rw [bytes] at whole
      obtain ⟨rfl, rfl⟩ := List.cons.inj whole
      have noComment : ¬(byte == Byte.slash && (Byte.equals :: after).head? == some Byte.slash) =
          true := by
        have differs : ((Byte.equals :: after).head? == some Byte.slash) = false := rfl
        rw [differs, Bool.and_false]
        exact Bool.false_ne_true
      refine .inl ?_
      show _ = (cut byte (Byte.equals :: after)).1
      rw [cut_symbol found noComment, cutSymbol_longer bytes longer]
  | whole isDigits =>
    obtain ⟨digit, digits, rfl⟩ := List.exists_cons_of_ne_nil isDigits.1
    obtain ⟨rfl, rfl⟩ := List.cons.inj whole
    rw [cut_digit (isDigits.2 digit List.mem_cons_self)]
    exact reaches_whole digit (fun byte isOne => isDigits.2 byte (List.mem_cons_of_mem _ isOne))
      after
  | fraction isDigits isDecimals =>
    obtain ⟨digit, digits, rfl⟩ := List.exists_cons_of_ne_nil isDigits.1
    obtain ⟨rfl, rfl⟩ := List.cons.inj whole
    rw [cut_digit (isDigits.2 digit List.mem_cons_self)]
    exact reaches_fraction digit (fun byte isOne => isDigits.2 byte (List.mem_cons_of_mem _ isOne))
      isDecimals after
  | word isWord all =>
    obtain ⟨rfl, rfl⟩ := List.cons.inj whole
    rw [cut_word isWord]
    exact reaches_run .word _ all after
  | @string body _ noQuote =>
    rw [List.cons_append, List.cons_append, List.append_assoc] at whole
    obtain ⟨rfl, rfl⟩ := List.cons.inj whole
    refine .inl ?_
    rw [cut_quote]
    exact (congrArg Prod.fst (cutString_closed noQuote after)).symm
  | @openString body noQuote =>
    rw [List.append_nil] at whole
    obtain ⟨rfl, rfl⟩ := List.cons.inj whole
    exact .inl (congrArg Prod.fst (cutString_open noQuote)).symm
  | stray nothing all =>
    obtain ⟨rfl, rfl⟩ := List.cons.inj whole
    rw [cut_stray nothing]
    exact reaches_run .stray _ all after

/-! ### The longest piece -/

/-- **What is cut off, and nothing else, is the longest piece.** -/
theorem longest_iff {piece : Piece} {first : UInt8} {rest after : List UInt8} :
    piece.Longest (first :: rest) after ↔ (piece, after) = cut first rest := by
  obtain ⟨taken, bytes, whole⟩ := cut_bytes first rest
  have cutWhole : first :: rest = (cut first rest).1.bytes ++ (cut first rest).2 := by
    rw [bytes, List.cons_append, whole]
  constructor
  · intro longest
    have same : piece = (cut first rest).1 := by
      rcases longest.fits.reaches_cut longest.whole.symm with same | fewer
      · exact same
      · exact absurd (longest.longest _ _ _ cutWhole (fits_cut first rest)) (Nat.not_le_of_lt fewer)
    have left := longest.whole.symm.trans cutWhole
    rw [same] at left
    exact Prod.ext same (List.append_cancel_left left)
  · intro isCut
    rw [← isCut] at cutWhole
    refine ⟨cutWhole, ?_, fun shape others more otherWhole fits => ?_⟩
    · have fits := fits_cut first rest
      rwa [← isCut] at fits
    · have reaches := fits.reaches_cut otherWhole.symm
      rw [← isCut] at reaches
      rcases reaches with same | fewer
      · exact Nat.le_of_eq (congrArg (List.length ∘ Piece.bytes) same)
      · exact Nat.le_of_lt fewer

/-- A piece has a byte at least. -/
theorem Fits.ne_nil {shape : Shape} {bytes after : List UInt8} (fits : Fits shape bytes after) :
    bytes ≠ [] := by
  cases fits with
  | @symbol symbol _ =>
    rcases symbol.bytes_cases with ⟨_, bytes, -⟩ | ⟨_, _, bytes, -⟩
    all_goals
      rw [bytes]
      exact List.cons_ne_nil _ _
  | whole isDigits => exact isDigits.1
  | fraction => exact List.append_ne_nil_of_right_ne_nil _ (List.cons_ne_nil _ _)
  | _ => exact List.cons_ne_nil _ _

end Piece

/-- **There is exactly one way to cut a text into longest pieces.** -/
theorem cuts_iff {source : List UInt8} {parts : List Piece} :
    Cuts source parts ↔ parts = pieces source := by
  induction source using pieces_induction generalizing parts with
  | nil =>
    constructor
    · intro cuts
      cases cuts with
      | nil => rfl
      | cons longest =>
        exact absurd (List.append_eq_nil_iff.mp longest.whole.symm).1 longest.fits.ne_nil
    · rintro rfl
      exact .nil
  | cons first rest ih =>
    rw [pieces_cons]
    constructor
    · intro cuts
      cases cuts with
      | cons longest others =>
        obtain ⟨isFirst, left⟩ := Prod.ext_iff.mp (Piece.longest_iff.mp longest)
        dsimp only at isFirst left
        rw [left] at others
        rw [isFirst, ih.mp others]
    · rintro rfl
      exact .cons (Piece.longest_iff.mpr rfl) (ih.mpr rfl)

/-- The bytes of the pieces put together are the text. -/
theorem Cuts.whole {source : List UInt8} {parts : List Piece} (cuts : Cuts source parts) :
    parts.flatMap Piece.bytes = source := by
  induction cuts with
  | nil => rfl
  | cons longest _ ih => rw [List.flatMap_cons, ih, longest.whole]

end Lox
