/-
**A line end keeps what stands before it apart from what stands after it.**

* `Piece.cut_bytes` — a piece takes bytes from the front of the text, one at
  least, and leaves the others.
* `Piece.cut_before_newline` — no piece but a string that never ends goes on over the end of a line.
* `pieces_append` — so the pieces of two texts with a line end between them are those of each.
* `tokensOf_append`, `diagnosticsOf_append` — and the tokens of the second text are moved by as many
  lines as there are line ends before it (`lineEndsOf_pieces`).
-/

import Lox.Proofs.Source

namespace Lox

/-! ### Runs of bytes -/

section

variable {test : UInt8 → Bool} {stop : UInt8} (stops : test stop = false)

include stops

theorem takeWhile_before (bytes more : List UInt8) :
    (bytes ++ stop :: more).takeWhile test = bytes.takeWhile test := by
  induction bytes with
  | nil => simp [stops]
  | cons byte rest ih =>
    rw [List.cons_append, List.takeWhile_cons, List.takeWhile_cons, ih]

theorem dropWhile_before (bytes more : List UInt8) :
    (bytes ++ stop :: more).dropWhile test = bytes.dropWhile test ++ stop :: more := by
  induction bytes with
  | nil => simp [stops]
  | cons byte rest ih =>
    rw [List.cons_append, List.dropWhile_cons, List.dropWhile_cons, ih]
    split <;> rfl

end

/-! ### Single pieces -/

namespace Piece

/-- What is cut off is the first byte and some bytes after it; the others are left. -/
def TakesFront (first : UInt8) (rest : List UInt8) (cut : Piece × List UInt8) : Prop :=
  ∃ taken, cut.1.bytes = first :: taken ∧ taken ++ cut.2 = rest

/-- With the end of a line and more bytes after the text, the same is cut off. -/
def EndsBefore (cutOff : List UInt8 → Piece × List UInt8) (rest : List UInt8) : Prop :=
  ∀ more, cutOff (rest ++ Byte.newline :: more) =
    ((cutOff rest).1, (cutOff rest).2 ++ Byte.newline :: more)

theorem run_bytes (shape : Shape) (first : UInt8) (test : UInt8 → Bool) (rest : List UInt8) :
    TakesFront first rest (run shape first test rest) :=
  ⟨_, rfl, List.takeWhile_append_dropWhile⟩

theorem run_ends (shape : Shape) (first : UInt8) {test : UInt8 → Bool}
    (stops : test Byte.newline = false) (rest : List UInt8) :
    EndsBefore (run shape first test) rest := by
  intro more
  rw [run, run, takeWhile_before stops, dropWhile_before stops]

theorem cutString_bytes (rest : List UInt8) : TakesFront Byte.quote rest (cutString rest) := by
  have whole := List.takeWhile_append_dropWhile (p := (· != Byte.quote)) (l := rest)
  unfold cutString
  cases others : rest.dropWhile (· != Byte.quote) with
  | nil =>
    rw [others] at whole
    exact ⟨_, rfl, whole⟩
  | cons closing left =>
    rw [others] at whole
    refine ⟨rest.takeWhile (· != Byte.quote) ++ [closing], rfl, ?_⟩
    rw [List.append_assoc]
    exact whole

theorem cutString_ends {rest : List UInt8} (ends : (cutString rest).1.shape ≠ .openString) :
    EndsBefore cutString rest := by
  intro more
  have whole := List.takeWhile_append_dropWhile (p := (· != Byte.quote)) (l := rest)
  unfold cutString at ends ⊢
  cases others : rest.dropWhile (· != Byte.quote) with
  | nil =>
    rw [others] at ends
    exact absurd rfl ends
  | cons closing left =>
    -- the closing quote is found before the end of the line is come to
    rw [others] at whole
    have shorter : (rest.takeWhile (· != Byte.quote)).length ≠ rest.length := by
      intro same
      have lengths := congrArg List.length whole
      rw [List.length_append, List.length_cons] at lengths
      omega
    rw [List.takeWhile_append, if_neg shorter, List.dropWhile_append, others]
    rfl

theorem cutNumber_bytes (first : UInt8) (rest : List UInt8) :
    TakesFront first rest (cutNumber first rest) := by
  have whole := List.takeWhile_append_dropWhile (p := isDigitByte) (l := rest)
  unfold cutNumber
  dsimp only
  split
  · rename_i point digit others left
    rw [left] at whole
    split
    · refine ⟨rest.takeWhile isDigitByte ++ point :: digit :: others.takeWhile isDigitByte, rfl, ?_⟩
      rw [List.append_assoc, List.cons_append, List.cons_append, List.takeWhile_append_dropWhile]
      exact whole
    · exact ⟨_, rfl, whole⟩
  · exact ⟨_, rfl, whole⟩

theorem cutNumber_ends (first : UInt8) (rest : List UInt8) : EndsBefore (cutNumber first) rest := by
  intro more
  have digits : isDigitByte Byte.newline = false := by decide
  unfold cutNumber
  rw [takeWhile_before digits, dropWhile_before digits]
  cases rest.dropWhile isDigitByte with
  | nil => cases more <;> rfl
  | cons point others =>
    cases others with
    | nil => simp [digits]
    | cons digit others =>
      rw [List.cons_append, List.cons_append]
      dsimp only
      split
      · rw [takeWhile_before digits, dropWhile_before digits]
      · rfl

theorem cutSymbol_bytes (first : UInt8) (symbol : Symbol) (rest : List UInt8) :
    TakesFront first rest (cutSymbol first symbol rest) := by
  unfold cutSymbol
  split
  · split
    · exact ⟨_, rfl, rfl⟩
    · exact ⟨[], rfl, rfl⟩
  · exact ⟨[], rfl, rfl⟩

theorem cutSymbol_ends (first : UInt8) (symbol : Symbol) (rest : List UInt8) :
    EndsBefore (cutSymbol first symbol) rest := by
  intro more
  unfold cutSymbol
  cases symbol.withEqual? with
  | none => rfl
  | some longer =>
    cases rest with
    | nil => rfl
    | cons next others =>
      rw [List.cons_append]
      dsimp only
      split <;> rfl

/-- **A piece takes bytes from the front of the text, one at least, and leaves the others.** -/
theorem cut_bytes (first : UInt8) (rest : List UInt8) : TakesFront first rest (cut first rest) := by
  unfold cut
  split
  · exact ⟨[], rfl, rfl⟩
  split
  · exact run_bytes _ _ _ rest
  split
  · rename_i isQuote
    rw [eq_of_beq isQuote]
    exact cutString_bytes rest
  split
  · exact cutNumber_bytes first rest
  split
  · exact run_bytes _ _ _ rest
  split
  · exact cutSymbol_bytes first _ rest
  · exact run_bytes _ _ _ rest

/-- **No piece but a string that never ends goes on over the end of a line.** -/
theorem cut_ends {first : UInt8} {rest : List UInt8}
    (ends : (cut first rest).1.shape ≠ .openString) :
    EndsBefore (cut first) rest := by
  intro more
  have sameComment : (first == Byte.slash && (rest ++ Byte.newline :: more).head? ==
      some Byte.slash) = (first == Byte.slash && rest.head? == some Byte.slash) := by
    cases rest with
    | nil => simp [show Byte.newline ≠ Byte.slash by decide]
    | cons => rfl
  unfold cut at ends ⊢
  rw [sameComment]
  split
  · rfl
  split
  · exact run_ends _ _ (by decide) rest more
  split
  · rename_i blank comment quote
    rw [if_neg blank, if_neg comment, if_pos quote] at ends
    exact cutString_ends ends more
  split
  · exact cutNumber_ends first rest more
  split
  · exact run_ends _ _ (by decide) rest more
  split
  · exact cutSymbol_ends first _ rest more
  · exact run_ends _ _ (by decide) rest more

end Piece

/-! ### All pieces -/

theorem piecesWithin_succ (count : Nat) (first : UInt8) (rest : List UInt8) :
    piecesWithin (count + 1) (first :: rest) =
      (Piece.cut first rest).1 :: piecesWithin count (Piece.cut first rest).2 :=
  rfl

theorem length_cut_le (first : UInt8) (rest : List UInt8) :
    (Piece.cut first rest).2.length ≤ rest.length := by
  obtain ⟨taken, -, whole⟩ := Piece.cut_bytes first rest
  have lengths := congrArg List.length whole
  rw [List.length_append] at lengths
  omega

/-- A bound on the number of pieces does not matter if there are no more bytes. -/
theorem piecesWithin_eq {count other : Nat} {source : List UInt8} (enough : source.length ≤ count)
    (enoughOther : source.length ≤ other) :
    piecesWithin count source = piecesWithin other source := by
  induction count generalizing source other with
  | zero =>
    obtain rfl := List.eq_nil_of_length_eq_zero (Nat.le_zero.mp enough)
    cases other <;> rfl
  | succ count ih =>
    cases source with
    | nil => cases other <;> rfl
    | cons first rest =>
      have shorter := length_cut_le first rest
      rw [List.length_cons] at enough enoughOther
      cases other with
      | zero => omega
      | succ other =>
        rw [piecesWithin_succ, piecesWithin_succ, ih (by omega : _ ≤ count) (by omega : _ ≤ other)]

theorem pieces_cons (first : UInt8) (rest : List UInt8) :
    pieces (first :: rest) = (Piece.cut first rest).1 :: pieces (Piece.cut first rest).2 := by
  show piecesWithin (rest.length + 1) (first :: rest) = _
  rw [piecesWithin_succ]
  exact congrArg _ (piecesWithin_eq (length_cut_le first rest) (Nat.le_refl _))

/-- What all texts have of which the pieces are cut off one by one. -/
theorem pieces_induction {holds : List UInt8 → Prop} (nil : holds [])
    (cons : ∀ first rest, holds (Piece.cut first rest).2 → holds (first :: rest))
    (source : List UInt8) :
    holds source := by
  induction size : source.length using Nat.strongRecOn generalizing source with
  | ind length ih =>
    cases source with
    | nil => exact nil
    | cons first rest =>
      have shorter := length_cut_le first rest
      rw [List.length_cons] at size
      exact cons first rest (ih (Piece.cut first rest).2.length (by omega) _ rfl)

/-- **What stands before a line end and what stands after it are cut apart.** -/
theorem pieces_append (source more : List UInt8)
    (ends : ∀ piece ∈ pieces source, piece.shape ≠ .openString) :
    pieces (source ++ Byte.newline :: more) =
      pieces source ++ ⟨.blank, [Byte.newline]⟩ :: pieces more := by
  induction source using pieces_induction with
  | nil => exact pieces_cons Byte.newline more
  | cons first rest ih =>
    rw [pieces_cons] at ends
    have isFirst := Piece.cut_ends (ends _ List.mem_cons_self) more
    rw [List.cons_append, pieces_cons, pieces_cons, isFirst, List.cons_append]
    rw [ih fun piece isPiece => ends piece (List.mem_cons_of_mem _ isPiece)]

/-- The line ends of all pieces are those of the text. -/
theorem lineEndsOf_pieces (source : List UInt8) :
    lineEndsOf (pieces source) = source.count Byte.newline := by
  induction source using pieces_induction with
  | nil => rfl
  | cons first rest ih =>
    obtain ⟨taken, bytes, whole⟩ := Piece.cut_bytes first rest
    have lines : lineEndsOf (pieces (first :: rest)) =
        (first :: taken).count Byte.newline + lineEndsOf (pieces (Piece.cut first rest).2) := by
      rw [pieces_cons, ← bytes]
      rfl
    rw [lines, ih, ← List.count_append, List.cons_append, whole]

/-! ### Characters -/

/-- The number of line ends in a text. -/
def lineEndsIn (source : String) : Nat :=
  source.toList.count '\n'

theorem count_newline_encodeChar (c : Char) :
    (String.utf8EncodeChar c).count Byte.newline = if c = '\n' then 1 else 0 := by
  have isNewline : c = '\n' ↔ c.val.toNat = 10 := by
    constructor
    · rintro rfl
      rfl
    · intro same
      exact Char.ext (UInt32.toNat_inj.mp same)
  have byte : ∀ value, UInt8.ofNat value = Byte.newline ↔ value % 256 = 10 := by
    intro value
    rw [← UInt8.toNat_inj, UInt8.toNat_ofNat']
    rfl
  have bound := c.val.toNat_lt
  unfold String.utf8EncodeChar
  simp only [isNewline]
  generalize c.val.toNat = v at *
  split
  · simp only [List.count_cons, List.count_nil, beq_iff_eq, byte]
    split <;> split <;> omega
  split
  · simp only [List.count_cons, List.count_nil, beq_iff_eq, byte]
    split <;> split <;> split <;> omega
  split
  · simp only [List.count_cons, List.count_nil, beq_iff_eq, byte]
    (repeat' split) <;> omega
  · simp only [List.count_cons, List.count_nil, beq_iff_eq, byte]
    (repeat' split) <;> omega

theorem encode_eq (source : String) :
    Utf8.encode source = source.toList.flatMap String.utf8EncodeChar := by
  unfold Utf8.encode
  show source.toByteArray.data.toList = _
  rw [← String.utf8Encode_toList]
  unfold List.utf8Encode
  simp
theorem encode_append (first second : String) :
    Utf8.encode (first ++ second) = Utf8.encode first ++ Utf8.encode second := by
  rw [encode_eq, encode_eq, encode_eq, String.toList_append, List.flatMap_append]

/-- The line ends of a text are those of its bytes. -/
theorem count_newline_encode (source : String) :
    (Utf8.encode source).count Byte.newline = lineEndsIn source := by
  unfold lineEndsIn
  rw [encode_eq]
  induction source.toList with
  | nil => rfl
  | cons c rest ih =>
    rw [List.flatMap_cons, List.count_append, count_newline_encodeChar,
      ih, List.count_cons, Nat.add_comm]
    simp only [beq_iff_eq]

/-! ### Items further down -/

/-- The token, some lines further down. -/
def Token.below (lines : Nat) (token : Token) : Token :=
  { token with line := token.line + lines }

/-- The item, some lines further down. -/
def Item.below (lines : Nat) : Item → Item
  | .token t => .token (t.below lines)
  | .diagnostic d => .diagnostic { d with line := d.line + lines }

theorem Piece.item?_below (piece : Piece) (line lines : Nat) :
    piece.item? (line + lines) = (piece.item? line).map (Item.below lines) := by
  unfold Piece.item?
  cases piece.shape with
  | word =>
    dsimp only
    cases Keyword.ofText? piece.text <;> rfl
  | _ => rfl

theorem itemsOf_below (pieces : List Piece) (line lines : Nat) :
    itemsOf (line + lines) pieces = (itemsOf line pieces).map (Item.below lines) := by
  induction pieces generalizing line with
  | nil => rfl
  | cons piece rest ih =>
    have lines' : line + lines + piece.lineEnds = line + piece.lineEnds + lines := by omega
    rw [itemsOf, itemsOf, lines', ih, Piece.item?_below, List.map_append]
    cases piece.item? (line + piece.lineEnds) <;> rfl

theorem filterMap_token?_below (items : List Item) (lines : Nat) :
    (items.map (Item.below lines)).filterMap Item.token? =
      (items.filterMap Item.token?).map (Token.below lines) := by
  induction items with
  | nil => rfl
  | cons item rest ih =>
    cases item with
    | token => exact congrArg _ ih
    | diagnostic => exact ih

/-- A diagnostic further down is still one. -/
theorem filterMap_diagnostic?_below (items : List Item) (lines : Nat) :
    (items.map (Item.below lines)).filterMap Item.diagnostic? = [] ↔
      items.filterMap Item.diagnostic? = [] := by
  induction items with
  | nil => rfl
  | cons item rest ih =>
    cases item with
    | token => exact ih
    | diagnostic => exact iff_of_false (List.cons_ne_nil _ _) (List.cons_ne_nil _ _)

/-! ### Two texts with a line end between them -/

/-- Where nothing is wrong with the characters, each string ends. -/
theorem ends_of_diagnosticsOf {source : List UInt8} (clean : diagnosticsOf source = []) :
    ∀ piece ∈ pieces source, piece.shape ≠ .openString := by
  have inner : (itemsOf 1 (pieces source)).filterMap Item.diagnostic? = [] := by
    rw [diagnosticsOf, items, itemsFrom_eq, List.filterMap_append] at clean
    exact (List.append_eq_nil_iff.mp clean).1
  clear clean
  revert inner
  generalize pieces source = pieces, 1 = line
  intro inner
  induction pieces generalizing line with
  | nil => exact fun _ isPiece => absurd isPiece List.not_mem_nil
  | cons first rest ih =>
    rw [itemsOf, List.filterMap_append, List.append_eq_nil_iff] at inner
    intro piece isPiece
    rcases List.mem_cons.mp isPiece with rfl | isRest
    · intro isOpen
      have yields := inner.1
      unfold Piece.item? at yields
      rw [isOpen] at yields
      cases yields
    · exact ih _ inner.2 piece isRest

theorem itemsOf_append (line : Nat) (first rest : List Piece) :
    itemsOf line (first ++ rest) =
      itemsOf line first ++ itemsOf (line + lineEndsOf first) rest := by
  have whole := itemsFrom_append line first rest
  rw [itemsFrom_eq, itemsFrom_eq, ← List.append_assoc] at whole
  exact (List.append_inj' whole rfl).1

theorem itemsOf_pieces_append {first : List UInt8} (clean : diagnosticsOf first = [])
    (second : List UInt8) :
    itemsOf 1 (pieces (first ++ Byte.newline :: second)) =
      itemsOf 1 (pieces first) ++
        (itemsOf 1 (pieces second)).map (Item.below (first.count Byte.newline + 1)) := by
  have blank : ∀ line, itemsOf line (⟨.blank, [Byte.newline]⟩ :: pieces second) =
      itemsOf (line + 1) (pieces second) := fun _ => rfl
  rw [pieces_append first second (ends_of_diagnosticsOf clean), itemsOf_append,
    blank, lineEndsOf_pieces, Nat.add_assoc, itemsOf_below]

/-- **The tokens of two texts with a line end between them** are those of the first and those of the
second, the latter as many lines further down as there are line ends before them. -/
theorem innerTokens_append {first : List UInt8} (clean : diagnosticsOf first = [])
    (second : List UInt8) :
    innerTokens (first ++ Byte.newline :: second) =
      innerTokens first ++ (innerTokens second).map
        (Token.below (first.count Byte.newline + 1)) := by
  unfold innerTokens
  rw [itemsOf_pieces_append clean, List.filterMap_append, filterMap_token?_below]

/-- If nothing is wrong with the characters of two texts, nothing is wrong with those of both
together. -/
theorem diagnosticsOf_append {first second : List UInt8} (clean : diagnosticsOf first = [])
    (cleanSecond : diagnosticsOf second = []) :
    diagnosticsOf (first ++ Byte.newline :: second) = [] := by
  have same : ∀ source, diagnosticsOf source =
      (itemsOf 1 (pieces source)).filterMap Item.diagnostic? := by
    intro source
    rw [diagnosticsOf, items, itemsFrom_eq, List.filterMap_append]
    exact List.append_nil _
  rw [same] at cleanSecond ⊢
  rw [itemsOf_pieces_append clean, List.filterMap_append, ← same, clean]
  exact (filterMap_diagnostic?_below _ _).mpr cleanSecond

end Lox
