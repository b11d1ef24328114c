/-
**A scanner that is called again and again hands out the items of its text, and then nothing.**

* `Scanner.rest`, `Scanner.past` — the bytes that are left, and the scanner after some more bytes.
* `doWhile_apply`, `slice_apply` — what loops take, and what is read again of the current piece.
* `Scanner.Takes` — reading byte by byte takes the rest of a piece that was cut off, and
  finds what the piece yields. One lemma for each way in which a piece goes on;
  `takes_piece` puts them together.
* `next_apply` — a call hands out the first of the items that are left.
* `scans_longest_pieces` — the pieces of a text, what they yield, and the answers to any number of
  calls.
-/

import Lox.Proofs.Scanning.Items
import Lox.Token.Scanner

namespace Lox

theorem Step.bind_of_done {σ ε α β : Type} {first : Step σ ε α} {next : α → Step σ ε β}
    {state later : σ} {value : α} (ran : first state = .done value later) :
    (first >>= next) state = next value later := by
  rw [Step.bind_apply, ran]

theorem Step.view_bind {σ ε α β : Type} (read : σ → α) (next : α → Step σ ε β) (state : σ) :
    (Step.view read >>= next) state = next (read state) state :=
  rfl

namespace Scanner

/-! ### How far a scanner is -/

/-- The bytes that are left. -/
def rest (scanner : Scanner) : List UInt8 :=
  scanner.source.drop scanner.position

/-- The scanner after these bytes, with the lines that they end counted. -/
def past (scanner : Scanner) (bytes : List UInt8) : Scanner :=
  { scanner with
    position := scanner.position + bytes.length
    line := scanner.line + bytes.count Byte.newline }

variable {scanner : Scanner}

theorem past_past (scanner : Scanner) (first second : List UInt8) :
    (scanner.past first).past second = scanner.past (first ++ second) := by
  simp only [past, List.length_append, List.count_append, Nat.add_assoc]

theorem rest_past {bytes others : List UInt8} (left : scanner.rest = bytes ++ others) :
    (scanner.past bytes).rest = others := by
  show scanner.source.drop (scanner.position + bytes.length) = others
  rw [← List.drop_drop]
  show scanner.rest.drop bytes.length = others
  rw [left, List.drop_left]

theorem peek_eq (scanner : Scanner) : scanner.peek = scanner.rest.head?.getD 0 := by
  rw [peek, rest, List.head?_drop]

theorem peekNext_eq (scanner : Scanner) : scanner.peekNext = scanner.rest[1]?.getD 0 := by
  rw [peekNext, rest, List.getElem?_drop]

theorem atEnd_eq (scanner : Scanner) : scanner.atEnd = scanner.rest.isEmpty := by
  rw [atEnd, rest, Bool.eq_iff_iff, decide_eq_true_iff, List.isEmpty_iff, List.drop_eq_nil_iff]

theorem length_rest_le (scanner : Scanner) : scanner.rest.length ≤ scanner.source.length := by
  rw [rest, List.length_drop]
  omega

/-! ### Reading bytes -/

theorem advance_apply {byte : UInt8} {others : List UInt8} (left : scanner.rest = byte :: others) :
    advance scanner = .done byte { scanner with position := scanner.position + 1 } := by
  have isNext : scanner.source[scanner.position]? = some byte := by
    rw [← List.head?_drop]
    exact congrArg List.head? left
  rw [advance, isNext]

/-- A byte that ends no line can be taken without counting. -/
theorem past_of_ne {byte : UInt8} (differs : byte ≠ Byte.newline) :
    { scanner with position := scanner.position + 1 } = scanner.past [byte] := by
  rw [past, List.count_singleton, if_neg (by simpa using differs)]
  rfl

theorem advanceCounting_apply {byte : UInt8} {others : List UInt8}
    (left : scanner.rest = byte :: others) :
    advanceCounting scanner = .done () (scanner.past [byte]) := by
  rw [advanceCounting, Step.bind_of_done (advance_apply left)]
  by_cases isEnd : byte = Byte.newline
  · subst isEnd
    rfl
  · rw [if_neg (by simpa using isEnd), past_of_ne isEnd]
    rfl

/-- A loop takes the bytes that satisfy a test, if its condition and its body are about the next
byte. -/
theorem doWhile_apply {goesOn : Scanner → Bool} {body : Scan Unit} {test : UInt8 → Bool}
    (decides : ∀ scanner, goesOn scanner = scanner.rest.head?.any test)
    (takes : ∀ scanner byte others, scanner.rest = byte :: others → test byte = true →
      body scanner = .done () (scanner.past [byte]))
    {rounds : Nat} (scanner : Scanner) (enough : scanner.rest.length < rounds) :
    doWhile goesOn body rounds scanner = .done () (scanner.past (scanner.rest.takeWhile test)) := by
  induction rounds generalizing scanner with
  | zero => cases enough
  | succ rounds ih =>
    have condition := decides scanner
    rw [doWhile, Step.view_bind, id]
    cases left : scanner.rest with
    | nil =>
      rw [left] at condition
      rw [if_neg (by rw [condition]; exact Bool.false_ne_true)]
      rfl
    | cons byte others =>
      rw [left] at condition enough
      by_cases passes : test byte = true
      · have after : (scanner.past [byte]).rest = others := rest_past left
        rw [if_pos (condition.trans passes),
          Step.bind_of_done (takes scanner byte others left passes),
          ih _ (by rw [after]; exact Nat.lt_of_succ_lt_succ enough), after,
          past_past, List.takeWhile_cons_of_pos passes]
        rfl
      · rw [if_neg (by rw [condition]; exact passes), List.takeWhile_cons_of_neg passes]
        rfl

theorem advanceWhile_apply {goesOn : Scanner → Bool} {body : Scan Unit} {test : UInt8 → Bool}
    (decides : ∀ scanner, goesOn scanner = scanner.rest.head?.any test)
    (takes : ∀ scanner byte others, scanner.rest = byte :: others → test byte = true →
      body scanner = .done () (scanner.past [byte])) (scanner : Scanner) :
    advanceWhile goesOn body scanner = .done () (scanner.past (scanner.rest.takeWhile test)) := by
  rw [advanceWhile, Step.view_bind]
  exact doWhile_apply decides takes scanner (Nat.lt_succ_of_le (length_rest_le scanner))

/-- A loop that takes bytes without counting lines passes over no line end. -/
theorem takes_of_ne {test : UInt8 → Bool} (stops : test Byte.newline = false) (scanner : Scanner)
    (byte : UInt8) (others : List UInt8) (left : scanner.rest = byte :: others)
    (passes : test byte = true) :
    (do let _ ← advance : Scan Unit) scanner = .done () (scanner.past [byte]) := by
  have differs : byte ≠ Byte.newline := by
    rintro rfl
    rw [stops] at passes
    cases passes
  rw [Step.bind_of_done (advance_apply left), past_of_ne differs]
  rfl

/-- Past the end, the next byte seems to be zero, which passes no such test. -/
theorem peek_decides (test : UInt8 → Bool) (zero : test 0 = false) (scanner : Scanner) :
    test scanner.peek = scanner.rest.head?.any test := by
  rw [peek_eq]
  cases scanner.rest with
  | nil => exact zero
  | cons => rfl

theorem atEnd_decides (test : UInt8 → Bool) (scanner : Scanner) :
    (!scanner.atEnd && test scanner.peek) = scanner.rest.head?.any test := by
  rw [peek_eq, atEnd_eq]
  cases scanner.rest with
  | nil => rfl
  | cons => exact Bool.true_and _

theorem takeByte_of_rest {byte : UInt8} (differs : byte ≠ Byte.newline) {others : List UInt8}
    (left : scanner.rest = byte :: others) :
    takeByte byte scanner = .done true (scanner.past [byte]) := by
  have isNext : (!scanner.atEnd && scanner.peek == byte) = true := by
    rw [atEnd_decides (· == byte), left]
    exact beq_self_eq_true byte
  rw [takeByte, Step.view_bind, id, if_pos isNext, Step.bind_of_done (advance_apply left),
    past_of_ne differs]
  rfl

theorem takeByte_of_ne {byte : UInt8} (other : scanner.rest.head? ≠ some byte) :
    takeByte byte scanner = .done false scanner := by
  have isNot : ¬(!scanner.atEnd && scanner.peek == byte) = true := by
    rw [atEnd_decides (· == byte)]
    cases left : scanner.rest with
    | nil => exact Bool.false_ne_true
    | cons next others =>
      rw [left] at other
      exact fun same => other (congrArg some (eq_of_beq same))
  rw [takeByte, Step.view_bind, id, if_neg isNot]
  rfl

/-- The bytes of a range that have been found there are read again. -/
theorem slice_apply {start stop : Nat} {bytes others : List UInt8} (scanner : Scanner)
    (found : scanner.source.drop start = bytes ++ others) (ends : stop = start + bytes.length)
    (inside : start ≤ scanner.source.length) : slice start stop scanner = .done bytes scanner := by
  have lengths := congrArg List.length found
  rw [List.length_drop, List.length_append] at lengths
  have range : start ≤ stop ∧ stop ≤ scanner.source.length := by omega
  rw [slice, if_pos range, List.drop_take, found, ends, Nat.add_sub_cancel_left, List.take_left]

theorem text_apply {start stop : Nat} {bytes others : List UInt8} (scanner : Scanner)
    (found : scanner.source.drop start = bytes ++ others) (ends : stop = start + bytes.length)
    (inside : start ≤ scanner.source.length) :
    text start stop scanner = .done (Utf8.decodeLossy bytes) scanner := by
  rw [text, Step.bind_of_done (slice_apply scanner found ends inside)]
  rfl

/-! ### Reading the rest of a piece -/

/-- The item that is made of what was found, with the text of the piece and the line on which it
ends. -/
def itemOf (found : Found) (text : String) (line : Nat) : Option Item :=
  match found with
  | .error diagnostic => some (.diagnostic diagnostic)
  | .ok (some kind) => some (.token ⟨kind, text, line⟩)
  | .ok none => none

/-- The first byte of a piece has been read. -/
structure Begun (scanner : Scanner) (first : UInt8) : Prop where
  whole : scanner.source.drop scanner.start = first :: scanner.rest
  position : scanner.position = scanner.start + 1

/-- The computation reads on to the end of the piece that is cut off, and finds what the piece
yields. -/
def Takes (body : Scan Found) (scanner : Scanner) (first : UInt8) (cut : Piece × List UInt8) :
    Prop :=
  ∃ taken found, cut.1.bytes = first :: taken ∧ body scanner = .done found (scanner.past taken) ∧
    itemOf found cut.1.text (scanner.past taken).line = cut.1.item? (scanner.past taken).line

section

variable {first : UInt8}

theorem Begun.inside (begun : scanner.Begun first) : scanner.start < scanner.source.length := by
  have lengths := congrArg List.length begun.whole
  rw [List.length_drop, List.length_cons] at lengths
  omega

/-- The bytes of the current piece are read again. -/
theorem Begun.slice (begun : scanner.Begun first) {taken others : List UInt8}
    (left : scanner.rest = taken ++ others) :
    slice (scanner.past taken).start (scanner.past taken).position (scanner.past taken) =
      .done (first :: taken) (scanner.past taken) := by
  have found : scanner.source.drop scanner.start = (first :: taken) ++ others :=
    begun.whole.trans (congrArg _ left)
  refine slice_apply _ found ?_ (Nat.le_of_lt begun.inside)
  · show scanner.position + taken.length = scanner.start + (first :: taken).length
    rw [begun.position, List.length_cons]
    omega

theorem Begun.text (begun : scanner.Begun first) {taken others : List UInt8}
    (left : scanner.rest = taken ++ others) :
    text (scanner.past taken).start (scanner.past taken).position (scanner.past taken) =
      .done (Utf8.decodeLossy (first :: taken)) (scanner.past taken) := by
  rw [Scanner.text, Step.bind_of_done (begun.slice left)]
  rfl

/-- Words are told apart by their bytes. -/
theorem keyword?_eq {bytes : List UInt8} (ascii : ∀ byte ∈ bytes, byte < 0x80) :
    keyword? bytes = Keyword.ofText? (Utf8.decodeLossy bytes) := by
  have same : (fun keyword : Keyword => decide (Utf8.encode keyword.text = bytes)) =
      fun keyword : Keyword => decide (keyword.text = Utf8.decodeLossy bytes) := by
    funext keyword
    exact decide_eq_decide.mpr (Keyword.text_eq_iff ascii keyword).symm
  exact congrArg Keyword.all.find? same

theorem takes_word (begun : scanner.Begun first) (isWord : isWordStart first = true) :
    Takes scanWord scanner first (Piece.run .word first isWordByte scanner.rest) := by
  have taken := advanceWhile_apply (peek_decides isWordByte rfl) (takes_of_ne rfl) scanner
  have left : scanner.rest =
      scanner.rest.takeWhile isWordByte ++ scanner.rest.dropWhile isWordByte :=
    List.takeWhile_append_dropWhile.symm
  have ascii : ∀ byte ∈ first :: scanner.rest.takeWhile isWordByte, byte < 0x80 := by
    intro byte isOne
    refine ascii_of_word byte ?_
    rcases List.mem_cons.mp isOne with rfl | inRun
    · rw [isWordByte, isWord, Bool.true_or]
    · exact takeWhile_all isWordByte _ byte inRun
  unfold Takes
  rw [scanWord, Step.bind_of_done taken, Step.view_bind, id, Step.bind_of_done (begun.slice left),
    keyword?_eq ascii, Piece.run]
  cases known : Keyword.ofText? (Utf8.decodeLossy (first :: scanner.rest.takeWhile isWordByte)) with
  | some keyword => exact ⟨_, _, rfl, rfl, (Piece.item?_reserved known _).symm⟩
  | none => exact ⟨_, _, rfl, rfl, (Piece.item?_name known _).symm⟩

theorem takes_stray (begun : scanner.Begun first) :
    Takes scanStray scanner first (Piece.run .stray first Utf8.isContinuation scanner.rest) := by
  have taken := advanceWhile_apply (atEnd_decides Utf8.isContinuation) (takes_of_ne rfl) scanner
  have left : scanner.rest =
      scanner.rest.takeWhile Utf8.isContinuation ++ scanner.rest.dropWhile Utf8.isContinuation :=
    List.takeWhile_append_dropWhile.symm
  unfold Takes
  rw [scanStray, Step.bind_of_done taken, Step.view_bind, id, Step.bind_of_done (begun.text left)]
  exact ⟨_, _, rfl, rfl, rfl⟩

theorem takes_string (begun : scanner.Begun Byte.quote) :
    Takes scanString scanner Byte.quote (Piece.cutString scanner.rest) := by
  have taken := advanceWhile_apply (atEnd_decides (· != Byte.quote))
    (fun scanner byte others left _ => advanceCounting_apply left) scanner
  have left : scanner.rest =
      scanner.rest.takeWhile (· != Byte.quote) ++ scanner.rest.dropWhile (· != Byte.quote) :=
    List.takeWhile_append_dropWhile.symm
  unfold Takes Piece.cutString
  rw [scanString, Step.bind_of_done taken, Step.view_bind, id, atEnd_eq, rest_past left]
  generalize scanner.rest.takeWhile (· != Byte.quote) = body at left
  cases others : scanner.rest.dropWhile (· != Byte.quote) with
  | nil => exact ⟨_, _, rfl, rfl, rfl⟩
  | cons closing more =>
    obtain rfl : closing = Byte.quote := by simpa using of_dropWhile_cons others
    rw [others] at left
    -- the closing quote comes next, and then the text between the quotes is read again
    have contents : text (scanner.start + 1) (scanner.position + (body ++ [Byte.quote]).length - 1)
        (scanner.past (body ++ [Byte.quote])) =
        .done (Utf8.decodeLossy body) (scanner.past (body ++ [Byte.quote])) := by
      rw [← begun.position]
      refine text_apply _ left ?_ ?_
      · rw [List.length_append]
        rfl
      · rw [begun.position]
        exact begun.inside
    rw [if_neg (by exact Bool.false_ne_true), Step.bind_of_done (advance_apply (rest_past left)),
      Step.view_bind, id, past_of_ne (show Byte.quote ≠ Byte.newline by decide), past_past]
    refine ⟨body ++ [Byte.quote], .ok (some (.string (Utf8.decodeLossy body))), rfl, ?_, ?_⟩
    · exact Step.bind_of_done contents
    · exact congrArg (fun contents => some (Item.token ⟨.string contents, _, _⟩))
        (Piece.contents_string body).symm

theorem takes_symbol (scanner : Scanner) (symbol : Symbol) :
    Takes (scanSymbol symbol) scanner first (Piece.cutSymbol first symbol scanner.rest) := by
  unfold Takes scanSymbol Piece.cutSymbol
  cases symbol.withEqual? with
  | none => exact ⟨[], _, rfl, rfl, rfl⟩
  | some longer =>
    cases left : scanner.rest with
    | nil =>
      have other : scanner.rest.head? ≠ some Byte.equals := by
        rw [left]
        exact nofun
      dsimp only
      rw [Step.bind_of_done (takeByte_of_ne other)]
      exact ⟨[], _, rfl, rfl, rfl⟩
    | cons next others =>
      by_cases isEqual : next = Byte.equals
      · subst isEqual
        dsimp only
        rw [Step.bind_of_done (takeByte_of_rest (by decide) left)]
        exact ⟨[Byte.equals], _, rfl, rfl, rfl⟩
      · have other : scanner.rest.head? ≠ some Byte.equals := by
          rw [left]
          exact fun same => isEqual (Option.some_inj.mp same)
        dsimp only
        rw [Step.bind_of_done (takeByte_of_ne other), if_neg (by simpa using isEqual)]
        exact ⟨[], _, rfl, rfl, rfl⟩

/-- The first line end is as far away as the bytes before it are many. -/
theorem length_takeWhile_newline (bytes : List UInt8) :
    (bytes.takeWhile (· != Byte.newline)).length =
      (bytes.idxOf? Byte.newline).getD bytes.length := by
  induction bytes with
  | nil => rfl
  | cons byte bytes ih =>
    by_cases isEnd : byte = Byte.newline
    · subst isEnd
      rfl
    · rw [List.takeWhile_cons_of_pos (by simpa using isEnd), List.idxOf?_cons,
        if_neg (by simpa using isEnd), List.length_cons, ih]
      cases bytes.idxOf? Byte.newline <;> rfl

/-- A comment is passed over in one jump to the next line end. -/
theorem skipLine_apply (inside : scanner.position ≤ scanner.source.length) :
    skipLine scanner = .done () (scanner.past (scanner.rest.takeWhile (· != Byte.newline))) := by
  have length : scanner.rest.length = scanner.source.length - scanner.position := List.length_drop
  have others : slice scanner.position scanner.source.length scanner =
      .done scanner.rest scanner := by
    have found : scanner.source.drop scanner.position = scanner.rest ++ [] :=
      (List.append_nil _).symm
    exact slice_apply _ found (by omega) inside
  have sameLine : (scanner.rest.takeWhile (· != Byte.newline)).count Byte.newline = 0 := by
    refine List.count_eq_zero.mpr fun inRun => ?_
    exact absurd (takeWhile_all (· != Byte.newline) _ _ inRun) (by simp)
  rw [skipLine, Step.view_bind, id, Step.bind_of_done others, past, sameLine,
    length_takeWhile_newline]
  cases scanner.rest.idxOf? Byte.newline with
  | some distance => rfl
  | none =>
    rw [Option.getD_none, length, Nat.add_sub_cancel' inside]
    rfl

theorem takes_slash (scanner : Scanner) :
    Takes scanSlash scanner Byte.slash (Piece.cut Byte.slash scanner.rest) := by
  unfold Takes scanSlash
  by_cases comment : scanner.rest.head? = some Byte.slash
  · obtain ⟨others, left⟩ := List.head?_eq_some_iff.mp comment
    have after : (scanner.past [Byte.slash]).rest = others := rest_past left
    have inside : (scanner.past [Byte.slash]).position ≤ scanner.source.length := by
      have lengths := congrArg List.length left
      rw [rest, List.length_drop, List.length_cons] at lengths
      show scanner.position + 1 ≤ _
      omega
    rw [Step.bind_of_done (takeByte_of_rest (by decide) left), if_pos rfl,
      Step.bind_of_done (skipLine_apply inside), after, past_past, left, Piece.cut_slashes]
    exact ⟨_, _, rfl, rfl, rfl⟩
  · have noComment : ¬(Byte.slash == Byte.slash && scanner.rest.head? == some Byte.slash) =
        true := by
      rw [beq_self_eq_true, Bool.true_and]
      exact fun same => comment (eq_of_beq same)
    rw [Step.bind_of_done (takeByte_of_ne comment), if_neg Bool.false_ne_true,
      Piece.cut_symbol (show Symbol.ofByte? Byte.slash = some .slash from rfl) noComment]
    exact ⟨[], _, rfl, rfl, rfl⟩

theorem takes_digits (scanner : Scanner) :
    advanceWhile (fun scanner => isDigitByte scanner.peek) (do let _ ← advance) scanner =
      .done () (scanner.past (scanner.rest.takeWhile isDigitByte)) :=
  advanceWhile_apply (peek_decides isDigitByte rfl) (takes_of_ne rfl) scanner

theorem takes_number (begun : scanner.Begun first) :
    Takes scanNumber scanner first (Piece.cutNumber first scanner.rest) := by
  have left : scanner.rest =
      scanner.rest.takeWhile isDigitByte ++ scanner.rest.dropWhile isDigitByte :=
    List.takeWhile_append_dropWhile.symm
  unfold Takes scanNumber Piece.cutNumber
  dsimp only
  rw [Step.bind_of_done (takes_digits scanner), Step.view_bind, id, peek_eq,
    peekNext_eq, rest_past left]
  generalize scanner.rest.takeWhile isDigitByte = whole at left
  have ends (taken others : List UInt8) (left : scanner.rest = taken ++ others) : ∃ found,
      (do
        let scanner ← Step.view id
        let digits ← text scanner.start scanner.position
        return .ok (some (.number (readNumber digits.toList))) : Scan Found) (scanner.past taken) =
        .done found (scanner.past taken) ∧
      ∀ line, itemOf found (Piece.text ⟨.number, first :: taken⟩) line =
        Piece.item? ⟨.number, first :: taken⟩ line := by
    rw [Step.view_bind, id, Step.bind_of_done (begun.text left)]
    exact ⟨_, rfl, fun _ => rfl⟩
  obtain ⟨found, ran, item⟩ := ends whole _ left
  cases others : scanner.rest.dropWhile isDigitByte with
  | nil => exact ⟨whole, found, rfl, ran, item _⟩
  | cons point decimals =>
    rw [others] at left
    cases decimals with
    | nil =>
      have alone : (point == Byte.dot && isDigitByte 0) = false := Bool.and_false _
      refine ⟨whole, found, rfl, ?_, item _⟩
      show (if (point == Byte.dot && isDigitByte 0) = true then _ else _ : Scan Found) _ = _
      rw [alone]
      exact ran
    | cons digit more =>
      dsimp only
      by_cases goesOn : (point == Byte.dot && isDigitByte digit) = true
      · obtain ⟨isPoint, isDigit⟩ := Bool.and_eq_true_iff.mp goesOn
        obtain rfl := eq_of_beq isPoint
        have decimals : ((scanner.past whole).past [Byte.dot]).rest = digit :: more :=
          rest_past (rest_past left)
        have whole' : scanner.rest = (whole ++ Byte.dot :: digit :: more.takeWhile isDigitByte) ++
            more.dropWhile isDigitByte := by
          rw [left, List.append_assoc, List.cons_append, List.cons_append,
            List.takeWhile_append_dropWhile]
        obtain ⟨found, ran, item⟩ := ends _ _ whole'
        rw [if_pos goesOn]
        refine ⟨_, found, rfl, ?_, item _⟩
        show (if (Byte.dot == Byte.dot && isDigitByte digit) = true then _ else _ : Scan Found) _ =
          _
        rw [if_pos goesOn, Step.bind_of_done (advance_apply (rest_past left)),
          past_of_ne (show Byte.dot ≠ Byte.newline by decide),
            Step.bind_of_done (takes_digits _), decimals,
          List.takeWhile_cons_of_pos isDigit, past_past, past_past]
        exact ran
      · rw [if_neg goesOn]
        refine ⟨whole, found, rfl, ?_, item _⟩
        show (if (point == Byte.dot && isDigitByte digit) = true then _ else _ : Scan Found) _ = _
        rw [if_neg goesOn]
        exact ran

/-- What is read after the first byte of a piece, which is no blank space. -/
theorem takes_rest (begun : scanner.Begun first) (blank : isBlank first = false) :
    Takes (if first == Byte.slash then scanSlash
      else if first == Byte.quote then scanString
      else if isDigitByte first then scanNumber
      else if isWordStart first then scanWord
      else match Symbol.ofByte? first with
        | some symbol => scanSymbol symbol
        | none => scanStray) scanner first (Piece.cut first scanner.rest) := by
  by_cases slash : first = Byte.slash
  · subst slash
    exact takes_slash scanner
  by_cases quote : first = Byte.quote
  · subst quote
    exact takes_string begun
  rw [if_neg (by simpa using slash), if_neg (by simpa using quote)]
  by_cases digit : isDigitByte first = true
  · rw [if_pos digit, Piece.cut_digit digit]
    exact takes_number begun
  by_cases word : isWordStart first = true
  · rw [if_neg digit, if_pos word, Piece.cut_word word]
    exact takes_word begun word
  rw [if_neg digit, if_neg word]
  cases found : Symbol.ofByte? first with
  | some symbol =>
    rw [Piece.cut_symbol found (by simp [slash])]
    exact takes_symbol scanner symbol
  | none =>
    have cut : Piece.cut first scanner.rest =
        Piece.run .stray first Utf8.isContinuation scanner.rest := by
      simp [Piece.cut, blank, slash, quote, digit, word, found]
    rw [cut]
    exact takes_stray begun

end

/-- **Reading a piece byte by byte takes the piece that is cut off, and finds what it yields.** -/
theorem takes_piece (start : scanner.start = scanner.position) {first : UInt8} {others : List UInt8}
    (left : scanner.rest = first :: others) :
    ∃ found, scanPiece scanner = .done found (scanner.past (Piece.cut first others).1.bytes) ∧
      itemOf found (Piece.cut first others).1.text
          (scanner.past (Piece.cut first others).1.bytes).line =
        (Piece.cut first others).1.item? (scanner.past (Piece.cut first others).1.bytes).line := by
  rw [scanPiece, Step.bind_of_done (advance_apply left)]
  by_cases blank : isBlank first = true
  · rw [if_pos blank, Piece.cut_blank blank]
    by_cases isEnd : first = Byte.newline
    · subst isEnd
      exact ⟨_, rfl, rfl⟩
    · rw [past_of_ne isEnd]
      dsimp only
      rw [if_neg (by simpa using isEnd)]
      exact ⟨_, rfl, rfl⟩
  · have differs : first ≠ Byte.newline := by
      rintro rfl
      exact blank rfl
    have begun : (scanner.past [first]).Begun first := by
      refine ⟨?_, congrArg (· + 1) start.symm⟩
      rw [rest_past left]
      show scanner.source.drop scanner.start = _
      rw [start]
      exact left
    obtain ⟨taken, found, bytes, ran, item⟩ := takes_rest begun (Bool.eq_false_iff.mpr blank)
    rw [rest_past left] at bytes item
    rw [if_neg blank, past_of_ne differs, bytes]
    rw [past_past] at ran item
    exact ⟨found, ran, item⟩

/-! ### Calls for items -/

/-- The items that are left. -/
def remaining (scanner : Scanner) : List Item :=
  if scanner.position ≤ scanner.source.length then itemsFrom scanner.line (pieces scanner.rest)
    else []

theorem remaining_begin (source : List UInt8) : (begin source).remaining = items source :=
  if_pos (Nat.zero_le _)

/-- After a piece, what is left is what the pieces after it yield. -/
theorem remaining_past {bytes others : List UInt8} (left : scanner.rest = bytes ++ others)
    (inside : scanner.position ≤ scanner.source.length) :
    (scanner.past bytes).remaining = itemsFrom (scanner.past bytes).line (pieces others) := by
  have lengths := congrArg List.length left
  rw [rest, List.length_drop, List.length_append] at lengths
  have stillInside : (scanner.past bytes).position ≤ (scanner.past bytes).source.length := by
    show scanner.position + bytes.length ≤ scanner.source.length
    omega
  rw [remaining, if_pos stillInside, rest_past left]

/-- **A call hands out the first of the items that are left.** -/
theorem nextWithin_apply {rounds : Nat} (scanner : Scanner)
    (enough : scanner.rest.length < rounds) :
    ∃ later, nextWithin rounds scanner = .done scanner.remaining.head? later ∧
      later.remaining = scanner.remaining.tail := by
  induction rounds generalizing scanner with
  | zero => cases enough
  | succ rounds ih =>
    rw [nextWithin, Step.view_bind, id]
    by_cases beyond : scanner.source.length < scanner.position
    · have nothing : scanner.remaining = [] := if_neg (Nat.not_le_of_lt beyond)
      rw [if_pos beyond, nothing]
      exact ⟨scanner, rfl, nothing⟩
    rw [if_neg beyond]
    have inside : scanner.position ≤ scanner.source.length := Nat.le_of_not_lt beyond
    have isLeft : scanner.remaining = itemsFrom scanner.line (pieces scanner.rest) := if_pos inside
    by_cases atEnd : scanner.position = scanner.source.length
    · have nothing : scanner.rest = [] := List.drop_eq_nil_of_le (Nat.le_of_eq atEnd.symm)
      rw [nothing] at isLeft
      rw [if_pos atEnd, isLeft]
      exact ⟨_, rfl, if_neg (by show ¬scanner.position + 1 ≤ scanner.source.length; omega)⟩
    rw [if_neg atEnd]
    cases left : scanner.rest with
    | nil =>
      have atEnd' : scanner.source.length ≤ scanner.position := List.drop_eq_nil_iff.mp left
      omega
    | cons first others =>
      obtain ⟨taken, bytes, whole⟩ := Piece.cut_bytes first others
      have apart : first :: others =
          (Piece.cut first others).1.bytes ++ (Piece.cut first others).2 := by
        rw [bytes, List.cons_append, whole]
      -- the piece is read by a scanner that remembers where it starts
      let marked : Scanner := { scanner with start := scanner.position }
      have leftMarked : marked.rest =
          (Piece.cut first others).1.bytes ++ (Piece.cut first others).2 :=
        left.trans apart
      obtain ⟨found, ran, item⟩ := @takes_piece marked rfl first others left
      have after := remaining_past leftMarked inside
      have isLeft : scanner.remaining =
          ((Piece.cut first others).1.item?
            (marked.past (Piece.cut first others).1.bytes).line).toList ++
            (marked.past (Piece.cut first others).1.bytes).remaining := by
        rw [isLeft, left, pieces_cons, after]
        rfl
      rw [isLeft, ← item]
      show ∃ later, (scanPiece >>= _) marked = _ ∧ _
      rw [Step.bind_of_done ran]
      cases found with
      | error diagnostic => exact ⟨_, rfl, rfl⟩
      | ok kind =>
        cases kind with
        | none =>
          refine ih _ ?_
          have lengths := congrArg List.length whole
          rw [List.length_append] at lengths
          rw [left, List.length_cons] at enough
          rw [rest_past leftMarked]
          omega
        | some kind =>
          have lexeme := text_apply (marked.past (Piece.cut first others).1.bytes)
            leftMarked rfl inside
          refine ⟨_, ?_, rfl⟩
          exact Step.bind_of_done lexeme

theorem next_apply (scanner : Scanner) :
    ∃ later, next scanner = .done scanner.remaining.head? later ∧
      later.remaining = scanner.remaining.tail := by
  rw [next, Step.view_bind]
  exact nextWithin_apply scanner (Nat.lt_succ_of_le (length_rest_le scanner))

/-- The answers to any number of calls are the items that are left, and nothing after them. -/
theorem calls_apply (count : Nat) (scanner : Scanner) :
    ∃ later, calls count scanner =
      .done ((List.range count).map fun index => scanner.remaining[index]?) later := by
  induction count generalizing scanner with
  | zero => exact ⟨scanner, rfl⟩
  | succ count ih =>
    obtain ⟨between, ran, left⟩ := next_apply scanner
    obtain ⟨later, others⟩ := ih between
    refine ⟨later, ?_⟩
    rw [calls, Step.bind_of_done ran, Step.bind_of_done others, List.range_succ_eq_map,
      List.map_cons, List.map_map, List.head?_eq_getElem?, left]
    simp only [List.getElem?_tail]
    rfl

end Scanner

/-! ### The longest-match lexer -/

/-- **The scanner is the longest-match lexer of its rules.** There is exactly one way to cut a text
into pieces that are each the longest the rules allow, and put together they are the text. Each
piece that is neither blank space nor a comment yields the token or the diagnostic of its bytes, in
order, and at the end there is one end token. A scanner that is called any number of times hands out
these items one by one, and nothing after them; it never reads out of range. -/
theorem scans_longest_pieces (source : List UInt8) :
    (∀ parts, Cuts source parts ↔ parts = pieces source) ∧
      (pieces source).flatMap Piece.bytes = source ∧
      (∃ yielded line, items source = yielded ++ [.token (.finish line)] ∧
        List.Forall₂ Piece.Yields ((pieces source).filter Piece.isSolid) yielded) ∧
      ∀ count, ∃ later, Scanner.calls count (.begin source) =
        .done ((List.range count).map fun index => (items source)[index]?) later := by
  have cuts : Cuts source (pieces source) := cuts_iff.mpr rfl
  refine ⟨fun _ => cuts_iff, cuts.whole, ⟨_, _, itemsFrom_eq 1 _, cuts.yields 1⟩, fun count => ?_⟩
  rw [← Scanner.remaining_begin]
  exact Scanner.calls_apply count (.begin source)

end Lox
