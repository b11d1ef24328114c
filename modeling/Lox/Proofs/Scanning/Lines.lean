/-
**The line of an item is one more than the number of line ends up to the end of its piece.**

* `Scanner.HandsOut` — a scanner that is called any number of times hands out these items, and
  nothing after them.
* `Placed`, `placed` — a piece with the index of its first byte. Each is the longest piece in its
  place (`longest_of_placed`).
* `Placed.Yields` — the item is that of the piece, and its line counts the line ends
  before the end of the piece.
* `line_le_of_itemsFrom`, `items_inLineOrder` — the lines of items never decrease.
* `lines_count_newlines` — each item that a scanner hands out, and the end token, is on its line.
-/

import Lox.Proofs.Scanning.Calls

namespace Lox

/-! ### What a scanner hands out -/

/-- A scanner of the text that is called any number of times hands out these items one by one, and
nothing after them. -/
def Scanner.HandsOut (source : List UInt8) (given : List Item) : Prop :=
  ∀ count, ∃ later, calls count (.begin source) =
    .done ((List.range count).map fun index => given[index]?) later

theorem Scanner.handsOut_items (source : List UInt8) : HandsOut source (items source) := by
  intro count
  rw [← remaining_begin]
  exact calls_apply count (.begin source)

/-! ### Pieces in their places -/

/-- A piece of a text, and the index of its first byte. -/
structure Placed where
  piece : Piece
  start : Nat

/-- The index of the byte after the piece. -/
def Placed.stop (place : Placed) : Nat :=
  place.start + place.piece.bytes.length

/-- Consecutive pieces, the first of which starts at this index. -/
def placedFrom (start : Nat) : List Piece → List Placed
  | [] => []
  | piece :: rest => ⟨piece, start⟩ :: placedFrom (start + piece.bytes.length) rest

/-- The pieces of a text in their places. -/
def placed (source : List UInt8) : List Placed :=
  placedFrom 0 (pieces source)

/-- From its first byte on, a text is cut into its pieces. -/
theorem cuts_from_start (source : List UInt8) : Cuts (source.drop 0) (pieces source) :=
  cuts_iff.mpr rfl

section

variable {source : List UInt8} {start : Nat} {piece : Piece} {after : List UInt8}

/-- What comes after a piece is what comes after its last byte. -/
theorem drop_stop (whole : source.drop start = piece.bytes ++ after) :
    source.drop (start + piece.bytes.length) = after := by
  rw [← List.drop_drop, whole, List.drop_left]

/-- What comes before the end of a piece is what comes before it, and the piece. -/
theorem take_stop (whole : source.drop start = piece.bytes ++ after) :
    source.take (start + piece.bytes.length) = source.take start ++ piece.bytes := by
  rw [List.take_add, whole, List.take_left]

/-- The first piece is the longest in its place, and what comes after it is cut into the others. -/
theorem Cuts.cons_placed {others : List Piece} (cuts : Cuts (source.drop start) (piece :: others)) :
    piece.Longest (source.drop start) (source.drop (start + piece.bytes.length)) ∧
      Cuts (source.drop (start + piece.bytes.length)) others := by
  generalize isRest : source.drop start = rest at cuts ⊢
  cases cuts with
  | @cons _ _ after _ longest cutsAfter =>
    have left : source.drop (start + piece.bytes.length) = after :=
      drop_stop (isRest.trans longest.whole)
    rw [left]
    exact ⟨longest, cutsAfter⟩

/-- A text that is cut from an index on has each piece in its place. -/
theorem longest_of_placedFrom {parts : List Piece} (cuts : Cuts (source.drop start) parts) :
    ∀ place ∈ placedFrom start parts,
      place.piece.Longest (source.drop place.start) (source.drop place.stop) := by
  induction parts generalizing start with
  | nil => exact nofun
  | cons piece rest ih =>
    obtain ⟨longest, others⟩ := cuts.cons_placed
    exact List.forall_mem_cons.mpr ⟨longest, ih others⟩

/-- **Each piece is the longest in its place.** -/
theorem longest_of_placed {place : Placed} (isPlace : place ∈ placed source) :
    place.piece.Longest (source.drop place.start) (source.drop place.stop) :=
  longest_of_placedFrom (cuts_from_start source) place isPlace

end

/-! ### Lines -/

/-- The line of an item is the line that its piece ends on. -/
theorem Piece.line_of_item? {piece : Piece} {line : Nat} {item : Item}
    (isItem : piece.item? line = some item) :
    item.line = line := by
  unfold Piece.item? at isItem
  split at isItem
  case h_5 => split at isItem <;> cases isItem <;> rfl
  all_goals cases isItem
  all_goals rfl

/-- No item is on a line before the one on which the pieces start. -/
theorem line_le_of_itemsFrom {line : Nat} {parts : List Piece} {item : Item}
    (isItem : item ∈ itemsFrom line parts) :
    line ≤ item.line := by
  induction parts generalizing line with
  | nil =>
    obtain rfl := List.mem_singleton.mp isItem
    exact Nat.le_refl line
  | cons piece rest ih =>
    refine Nat.le_trans (Nat.le_add_right line piece.lineEnds) ?_
    rcases List.mem_append.mp isItem with isFirst | isOther
    · exact Nat.le_of_eq (Piece.line_of_item? (Option.mem_toList.mp isFirst)).symm
    · exact ih isOther

/-- **Lines never decrease.** -/
theorem items_inLineOrder (source : List UInt8) :
    (items source).Pairwise fun first second => first.line ≤ second.line := by
  unfold items
  generalize pieces source = parts, 1 = line
  induction parts generalizing line with
  | nil => exact List.pairwise_singleton _ _
  | cons piece rest ih =>
    refine List.pairwise_append.mpr ⟨?_, ih _, fun first isFirst second isSecond => ?_⟩
    · cases piece.item? (line + piece.lineEnds) with
      | none => exact .nil
      | some item => exact List.pairwise_singleton _ item
    · rw [Piece.line_of_item? (Option.mem_toList.mp isFirst)]
      exact line_le_of_itemsFrom isSecond

/-- The item is that of the piece. Its line is one more than the number of line ends before the end
of the piece, which are those before the piece and those in it. -/
structure Placed.Yields (source : List UInt8) (place : Placed) (item : Item) : Prop where
  yields : place.piece.Yields item
  line : item.line = 1 + (source.take place.stop).count Byte.newline
  inside : item.line =
    1 + (source.take place.start).count Byte.newline + place.piece.bytes.count Byte.newline

/-- The pieces from an index on yield their items, each on its line. -/
theorem Cuts.yields_placed {source : List UInt8} {start : Nat} {parts : List Piece}
    (cuts : Cuts (source.drop start) parts) :
    List.Forall₂ (Placed.Yields source)
      ((placedFrom start parts).filter fun place => place.piece.isSolid)
      (itemsOf (1 + (source.take start).count Byte.newline) parts) := by
  induction parts generalizing start with
  | nil => exact .nil
  | cons piece rest ih =>
    obtain ⟨longest, others⟩ := cuts.cons_placed
    have counted : (source.take (start + piece.bytes.length)).count Byte.newline =
        (source.take start).count Byte.newline + piece.lineEnds := by
      rw [take_stop longest.whole, List.count_append]
      rfl
    have left := ih others
    rw [counted, ← Nat.add_assoc] at left
    rw [placedFrom, itemsOf, List.filter_cons]
    by_cases solid : piece.isSolid = true
    · obtain ⟨item, isItem, yields⟩ := Piece.yields_item? longest.fits solid
        (1 + (source.take start).count Byte.newline + piece.lineEnds)
      rw [if_pos solid, isItem]
      refine .cons ⟨yields, ?_, Piece.line_of_item? isItem⟩ left
      rw [Piece.line_of_item? isItem, Placed.stop, counted, Nat.add_assoc]
    · rw [if_neg solid, Piece.item?_eq_none (Bool.eq_false_iff.mpr solid)]
      exact left

/-- Nothing comes after a string that never ends. -/
theorem Piece.Longest.atEnd {piece : Piece} {source after : List UInt8}
    (longest : piece.Longest source after) (isOpen : piece.shape = .openString) : after = [] := by
  obtain ⟨shape, bytes⟩ := piece
  have fits := longest.fits
  dsimp only at isOpen fits
  subst isOpen
  cases fits with
  | openString => rfl

/-- A comment goes up to the end of its line, which does not belong to it. -/
theorem Piece.Longest.before_newline {piece : Piece} {source after : List UInt8}
    (longest : piece.Longest source after) (isComment : piece.shape = .comment) :
    Byte.newline ∉ piece.bytes ∧ ∀ byte ∈ after.head?, byte = Byte.newline := by
  obtain ⟨shape, bytes⟩ := piece
  obtain ⟨whole, fits, longest⟩ := longest
  dsimp only at isComment whole fits longest
  subst isComment
  cases fits with
  | @comment body _ noNewline =>
    constructor
    · rintro (_ | ⟨_, _ | ⟨_, inBody⟩⟩)
      exact noNewline inBody
    · intro byte isNext
      obtain ⟨others, rfl⟩ := List.head?_eq_some_iff.mp isNext
      by_contra differs
      -- with any other byte after it, the comment would be longer
      have longer := longest .comment (Byte.slash :: Byte.slash :: (body ++ [byte])) others
        (by rw [whole]; simp) (.comment (by simpa [noNewline] using Ne.symm differs))
      simp only [List.length_cons, List.length_append, List.length_nil] at longer
      omega

/-- **Line numbers count line ends exactly.** Each piece of a text is the longest in its place. A
scanner hands out one item for each piece that is neither blank space nor a comment, in order, and
its line is one more than the number of line ends before the end of the piece; then comes the end
token, on the line after all line ends. Of these, a string that never ends has all before it, too;
and the line end that ends a comment comes right after it, as the first that does not count there.
Lines never decrease. -/
theorem lines_count_newlines (source : List UInt8) :
    ∃ yielded : List Item,
      Scanner.HandsOut source (yielded ++ [.token (.finish (1 + source.count Byte.newline))]) ∧
      List.Forall₂ (Placed.Yields source)
        ((placed source).filter fun place => place.piece.isSolid) yielded ∧
      (∀ place ∈ placed source,
        place.piece.Longest (source.drop place.start) (source.drop place.stop) ∧
        (place.piece.shape = .openString → source.take place.stop = source) ∧
        (place.piece.shape = .comment →
          Byte.newline ∉ place.piece.bytes ∧ ∀ byte ∈ source[place.stop]?, byte = Byte.newline)) ∧
      (yielded ++ [Item.token (.finish (1 + source.count Byte.newline))]).Pairwise
        fun first second => first.line ≤ second.line := by
  have whole : items source =
      itemsOf 1 (pieces source) ++ [.token (.finish (1 + source.count Byte.newline))] := by
    rw [items, itemsFrom_eq, lineEndsOf_pieces]
  refine ⟨itemsOf 1 (pieces source), ?_, (cuts_from_start source).yields_placed, ?_, ?_⟩
  · rw [← whole]
    exact Scanner.handsOut_items source
  · intro place isPlace
    have longest := longest_of_placed isPlace
    refine ⟨longest, fun isOpen => ?_, fun isComment => ?_⟩
    · exact List.take_of_length_le (List.drop_eq_nil_iff.mp (longest.atEnd isOpen))
    · rw [← List.head?_drop]
      exact longest.before_newline isComment
  · rw [← whole]
    exact items_inLineOrder source

end Lox
