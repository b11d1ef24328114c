/-
**What a source text is read as.**

* `itemsOf line pieces` — what pieces yield that start on a line, without an end token.
* `innerTokens`, `tokensOf_eq` — the tokens of a text are inner tokens, of which none is an end
  token, and one end token after them.
* `readWith_eq_ok` — a text is read exactly if none of its characters is wrong
  and its tokens are parsed.
* `derives_of_readProgram`, `derives_of_readExpression` — what is read is the tree of a derivation.
-/

import Lox.Source
import Lox.Proofs.Grammar.Exact

namespace Lox

/-! ### Items and tokens -/

/-- What pieces yield that start on `line`, without an end token. -/
def itemsOf (line : Nat) : List Piece → List Item
  | [] => []
  | piece :: rest =>
    (piece.item? (line + piece.lineEnds)).toList ++ itemsOf (line + piece.lineEnds) rest

/-- The number of line ends in pieces. -/
def lineEndsOf : List Piece → Nat
  | [] => 0
  | piece :: rest => piece.lineEnds + lineEndsOf rest

theorem itemsFrom_append (line : Nat) (first rest : List Piece) :
    itemsFrom line (first ++ rest) =
      itemsOf line first ++ itemsFrom (line + lineEndsOf first) rest := by
  induction first generalizing line with
  | nil => rfl
  | cons piece others ih =>
    have lines : line + lineEndsOf (piece :: others) =
        line + piece.lineEnds + lineEndsOf others := by
      rw [lineEndsOf, Nat.add_assoc]
    rw [List.cons_append, itemsFrom, itemsOf, ih, lines, List.append_assoc]

theorem itemsFrom_eq (line : Nat) (pieces : List Piece) :
    itemsFrom line pieces =
      itemsOf line pieces ++ [.token (.finish (line + lineEndsOf pieces))] := by
  have ended := itemsFrom_append line pieces []
  rwa [List.append_nil] at ended

/-- The tokens of a text before its end token. -/
def innerTokens (source : List UInt8) : List Token :=
  (itemsOf 1 (pieces source)).filterMap Item.token?

/-- The end token of a text. -/
def endToken (source : List UInt8) : Terminal .eof :=
  ⟨.finish (1 + lineEndsOf (pieces source)), rfl⟩

theorem tokensOf_eq (source : List UInt8) :
    tokensOf source = innerTokens source ++ [(endToken source).1] := by
  rw [tokensOf, items, itemsFrom_eq, List.filterMap_append]
  rfl

/-- No piece yields an end token. -/
theorem Piece.item?_ne_end {piece : Piece} {line : Nat} {token : Token}
    (yields : piece.item? line = some (.token token)) : token.kind ≠ .eof := by
  unfold Piece.item? at yields
  split at yields
  case h_5 =>
    split at yields <;> cases yields <;> exact Kind.noConfusion
  all_goals cases yields
  all_goals exact Kind.noConfusion

theorem exists_piece_of_mem_itemsOf {line : Nat} {parts : List Piece} {item : Item}
    (isItem : item ∈ itemsOf line parts) :
    ∃ piece ∈ parts, ∃ line, piece.item? line = some item := by
  induction parts generalizing line with
  | nil => cases isItem
  | cons piece rest ih =>
    rcases List.mem_append.mp isItem with isFirst | isOther
    · exact ⟨piece, List.mem_cons_self, _, Option.mem_toList.mp isFirst⟩
    · obtain ⟨other, isPiece, yields⟩ := ih isOther
      exact ⟨other, List.mem_cons_of_mem piece isPiece, yields⟩

/-- Every inner token is that of a piece. -/
theorem exists_piece_of_mem {source : List UInt8} {token : Token}
    (isToken : token ∈ innerTokens source) :
    ∃ piece ∈ pieces source, ∃ line, piece.item? line = some (.token token) := by
  obtain ⟨item, isItem, same⟩ := List.mem_filterMap.mp isToken
  cases item with
  | token found =>
    obtain rfl := Option.some.inj same
    exact exists_piece_of_mem_itemsOf isItem
  | diagnostic => cases same

theorem innerTokens_ne_end (source : List UInt8) :
    ∀ token ∈ innerTokens source, token.kind ≠ .eof := by
  intro token isToken
  obtain ⟨_, -, _, isItem⟩ := exists_piece_of_mem isToken
  exact Piece.item?_ne_end isItem

/-! ### Reading -/

theorem withCharacters_eq_ok {α : Type} {characters : List Diagnostic}
    {result : Except (List Diagnostic) α} {value : α} :
    withCharacters characters result = .ok value ↔ characters = [] ∧ result = .ok value := by
  cases result with
  | error => simp [withCharacters]
  | ok found =>
    cases characters with
    | nil => simp [withCharacters]
    | cons => simp [withCharacters]

/-- A text is read if none of its characters is wrong and its tokens are parsed. -/
theorem readWith_eq_ok {α : Type} {parse : List Token → Nat → Except (List Diagnostic) α × Nat}
    {source : String} {nextNode later : Nat} {value : α} :
    readWith parse source nextNode = (.ok value, later) ↔
      diagnosticsOf (Utf8.encode source) = [] ∧
        parse (tokensOf (Utf8.encode source)) nextNode = (.ok value, later) := by
  unfold readWith
  dsimp only
  constructor
  · intro read
    obtain ⟨isValue, isLater⟩ := Prod.mk.inj read
    obtain ⟨clean, parsed⟩ := withCharacters_eq_ok.mp isValue
    exact ⟨clean, Prod.ext parsed isLater⟩
  · rintro ⟨clean, parsed⟩
    rw [parsed]
    exact Prod.ext (withCharacters_eq_ok.mpr ⟨clean, rfl⟩) rfl

theorem derives_of_readProgram {source : String} {nextNode later : Nat} {program : List Stmt}
    (read : readProgram source nextNode = (.ok program, later)) :
    ∃ tree, Derives true .declarations (innerTokens (Utf8.encode source)) tree ∧
      tree nextNode = (program, later) := by
  obtain ⟨-, parsed⟩ := readWith_eq_ok.mp read
  rw [tokensOf_eq] at parsed
  exact derives_of_parseProgram (innerTokens_ne_end _) parsed

theorem derives_of_readExpression {source : String} {nextNode later : Nat} {value : Expr}
    (read : readExpression source nextNode = (.ok value, later)) :
    ∃ tree, Derives true .expression (innerTokens (Utf8.encode source)) tree ∧
      tree nextNode = (value, later) := by
  obtain ⟨-, parsed⟩ := readWith_eq_ok.mp read
  rw [tokensOf_eq] at parsed
  exact derives_of_parseExpression (innerTokens_ne_end _) parsed

end Lox
