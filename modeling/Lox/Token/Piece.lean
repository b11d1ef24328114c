/-
**A source text cut into pieces.**

* `Shape`, `Piece` — a run of bytes and what it is: blank space, a comment, a symbol, a number, a
  word, a string, a string that never ends, or a stray character.
* `Piece.cut` — the piece at the start of a text, which is the longest that the rules allow there,
  and the bytes after it.
* `pieces` — all pieces of a text, in order. Their bytes put together are the text.

The rules look at bytes. Only the ASCII bytes mean anything to them, and a stray character
takes the continuation bytes of UTF-8 after it along, so that no character of a
well-formed text is cut in two.
-/

import Lox.Text.Utf8
import Lox.Token

namespace Lox

/-! ### Bytes -/

namespace Byte

/-- The end of a line. -/
def newline : UInt8 := 0x0A

/-- The byte of `"`. -/
def quote : UInt8 := 0x22

/-- The byte of `/`. -/
def slash : UInt8 := 0x2F

/-- The byte of `.`. -/
def dot : UInt8 := 0x2E

/-- The byte of `=`. -/
def equals : UInt8 := 0x3D

end Byte

/-- A decimal digit in ASCII. -/
def isDigitByte (byte : UInt8) : Bool :=
  0x30 ≤ byte && byte ≤ 0x39

/-- A byte that a word can start with: an ASCII letter or `_`. -/
def isWordStart (byte : UInt8) : Bool :=
  (0x61 ≤ byte && byte ≤ 0x7A) || (0x41 ≤ byte && byte ≤ 0x5A) || byte == 0x5F

/-- A byte that a word can go on with. -/
def isWordByte (byte : UInt8) : Bool :=
  isWordStart byte || isDigitByte byte

/-- A space, a tab, or the end of a line. -/
def isBlank (byte : UInt8) : Bool :=
  byte == 0x20 || byte == 0x0D || byte == 0x09 || byte == Byte.newline

/-! ### Pieces -/

/-- What a piece of a source text is. -/
inductive Shape where
  /-- One byte of blank space. -/
  | blank
  /-- From `//` up to the end of the line, without it. -/
  | comment
  | symbol (symbol : Symbol)
  | number
  /-- A name or a reserved word. -/
  | word
  /-- From one quote to the next. -/
  | string
  /-- From a quote to the end of the text. -/
  | openString
  /-- A character that starts nothing else. -/
  | stray
deriving DecidableEq, Repr

/-- A piece of a source text. -/
structure Piece where
  shape : Shape
  bytes : List UInt8
deriving DecidableEq, Repr

namespace Piece

/-- A piece of a first byte and the longest run of bytes after it that satisfy a test. -/
def run (shape : Shape) (first : UInt8) (test : UInt8 → Bool) (rest : List UInt8) :
    Piece × List UInt8 :=
  (⟨shape, first :: rest.takeWhile test⟩, rest.dropWhile test)

/-- A string, from the quote before `rest`. -/
def cutString (rest : List UInt8) : Piece × List UInt8 :=
  let body := rest.takeWhile (· != Byte.quote)
  match rest.dropWhile (· != Byte.quote) with
  | [] => (⟨.openString, Byte.quote :: body⟩, [])
  | closing :: others => (⟨.string, Byte.quote :: body ++ [closing]⟩, others)

/-- A number, from the digit `first`. A point belongs to it only if a digit follows. -/
def cutNumber (first : UInt8) (rest : List UInt8) : Piece × List UInt8 :=
  let whole := first :: rest.takeWhile isDigitByte
  match rest.dropWhile isDigitByte with
  | point :: digit :: others =>
    if point == Byte.dot && isDigitByte digit then
      (⟨.number, whole ++ point :: digit :: others.takeWhile isDigitByte⟩,
        others.dropWhile isDigitByte)
    else (⟨.number, whole⟩, point :: digit :: others)
  | others => (⟨.number, whole⟩, others)

/-- A symbol, from the byte `first`, with an equals sign after it if the two are one symbol. -/
def cutSymbol (first : UInt8) (symbol : Symbol) (rest : List UInt8) : Piece × List UInt8 :=
  match symbol.withEqual?, rest with
  | some longer, next :: others =>
    if next == Byte.equals then (⟨.symbol longer, [first, next]⟩, others)
    else (⟨.symbol symbol, [first]⟩, rest)
  | _, _ => (⟨.symbol symbol, [first]⟩, rest)

/-- The piece that starts with `first`, and the bytes after it. -/
def cut (first : UInt8) (rest : List UInt8) : Piece × List UInt8 :=
  if isBlank first then (⟨.blank, [first]⟩, rest)
  else if first == Byte.slash && rest.head? == some Byte.slash then
    run .comment first (· != Byte.newline) rest
  else if first == Byte.quote then cutString rest
  else if isDigitByte first then cutNumber first rest
  else if isWordStart first then run .word first isWordByte rest
  else
    match Symbol.ofByte? first with
    | some symbol => cutSymbol first symbol rest
    | none => run .stray first Utf8.isContinuation rest

end Piece

/-- The pieces of a text, at most `count` of them. -/
def piecesWithin : (count : Nat) → List UInt8 → List Piece
  | 0, _ => []
  | _ + 1, [] => []
  | count + 1, first :: rest =>
    let (piece, others) := Piece.cut first rest
    piece :: piecesWithin count others

/-- The pieces of a text; each takes a byte at least, so that it has no more pieces than bytes. -/
def pieces (source : List UInt8) : List Piece :=
  piecesWithin source.length source

end Lox
