/-
**The tokens of a source text.**

* `Item` — what a piece of the text yields: a token, or a diagnostic. Blank space and comments yield
  nothing.
* `items` — everything that a text yields, in order, with the end token last. The line of each item
  is one more than the number of line ends up to the end of its piece.
* `tokensOf`, `diagnosticsOf` — the two kinds of items apart.
-/

import Lox.Decimal.Layout
import Lox.Diagnostic
import Lox.Token.Piece

namespace Lox

/-- What a piece of a source text yields. -/
inductive Item where
  | token (token : Token)
  | diagnostic (diagnostic : Diagnostic)
deriving DecidableEq

namespace Item

/-- The line of an item. -/
def line : Item → Nat
  | .token t => t.line
  | .diagnostic d => d.line

/-- The token, if the item is one. -/
def token? : Item → Option Token
  | .token t => some t
  | .diagnostic _ => none

/-- The diagnostic, if the item is one. -/
def diagnostic? : Item → Option Diagnostic
  | .token _ => none
  | .diagnostic d => some d

end Item

/-- The number that a text stands for: digits, and perhaps a point and more digits. -/
def readNumber (text : List Char) : Float :=
  readDecimal (text.takeWhile (· != '.')) ((text.dropWhile (· != '.')).drop 1)

namespace Piece

/-- The number of line ends in a piece. -/
def lineEnds (piece : Piece) : Nat :=
  piece.bytes.count Byte.newline

/-- The text of a piece. -/
def text (piece : Piece) : String :=
  Utf8.decodeLossy piece.bytes

/-- The text of a string between its quotes. -/
def contents (piece : Piece) : String :=
  Utf8.decodeLossy piece.bytes.tail.dropLast

/-- What a piece that ends on `line` yields. -/
def item? (piece : Piece) (line : Nat) : Option Item :=
  match piece.shape with
  | .blank => none
  | .comment => none
  | .symbol symbol => some (.token ⟨.symbol symbol, piece.text, line⟩)
  | .number => some (.token ⟨.number (readNumber piece.text.toList), piece.text, line⟩)
  | .word =>
    match Keyword.ofText? piece.text with
    | some keyword => some (.token ⟨.keyword keyword, piece.text, line⟩)
    | none => some (.token ⟨.identifier, piece.text, line⟩)
  | .string => some (.token ⟨.string piece.contents, piece.text, line⟩)
  | .openString => some (.diagnostic ⟨line, .characters, .unterminatedString⟩)
  | .stray => some (.diagnostic ⟨line, .characters, .unexpectedCharacter piece.text⟩)

end Piece

/-- What pieces yield that start on `line`, and the end token. -/
def itemsFrom (line : Nat) : List Piece → List Item
  | [] => [.token (.finish line)]
  | piece :: rest =>
    let line := line + piece.lineEnds
    (piece.item? line).toList ++ itemsFrom line rest

/-- Everything that a source text yields, with the end token last. -/
def items (source : List UInt8) : List Item :=
  itemsFrom 1 (pieces source)

/-- The tokens of a source text, with the end token last. -/
def tokensOf (source : List UInt8) : List Token :=
  (items source).filterMap Item.token?

/-- The diagnostics of a source text that concern its characters. -/
def diagnosticsOf (source : List UInt8) : List Diagnostic :=
  (items source).filterMap Item.diagnostic?

end Lox
