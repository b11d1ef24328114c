/-
**A scanner that hands out the items of a source text one by one.**

* `Scanner` — a source text, and how far it has been read.
* `Scan α` — a computation over a scanner. It fails where a byte or a range of bytes is asked for
  that is not in the text; nothing else can go wrong.
* `Scanner.scanPiece` — reads one piece, byte by byte.
* `Scanner.next` — reads up to the next item. After the last byte that is the end token, which moves
  the position past the end of the text; from then on there is none.
-/

import Lox.Outcome
import Lox.Token.Scan

namespace Lox

/-- A source text that is being read. -/
structure Scanner where
  source : List UInt8
  /-- The index of the first byte of the current piece. -/
  start : Nat
  /-- The index of the next byte. Once the end token is out, it is one more than the number of
  bytes. -/
  position : Nat
  line : Nat

/-- A byte or a range of bytes that is not in the text. -/
inductive OutOfRange where
  | byte (index : Nat)
  | range (start stop : Nat)
deriving DecidableEq, Repr

/-- A computation over a scanner. -/
abbrev Scan (α : Type) : Type :=
  Step Scanner OutOfRange α

namespace Scanner

/-- A scanner that has read nothing yet. -/
def begin (source : List UInt8) : Scanner :=
  ⟨source, 0, 0, 1⟩

/-- Whether all bytes have been read. -/
def atEnd (scanner : Scanner) : Bool :=
  scanner.source.length ≤ scanner.position

/-- The next byte, or zero at the end. -/
def peek (scanner : Scanner) : UInt8 :=
  scanner.source[scanner.position]?.getD 0

/-- The byte after the next one, or zero at the end. -/
def peekNext (scanner : Scanner) : UInt8 :=
  scanner.source[scanner.position + 1]?.getD 0

/-! ### Reading bytes -/

/-- Takes the next byte, which has to be there. -/
def advance : Scan UInt8 := fun scanner =>
  match scanner.source[scanner.position]? with
  | some byte => .done byte { scanner with position := scanner.position + 1 }
  | none => .failed (.byte scanner.position) scanner

/-- Takes the next byte if it is this one. -/
def takeByte (expected : UInt8) : Scan Bool := do
  let scanner ← Step.view id
  if !scanner.atEnd && scanner.peek == expected then
    let _ ← advance
    return true
  else
    return false

/-- The bytes of a range, which has to lie in the text. -/
def slice (start stop : Nat) : Scan (List UInt8) := fun scanner =>
  if start ≤ stop ∧ stop ≤ scanner.source.length then
    .done ((scanner.source.take stop).drop start) scanner
  else .failed (.range start stop) scanner

/-- The text of a range. -/
def text (start stop : Nat) : Scan String := do
  let bytes ← slice start stop
  return Utf8.decodeLossy bytes

/-- Counts one more line. -/
def countLine : Scan Unit :=
  Step.update fun scanner => { scanner with line := scanner.line + 1 }

/-- Takes the next byte, and counts the line if the byte ends one. -/
def advanceCounting : Scan Unit := do
  if (← advance) == Byte.newline then countLine

/-- Does something again as long as the scanner satisfies a test. -/
def doWhile (goesOn : Scanner → Bool) (body : Scan Unit) : (rounds : Nat) → Scan Unit
  | 0 => Step.exhausted
  | rounds + 1 => do
    if goesOn (← Step.view id) then
      body
      doWhile goesOn body rounds

/-- Takes bytes as long as the scanner satisfies a test; there are no more of them than the text
has. -/
def advanceWhile (goesOn : Scanner → Bool) (body : Scan Unit) : Scan Unit := do
  let bytes ← Step.view fun scanner => scanner.source.length
  doWhile goesOn body (bytes + 1)

/-- Goes to the end of the line, or to the end of the text if the line is the last one. -/
def skipLine : Scan Unit := do
  let scanner ← Step.view id
  let others ← slice scanner.position scanner.source.length
  match others.idxOf? Byte.newline with
  | some distance =>
    Step.update fun scanner => { scanner with position := scanner.position + distance }
  | none => Step.update fun scanner => { scanner with position := scanner.source.length }

/-! ### Reading a piece -/

/-- What reading a piece comes to: a diagnostic, the kind of a token, or nothing. -/
abbrev Found : Type :=
  Except Diagnostic (Option Kind)

/-- The rest of a string. -/
def scanString : Scan Found := do
  advanceWhile (fun scanner => !scanner.atEnd && scanner.peek != Byte.quote) advanceCounting
  let scanner ← Step.view id
  if scanner.atEnd then
    return .error ⟨scanner.line, .characters, .unterminatedString⟩
  else
    let _ ← advance
    let scanner ← Step.view id
    let contents ← text (scanner.start + 1) (scanner.position - 1)
    return .ok (some (.string contents))

/-- The rest of a number. -/
def scanNumber : Scan Found := do
  let takeDigits := advanceWhile (fun scanner => isDigitByte scanner.peek) (do let _ ← advance)
  takeDigits
  let scanner ← Step.view id
  if scanner.peek == Byte.dot && isDigitByte scanner.peekNext then
    let _ ← advance
    takeDigits
  let scanner ← Step.view id
  let digits ← text scanner.start scanner.position
  return .ok (some (.number (readNumber digits.toList)))

/-- The reserved word that is written as these bytes, if there is one. -/
def keyword? (bytes : List UInt8) : Option Keyword :=
  Keyword.all.find? fun keyword => Utf8.encode keyword.text = bytes

/-- The rest of a word. -/
def scanWord : Scan Found := do
  advanceWhile (fun scanner => isWordByte scanner.peek) (do let _ ← advance)
  let scanner ← Step.view id
  let bytes ← slice scanner.start scanner.position
  match keyword? bytes with
  | some keyword => return .ok (some (.keyword keyword))
  | none => return .ok (some .identifier)

/-- The rest of a symbol. -/
def scanSymbol (symbol : Symbol) : Scan Found := do
  match symbol.withEqual? with
  | some longer =>
    if ← takeByte Byte.equals then return .ok (some (.symbol longer))
    else return .ok (some (.symbol symbol))
  | none => return .ok (some (.symbol symbol))

/-- The rest of a comment, or a slash. -/
def scanSlash : Scan Found := do
  if ← takeByte Byte.slash then
    skipLine
    return .ok none
  else
    return .ok (some (.symbol .slash))

/-- The rest of a character that starts nothing. -/
def scanStray : Scan Found := do
  advanceWhile (fun scanner => !scanner.atEnd && Utf8.isContinuation scanner.peek)
    (do let _ ← advance)
  let scanner ← Step.view id
  let character ← text scanner.start scanner.position
  return .error ⟨scanner.line, .characters, .unexpectedCharacter character⟩

/-- A piece of the text, which has not been read to its end. -/
def scanPiece : Scan Found := do
  let first ← advance
  if isBlank first then
    if first == Byte.newline then countLine
    return .ok none
  else if first == Byte.slash then scanSlash
  else if first == Byte.quote then scanString
  else if isDigitByte first then scanNumber
  else if isWordStart first then scanWord
  else
    match Symbol.ofByte? first with
    | some symbol => scanSymbol symbol
    | none => scanStray

/-! ### Reading items -/

/-- The next item, after at most so many pieces that yield nothing. -/
def nextWithin : (rounds : Nat) → Scan (Option Item)
  | 0 => Step.exhausted
  | rounds + 1 => do
    let scanner ← Step.view id
    if scanner.source.length < scanner.position then
      return none
    else if scanner.position = scanner.source.length then
      Step.update fun scanner => { scanner with position := scanner.position + 1 }
      return some (.token (.finish scanner.line))
    else
      Step.update fun scanner => { scanner with start := scanner.position }
      match ← scanPiece with
      | .error diagnostic => return some (.diagnostic diagnostic)
      | .ok (some kind) =>
        let scanner ← Step.view id
        let lexeme ← text scanner.start scanner.position
        return some (.token ⟨kind, lexeme, scanner.line⟩)
      | .ok none => nextWithin rounds

/-- The next item, if there is one. A piece has a byte at least, so that there are
no more pieces than bytes. -/
def next : Scan (Option Item) := do
  let bytes ← Step.view fun scanner => scanner.source.length
  nextWithin (bytes + 1)

/-- The answers to so many calls for the next item. -/
def calls : (count : Nat) → Scan (List (Option Item))
  | 0 => pure []
  | count + 1 => do
    let item ← next
    let others ← calls count
    return item :: others

end Scanner

end Lox
