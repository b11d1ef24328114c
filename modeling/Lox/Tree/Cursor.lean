/-
**Reading tokens one after the other.**

* `Cursor` — the tokens that are left, the diagnostics so far, and the next unused node identity.
* `Parse α` — reading an `α` from a cursor. It fails with the diagnostic that ends it,
  which is not among the cursor's diagnostics yet; a diagnostic that ends nothing is
  recorded and reading goes on.
* `peek`, `takeIf`, `expect` — looking at the next token, taking it if it passes a test, and
  insisting on it. None of them ever goes past an end token.
* `resumption`, `recover` — going on with the next statement after one that failed.
-/

import Lox.Diagnostic
import Lox.Outcome
import Lox.Tree

namespace Lox

/-! ### Places in a token list -/

/-- A place in a token list, with what has been found out on the way there. -/
structure Cursor where
  /-- The tokens that are left. -/
  rest : List Token
  /-- The diagnostics so far, in the order in which they were recorded. -/
  diagnostics : List Diagnostic
  /-- The index of the next unused node identity. -/
  nextNode : Nat

/-- Reading an `α` from a cursor. -/
abbrev Parse (α : Type) : Type :=
  Step Cursor Diagnostic α

/-- The first of some tokens; where none is left, an end token. -/
def firstToken (tokens : List Token) : Token :=
  tokens.headD (.finish 0)

namespace Cursor

/-- The next token. -/
def peek (cursor : Cursor) : Token :=
  firstToken cursor.rest

/-- Whether the next token is the end token. -/
def atEnd (cursor : Cursor) : Bool :=
  cursor.peek.kind = .eof

/-- Whether there is a next token before the end and it passes a test. -/
def sees (cursor : Cursor) (test : Kind → Bool) : Bool :=
  !cursor.atEnd && test cursor.peek.kind

/-- The cursor after the next token. -/
def advance (cursor : Cursor) : Cursor :=
  { cursor with rest := cursor.rest.tail }

/-- The cursor with one more diagnostic. -/
def record (cursor : Cursor) (diagnostic : Diagnostic) : Cursor :=
  { cursor with diagnostics := cursor.diagnostics ++ [diagnostic] }

end Cursor

/-! ### Taking tokens -/

namespace Parse

/-- The next token, which is left where it is. -/
def peek : Parse Token :=
  Step.view Cursor.peek

/-- Whether the next token passes a test. An end token passes none. -/
def sees (test : Kind → Bool) : Parse Bool :=
  Step.view fun cursor => cursor.sees test

/-- Takes the next token if it passes a test. -/
def takeIf (test : Kind → Bool) : Parse (Option Token) := fun cursor =>
  if cursor.sees test then .done (some cursor.peek) cursor.advance else .done none cursor

/-- Takes the next token if it is of a kind, and says whether it did. -/
def takes (kind : Kind) : Parse Bool := do
  let token ← takeIf (· = kind)
  return token.isSome

/-- Fails at the next token. -/
def missing {α : Type} (expected : Expected) : Parse α := fun cursor =>
  .failed (.atToken cursor.peek (.missing expected)) cursor

/-- Takes the next token, which has to be of a kind. -/
def expect (kind : Kind) (expected : Expected) : Parse Token := do
  match ← takeIf (· = kind) with
  | some token => return token
  | none => missing expected

/-- Records a defect at a token, and goes on. -/
def report (token : Token) (defect : Defect) : Parse Unit :=
  Step.update fun cursor => cursor.record (.atToken token defect)

/-- A node identity that was never used before. -/
def freshNode : Parse NodeId := fun cursor =>
  .done ⟨cursor.nextNode⟩ { cursor with nextNode := cursor.nextNode + 1 }

end Parse

/-! ### Going on after a failure -/

/-- Whether a token of this kind starts a statement or a declaration, for the purpose of finding the
next one after a failure. -/
def Kind.startsStatement : Kind → Bool
  | .keyword .class => true
  | .keyword .fun => true
  | .keyword .var => true
  | .keyword .for => true
  | .keyword .if => true
  | .keyword .while => true
  | .keyword .print => true
  | .keyword .return => true
  | _ => false

/-- The tokens from the first statement boundary on: after a semicolon, before a token that starts a
statement, or at the end. `previous` is the token before them. -/
def skipToBoundary (previous : Token) : List Token → List Token
  | [] => []
  | token :: rest =>
    if token.kind = .eof ∨ previous.kind = .symbol .semicolon ∨ token.kind.startsStatement then
      token :: rest
    else skipToBoundary token rest

/-- The tokens after a failure at the first of them: that one is skipped, unless it is the end, and
the others up to the next statement boundary. -/
def resumption : List Token → List Token
  | [] => []
  | token :: rest => if token.kind = .eof then token :: rest else skipToBoundary token rest

/-- Reads something, and on failure records the diagnostic and goes to the next statement
boundary. -/
def Parse.recover {α : Type} (parse : Parse α) : Parse (Option α) := fun cursor =>
  match parse cursor with
  | .done value later => .done (some value) later
  | .failed diagnostic later =>
    .done none { later.record diagnostic with rest := resumption later.rest }
  | .outOfFuel => .outOfFuel

end Lox
