/-
**A parser that reads tokens by their index.**

* `Reader` — a token list, the index of the next token, and what has been found out on the way
  there; each diagnostic stands next to the index of the token that it is about.
* `Read α` — reading an `α`. It fails with the diagnostic that ends it, or where a token is asked
  for that is not in the list.
* `peek`, `previous`, `advance`, `takeIf`, `expect`, `synchronize` — looking at tokens and going
  forward. Only `advance` changes the index, and it stays at an end token.
* `Read.expression`, `Read.declaration` and those between them read one production each, as those of
  the same name over a cursor do.
* `Read.program`, `Read.wholeExpression` — the whole of a token list.
-/

import Lox.Tree.Parse

namespace Lox

/-- A token list that is being read. -/
structure Reader where
  tokens : List Token
  /-- The index of the next token. -/
  position : Nat
  /-- The diagnostics so far, in the order in which they were recorded, each with the index of its
  token. -/
  diagnostics : List (Nat × Diagnostic)
  /-- The index of the next unused node identity. -/
  nextNode : Nat

/-- Why a reading stops. -/
inductive Halt where
  /-- There is no token with this index. -/
  | outOfRange (index : Nat)
  /-- Something is wrong at the token with this index. -/
  | at (index : Nat) (diagnostic : Diagnostic)
deriving DecidableEq, Repr

/-- Reading an `α`. -/
abbrev Read (α : Type) : Type :=
  Step Reader Halt α

namespace Reader

/-- Before anything of a token list is read. -/
def start (tokens : List Token) (nextNode : Nat) : Reader :=
  ⟨tokens, 0, [], nextNode⟩

/-- The reader at the next index. -/
def forward (reader : Reader) : Reader :=
  { reader with position := reader.position + 1 }

/-- The reader with one more diagnostic. -/
def record (reader : Reader) (index : Nat) (diagnostic : Diagnostic) : Reader :=
  { reader with diagnostics := reader.diagnostics ++ [(index, diagnostic)] }

end Reader

namespace Read

/-! ### Looking at tokens -/

/-- The token with this index, which has to be there. -/
def tokenAt (index : Nat) : Read Token := fun reader =>
  match reader.tokens[index]? with
  | some token => .done token reader
  | none => .failed (.outOfRange index) reader

/-- The index of the next token. -/
def here : Read Nat :=
  Step.view Reader.position

/-- The next token, which is left where it is. -/
def peek : Read Token := do
  tokenAt (← here)

/-- The token before the next one; at the start of the list, the first one. -/
def previous : Read Token := do
  tokenAt ((← here) - 1)

/-- Whether the next token is an end token. -/
def atEnd : Read Bool := do
  return (← peek).kind = .eof

/-- Whether the next token passes a test. An end token passes none. -/
def sees (test : Kind → Bool) : Read Bool := do
  if ← atEnd then
    return false
  else
    return test (← peek).kind

/-- Whether there is a token after the next one, and it is of a kind. -/
def seesNext (kind : Kind) : Read Bool :=
  Step.view fun reader => reader.tokens[reader.position + 1]?.any (·.kind = kind)

/-- Whether a declaration of a named function starts here. -/
def seesFunction : Read Bool := do
  if ← sees (· = .keyword .fun) then
    seesNext .identifier
  else
    return false

/-- Whether declarations end here. -/
def stops (stop : Kind → Bool) : Read Bool := do
  if ← atEnd then
    return true
  else
    sees stop

/-! ### Going forward -/

/-- Goes to the next token, unless at an end token, and gives the one before it. -/
def advance : Read Token := do
  if ← atEnd then
    previous
  else
    Step.update Reader.forward
    previous

/-- Takes the next token if it passes a test. -/
def takeIf (test : Kind → Bool) : Read (Option Token) := do
  if ← sees test then
    return some (← advance)
  else
    return none

/-- Takes the next token if it is of a kind, and says whether it did. -/
def takes (kind : Kind) : Read Bool := do
  let token ← takeIf (· = kind)
  return token.isSome

/-- Fails at the next token. -/
def missing {α : Type} (expected : Expected) : Read α := do
  let token ← peek
  Step.fail (.at (← here) (.atToken token (.missing expected)))

/-- Takes the next token, which has to be of a kind. -/
def expect (kind : Kind) (expected : Expected) : Read Token := do
  match ← takeIf (· = kind) with
  | some token => return token
  | none => missing expected

/-- Records a defect at a token with its index, and goes on. -/
def report (index : Nat) (token : Token) (defect : Defect) : Read Unit :=
  Step.update fun reader => reader.record index (.atToken token defect)

/-- A node identity that was never used before. -/
def freshNode : Read NodeId := fun reader =>
  .done ⟨reader.nextNode⟩ { reader with nextNode := reader.nextNode + 1 }

/-! ### Going on after a failure -/

/-- Goes to the next statement boundary: after a semicolon, before a token that starts a statement,
or at the end. It takes at most `count` steps. -/
def skip : (count : Nat) → Read Unit
  | 0 => Step.exhausted
  | count + 1 => do
    if ← atEnd then
      return ()
    else if (← previous).kind = .symbol .semicolon then
      return ()
    else if (← peek).kind.startsStatement then
      return ()
    else
      let _ ← advance
      skip count

/-- Skips the token that is at fault, and goes to the next statement boundary. -/
def synchronize : Read Unit := do
  let _ ← advance
  skip (← Step.view fun reader => reader.tokens.length)

/-- Reads something, and on failure records the diagnostic and goes to the next statement boundary.
A token that is not there is no failure of this kind. -/
def recover {α : Type} (read : Read α) : Read (Option α) := fun reader =>
  match read reader with
  | .done value later => .done (some value) later
  | .failed (.at index diagnostic) later =>
    (do
      synchronize
      return none : Read (Option α)) (later.record index diagnostic)
  | .failed (.outOfRange index) later => .failed (.outOfRange index) later
  | .outOfFuel => .outOfFuel

/-! ### Productions -/

/-- The names of parameters after the first `count`, and the closing parenthesis. -/
def parametersAfter (count : Nat) : (fuel : Nat) → Read (List Token)
  | 0 => Step.exhausted
  | fuel + 1 => do
    if maxArity ≤ count then
      report (← here) (← peek) .tooManyParameters
    let name ← expect .identifier .parameterName
    if ← takes (.symbol .comma) then
      return name :: (← parametersAfter (count + 1) fuel)
    let _ ← expect (.symbol .rightParen) .parametersEnd
    return [name]

/-- The names of parameters after an opening parenthesis, and the closing one. -/
def parameters (fuel : Nat) : Read (List Token) := do
  if ← sees (· = .symbol .rightParen) then
    let _ ← expect (.symbol .rightParen) .parametersEnd
    return []
  parametersAfter 0 fuel

/-- Takes the next token, which is the whole of an expression. -/
def taken (value : Expr) : Read Expr := do
  let _ ← advance
  return value

mutual

/-- An expression: a ternary, or an assignment whose target is a variable. -/
def expression : (fuel : Nat) → Read Expr
  | 0 => Step.exhausted
  | fuel + 1 => do
    let target ← ternary fuel
    match ← takeIf (· = .symbol .equal) with
    | none => return target
    | some equals =>
      let next ← here
      let value ← expression fuel
      match target with
      | .variable _ name => return .assign (← freshNode) name value
      | _ =>
        report (next - 1) equals .invalidAssignmentTarget
        return target

/-- A conditional expression, or an expression of binary operators. -/
def ternary : (fuel : Nat) → Read Expr
  | 0 => Step.exhausted
  | fuel + 1 => do
    let condition ← binary .or fuel
    match ← takeIf (· = .symbol .question) with
    | none => return condition
    | some question =>
      let yes ← expression fuel
      let _ ← expect (.symbol .colon) .ternaryElse
      let no ← ternary fuel
      return .ternary condition question yes no

/-- Operands joined by the operators of a level. -/
def binary (level : Level) : (fuel : Nat) → Read Expr
  | 0 => Step.exhausted
  | fuel + 1 => do
    let left ← operand level fuel
    joined level left fuel

/-- An operand of a level. -/
def operand (level : Level) : (fuel : Nat) → Read Expr
  | 0 => Step.exhausted
  | fuel + 1 =>
    match level.tighter? with
    | some tighter => binary tighter fuel
    | none => unary fuel

/-- What an operand and the operators and operands of a level after it are together. -/
def joined (level : Level) (left : Expr) : (fuel : Nat) → Read Expr
  | 0 => Step.exhausted
  | fuel + 1 => do
    match ← takeIf level.holds with
    | none => return left
    | some operator =>
      let right ← operand level fuel
      joined level (level.join left operator right) fuel

/-- Operators before an operand. -/
def unary : (fuel : Nat) → Read Expr
  | 0 => Step.exhausted
  | fuel + 1 => do
    match ← takeIf Kind.isUnary with
    | some operator => return .unary operator (← unary fuel)
    | none =>
      let callee ← primary fuel
      calls callee fuel

/-- What a callee and the argument lists after it are together. -/
def calls (callee : Expr) : (fuel : Nat) → Read Expr
  | 0 => Step.exhausted
  | fuel + 1 => do
    if ← takes (.symbol .leftParen) then
      let arguments ← arguments fuel
      let closing ← expect (.symbol .rightParen) .argumentsEnd
      calls (.call callee arguments closing) fuel
    else
      return callee

/-- The arguments of a call, up to its closing parenthesis. -/
def arguments : (fuel : Nat) → Read (List Expr)
  | 0 => Step.exhausted
  | fuel + 1 => do
    if ← sees (· = .symbol .rightParen) then
      return []
    argumentsAfter 0 fuel

/-- The arguments of a call after the first `count`. -/
def argumentsAfter (count : Nat) : (fuel : Nat) → Read (List Expr)
  | 0 => Step.exhausted
  | fuel + 1 => do
    if maxArity ≤ count then
      report (← here) (← peek) .tooManyArguments
    let argument ← expression fuel
    if ← takes (.symbol .comma) then
      return argument :: (← argumentsAfter (count + 1) fuel)
    return [argument]

/-- A constant, a variable, an expression in parentheses, or a lambda. -/
def primary : (fuel : Nat) → Read Expr
  | 0 => Step.exhausted
  | fuel + 1 => do
    let token ← peek
    match token.kind with
    | .keyword .false => taken (.literal .false)
    | .keyword .true => taken (.literal .true)
    | .keyword .nil => taken (.literal .nil)
    | .number value => taken (.literal (.number value))
    | .string contents => taken (.literal (.string contents))
    | .identifier =>
      let name ← advance
      return .variable (← freshNode) name
    | .symbol .leftParen =>
      let _ ← advance
      let inner ← expression fuel
      let _ ← expect (.symbol .rightParen) .groupEnd
      return .grouping inner
    | .keyword .fun =>
      let keyword ← advance
      return .lambda keyword (← functionBody .lambdaParameters .lambdaBody fuel)
    | _ => missing .expression

/-- The parameters and the statements of a function. -/
def functionBody (beforeParameters beforeBody : Expected) : (fuel : Nat) → Read FunctionBody
  | 0 => Step.exhausted
  | fuel + 1 => do
    let _ ← expect (.symbol .leftParen) beforeParameters
    let parameters ← parameters fuel
    let _ ← expect (.symbol .leftBrace) beforeBody
    return ⟨parameters, ← block fuel⟩

/-- The declarations after an opening brace, and the closing one. -/
def block : (fuel : Nat) → Read (List Stmt)
  | 0 => Step.exhausted
  | fuel + 1 => do
    let statements ← declarations (· = .symbol .rightBrace) fuel
    let _ ← expect (.symbol .rightBrace) .blockEnd
    return statements

/-- Declarations up to a token that passes a test, or up to the end. Those that fail are left
out. -/
def declarations (stop : Kind → Bool) : (fuel : Nat) → Read (List Stmt)
  | 0 => Step.exhausted
  | fuel + 1 => do
    if ← stops stop then
      return []
    let first ← declaration fuel
    let others ← declarations stop fuel
    return first.toList ++ others

/-- A declaration or a statement; nothing if it fails. -/
def declaration : (fuel : Nat) → Read (Option Stmt)
  | 0 => Step.exhausted
  | fuel + 1 => recover do
    if ← seesFunction then
      let _ ← advance
      let name ← expect .identifier .functionName
      return .function name (← functionBody .functionParameters .functionBody fuel)
    else if ← takes (.keyword .var) then
      varDeclaration fuel
    else
      statement fuel

/-- A variable's name and its initializer, after `var`. -/
def varDeclaration : (fuel : Nat) → Read Stmt
  | 0 => Step.exhausted
  | fuel + 1 => do
    let name ← expect .identifier .variableName
    let initializer ← initializer fuel
    let _ ← expect (.symbol .semicolon) .declarationEnd
    return .var name initializer

/-- An initializer, if there is an equals sign. -/
def initializer : (fuel : Nat) → Read (Option Expr)
  | 0 => Step.exhausted
  | fuel + 1 => do
    if ← takes (.symbol .equal) then
      return some (← expression fuel)
    else
      return none

/-- A statement. -/
def statement : (fuel : Nat) → Read Stmt
  | 0 => Step.exhausted
  | fuel + 1 => do
    let token ← peek
    match token.kind with
    | .keyword .for =>
      let _ ← advance
      forStatement fuel
    | .keyword .if =>
      let _ ← advance
      ifStatement fuel
    | .keyword .while =>
      let _ ← advance
      let _ ← expect (.symbol .leftParen) .whileCondition
      let condition ← expression fuel
      let _ ← expect (.symbol .rightParen) .whileConditionEnd
      return .while condition (← statement fuel)
    | .keyword .return =>
      let keyword ← advance
      let value ← unlessSeen (.symbol .semicolon) fuel
      let _ ← expect (.symbol .semicolon) .returnEnd
      return .return keyword value
    | .symbol .leftBrace =>
      let _ ← advance
      return .block (← block fuel)
    | .keyword .print =>
      let keyword ← advance
      let value ← expression fuel
      let _ ← expect (.symbol .semicolon) .printEnd
      return .print keyword value
    | _ => expressionStatement fuel

/-- An expression and the semicolon after it. -/
def expressionStatement : (fuel : Nat) → Read Stmt
  | 0 => Step.exhausted
  | fuel + 1 => do
    let value ← expression fuel
    let _ ← expect (.symbol .semicolon) .statementEnd
    return .expression value

/-- An expression, unless the next token is of this kind. -/
def unlessSeen (kind : Kind) : (fuel : Nat) → Read (Option Expr)
  | 0 => Step.exhausted
  | fuel + 1 => do
    if ← sees (· = kind) then
      return none
    else
      return some (← expression fuel)

/-- A condition with its branches, after `if`. An `else` belongs to the nearest `if`. -/
def ifStatement : (fuel : Nat) → Read Stmt
  | 0 => Step.exhausted
  | fuel + 1 => do
    let _ ← expect (.symbol .leftParen) .ifCondition
    let condition ← expression fuel
    let _ ← expect (.symbol .rightParen) .ifConditionEnd
    let yes ← statement fuel
    if ← takes (.keyword .else) then
      return .if condition yes (some (← statement fuel))
    else
      return .if condition yes none

/-- The clauses and the body of a loop, after `for`. -/
def forStatement : (fuel : Nat) → Read Stmt
  | 0 => Step.exhausted
  | fuel + 1 => do
    let _ ← expect (.symbol .leftParen) .forClauses
    let initializer ← forInitializer fuel
    let condition ← unlessSeen (.symbol .semicolon) fuel
    let _ ← expect (.symbol .semicolon) .forConditionEnd
    let increment ← unlessSeen (.symbol .rightParen) fuel
    let _ ← expect (.symbol .rightParen) .forClausesEnd
    return .forLoop initializer condition increment (← statement fuel)

/-- The first clause of a `for` loop, with its semicolon. -/
def forInitializer : (fuel : Nat) → Read (Option Stmt)
  | 0 => Step.exhausted
  | fuel + 1 => do
    if ← takes (.symbol .semicolon) then
      return none
    else if ← takes (.keyword .var) then
      return some (← varDeclaration fuel)
    else
      return some (← expressionStatement fuel)

end

/-! ### Whole token lists -/

/-- Declarations up to the end. -/
def program (fuel : Nat) : Read (List Stmt) :=
  declarations (fun _ => false) fuel

/-- A single expression, and the end after it. -/
def wholeExpression (fuel : Nat) : Read Expr := do
  let value ← expression fuel
  if ← atEnd then
    let _ ← advance
    return value
  else
    missing .inputEnd

/-- What reading all of a token list gives, as `Parse.run` has it; nothing if the reading asks for a
token that is not in the list, or has not ended yet. -/
def result {α : Type} : Outcome Reader Halt α → Option (Except (List Diagnostic) α × Nat)
  | .done value reader =>
    let diagnostics := reader.diagnostics.map Prod.snd
    some (if diagnostics.isEmpty then .ok value else .error diagnostics, reader.nextNode)
  | .failed (.at _ diagnostic) reader =>
    some (.error (reader.diagnostics.map Prod.snd ++ [diagnostic]), reader.nextNode)
  | .failed (.outOfRange _) _ => none
  | .outOfFuel => none

end Read

end Lox
