/-
**Programs and expressions from tokens.**

```text
program     := declaration* end
declaration := "fun" NAME function | "var" NAME ( "=" expression )? ";" | statement
statement   := "for" "(" ( "var" … ";" | expression ";" | ";" ) expression? ";" expression? ")"
               statement
             | "if" "(" expression ")" statement ( "else" statement )?
             | "while" "(" expression ")" statement | "return" expression? ";"
             | "{" declaration* "}" | "print" expression ";" | expression ";"
function    := "(" ( NAME ( "," NAME )* )? ")" "{" declaration* "}"
expression  := NAME "=" expression | ternary
ternary     := binary ( "?" expression ":" ternary )?
binary      := unary, joined by "or", "and", "== !=", "> >= < <=", "- +", "* /", loosest first
unary       := ( "!" | "-" ) unary | call
call        := primary ( "(" ( expression ( "," expression )* )? ")" )*
primary     := NUMBER | STRING | "true" | "false" | "nil" | NAME | "(" expression ")"
             | "fun" function
```

A statement that starts with `fun` is a declaration only if a name follows.

* `Level` — the levels of binary operators, from the loosest to the tightest.
* `Parse.expression`, `Parse.declaration` and those between them read one production each. They are
  given fuel that bounds the depth of the recursion.
* `parseProgram`, `parseExpression` — the whole of a token list. The fuel is a multiple of the
  number of tokens, because a few dozen productions at most stand between one token and the next.
-/

import Lox.Tree.Cursor

namespace Lox

/-- The most parameters or arguments that a function or a call has. -/
def maxArity : Nat :=
  255

/-! ### Levels of binary operators -/

/-- The levels of binary operators, from the loosest to the tightest. -/
inductive Level where
  | or
  | and
  | equality
  | comparison
  | term
  | factor
deriving DecidableEq, Repr

namespace Level

/-- The next tighter level; the tightest joins unary expressions. -/
def tighter? : Level → Option Level
  | .or => some .and
  | .and => some .equality
  | .equality => some .comparison
  | .comparison => some .term
  | .term => some .factor
  | .factor => none

/-- Whether a token of this kind is an operator of the level. -/
def holds : Level → Kind → Bool
  | .or, kind => kind = .keyword .or
  | .and, kind => kind = .keyword .and
  | .equality, kind => kind = .symbol .bangEqual || kind = .symbol .equalEqual
  | .comparison, kind =>
    kind = .symbol .greater || kind = .symbol .greaterEqual || kind = .symbol .less ||
      kind = .symbol .lessEqual
  | .term, kind => kind = .symbol .minus || kind = .symbol .plus
  | .factor, kind => kind = .symbol .star || kind = .symbol .slash

/-- The node that joins two operands of the level. -/
def join : Level → Expr → Token → Expr → Expr
  | .or, left, operator, right => .logical left operator right
  | .and, left, operator, right => .logical left operator right
  | _, left, operator, right => .binary left operator right

end Level

/-! ### Productions -/

/-- Whether a token of this kind is an operator before its only operand. -/
def Kind.isUnary (kind : Kind) : Bool :=
  kind = .symbol .bang || kind = .symbol .minus

/-- Whether a declaration of a named function starts here. -/
def Cursor.seesFunction (cursor : Cursor) : Bool :=
  cursor.sees (· = .keyword .fun) && cursor.advance.peek.kind = .identifier

namespace Parse

/-- The names of parameters after the first `count`, and the closing parenthesis. -/
def parametersAfter (count : Nat) : (fuel : Nat) → Parse (List Token)
  | 0 => Step.exhausted
  | fuel + 1 => do
    if maxArity ≤ count then
      report (← peek) .tooManyParameters
    let name ← expect .identifier .parameterName
    if ← takes (.symbol .comma) then
      return name :: (← parametersAfter (count + 1) fuel)
    let _ ← expect (.symbol .rightParen) .parametersEnd
    return [name]

/-- The names of parameters after an opening parenthesis, and the closing one. -/
def parameters (fuel : Nat) : Parse (List Token) := do
  if ← sees (· = .symbol .rightParen) then
    let _ ← expect (.symbol .rightParen) .parametersEnd
    return []
  parametersAfter 0 fuel

/-- Takes the next token, which is the whole of an expression. -/
def taken (value : Expr) : Parse Expr := do
  Step.update Cursor.advance
  return value

mutual

/-- An expression: a ternary, or an assignment whose target is a variable. -/
def expression : (fuel : Nat) → Parse Expr
  | 0 => Step.exhausted
  | fuel + 1 => do
    let target ← ternary fuel
    match ← takeIf (· = .symbol .equal) with
    | none => return target
    | some equals =>
      let value ← expression fuel
      match target with
      | .variable _ name => return .assign (← freshNode) name value
      | _ =>
        report equals .invalidAssignmentTarget
        return target

/-- A conditional expression, or an expression of binary operators. -/
def ternary : (fuel : Nat) → Parse Expr
  | 0 => Step.exhausted
  | fuel + 1 => do
    let condition ← binary .or fuel
    match ← takeIf (· = .symbol .question) with
    | none => return condition
    | some question =>
      let yes ← expression fuel
      let _ ← expect (.symbol .colon) .ternaryElse
      let no ← ternary fuel
      return .ternary condition question yes no

/-- Operands joined by the operators of a level. -/
def binary (level : Level) : (fuel : Nat) → Parse Expr
  | 0 => Step.exhausted
  | fuel + 1 => do
    let left ← operand level fuel
    joined level left fuel

/-- An operand of a level. -/
def operand (level : Level) : (fuel : Nat) → Parse Expr
  | 0 => Step.exhausted
  | fuel + 1 =>
    match level.tighter? with
    | some tighter => binary tighter fuel
    | none => unary fuel

/-- What an operand and the operators and operands of a level after it are together. -/
def joined (level : Level) (left : Expr) : (fuel : Nat) → Parse Expr
  | 0 => Step.exhausted
  | fuel + 1 => do
    match ← takeIf level.holds with
    | none => return left
    | some operator =>
      let right ← operand level fuel
      joined level (level.join left operator right) fuel

/-- Operators before an operand. -/
def unary : (fuel : Nat) → Parse Expr
  | 0 => Step.exhausted
  | fuel + 1 => do
    match ← takeIf Kind.isUnary with
    | some operator => return .unary operator (← unary fuel)
    | none =>
      let callee ← primary fuel
      calls callee fuel

/-- What a callee and the argument lists after it are together. -/
def calls (callee : Expr) : (fuel : Nat) → Parse Expr
  | 0 => Step.exhausted
  | fuel + 1 => do
    if ← takes (.symbol .leftParen) then
      let arguments ← arguments fuel
      let closing ← expect (.symbol .rightParen) .argumentsEnd
      calls (.call callee arguments closing) fuel
    else
      return callee

/-- The arguments of a call, up to its closing parenthesis. -/
def arguments : (fuel : Nat) → Parse (List Expr)
  | 0 => Step.exhausted
  | fuel + 1 => do
    if ← sees (· = .symbol .rightParen) then
      return []
    argumentsAfter 0 fuel

/-- The arguments of a call after the first `count`. -/
def argumentsAfter (count : Nat) : (fuel : Nat) → Parse (List Expr)
  | 0 => Step.exhausted
  | fuel + 1 => do
    if maxArity ≤ count then
      report (← peek) .tooManyArguments
    let argument ← expression fuel
    if ← takes (.symbol .comma) then
      return argument :: (← argumentsAfter (count + 1) fuel)
    return [argument]

/-- A constant, a variable, an expression in parentheses, or a lambda. -/
def primary : (fuel : Nat) → Parse Expr
  | 0 => Step.exhausted
  | fuel + 1 => do
    let token ← peek
    match token.kind with
    | .keyword .false => taken (.literal .false)
    | .keyword .true => taken (.literal .true)
    | .keyword .nil => taken (.literal .nil)
    | .number value => taken (.literal (.number value))
    | .string contents => taken (.literal (.string contents))
    | .identifier =>
      Step.update Cursor.advance
      return .variable (← freshNode) token
    | .symbol .leftParen =>
      Step.update Cursor.advance
      let inner ← expression fuel
      let _ ← expect (.symbol .rightParen) .groupEnd
      return .grouping inner
    | .keyword .fun =>
      Step.update Cursor.advance
      return .lambda token (← functionBody .lambdaParameters .lambdaBody fuel)
    | _ => missing .expression

/-- The parameters and the statements of a function. -/
def functionBody (beforeParameters beforeBody : Expected) : (fuel : Nat) → Parse FunctionBody
  | 0 => Step.exhausted
  | fuel + 1 => do
    let _ ← expect (.symbol .leftParen) beforeParameters
    let parameters ← parameters fuel
    let _ ← expect (.symbol .leftBrace) beforeBody
    return ⟨parameters, ← block fuel⟩

/-- The declarations after an opening brace, and the closing one. -/
def block : (fuel : Nat) → Parse (List Stmt)
  | 0 => Step.exhausted
  | fuel + 1 => do
    let statements ← declarations (· = .symbol .rightBrace) fuel
    let _ ← expect (.symbol .rightBrace) .blockEnd
    return statements

/-- Declarations up to a token that passes a test, or up to the end. Those that fail are left
out. -/
def declarations (stop : Kind → Bool) : (fuel : Nat) → Parse (List Stmt)
  | 0 => Step.exhausted
  | fuel + 1 => do
    if ← Step.view fun cursor => cursor.atEnd || cursor.sees stop then
      return []
    let first ← declaration fuel
    let others ← declarations stop fuel
    return first.toList ++ others

/-- A declaration or a statement; nothing if it fails. -/
def declaration : (fuel : Nat) → Parse (Option Stmt)
  | 0 => Step.exhausted
  | fuel + 1 => Parse.recover do
    if ← Step.view Cursor.seesFunction then
      Step.update Cursor.advance
      let name ← expect .identifier .functionName
      return .function name (← functionBody .functionParameters .functionBody fuel)
    else if ← takes (.keyword .var) then
      varDeclaration fuel
    else
      statement fuel

/-- A variable's name and its initializer, after `var`. -/
def varDeclaration : (fuel : Nat) → Parse Stmt
  | 0 => Step.exhausted
  | fuel + 1 => do
    let name ← expect .identifier .variableName
    let initializer ← initializer fuel
    let _ ← expect (.symbol .semicolon) .declarationEnd
    return .var name initializer

/-- An initializer, if there is an equals sign. -/
def initializer : (fuel : Nat) → Parse (Option Expr)
  | 0 => Step.exhausted
  | fuel + 1 => do
    if ← takes (.symbol .equal) then
      return some (← expression fuel)
    else
      return none

/-- A statement. -/
def statement : (fuel : Nat) → Parse Stmt
  | 0 => Step.exhausted
  | fuel + 1 => do
    let token ← peek
    match token.kind with
    | .keyword .for =>
      Step.update Cursor.advance
      forStatement fuel
    | .keyword .if =>
      Step.update Cursor.advance
      ifStatement fuel
    | .keyword .while =>
      Step.update Cursor.advance
      let _ ← expect (.symbol .leftParen) .whileCondition
      let condition ← expression fuel
      let _ ← expect (.symbol .rightParen) .whileConditionEnd
      return .while condition (← statement fuel)
    | .keyword .return =>
      Step.update Cursor.advance
      let value ← unlessSeen (.symbol .semicolon) fuel
      let _ ← expect (.symbol .semicolon) .returnEnd
      return .return token value
    | .symbol .leftBrace =>
      Step.update Cursor.advance
      return .block (← block fuel)
    | .keyword .print =>
      Step.update Cursor.advance
      let value ← expression fuel
      let _ ← expect (.symbol .semicolon) .printEnd
      return .print token value
    | _ => expressionStatement fuel

/-- An expression and the semicolon after it. -/
def expressionStatement : (fuel : Nat) → Parse Stmt
  | 0 => Step.exhausted
  | fuel + 1 => do
    let value ← expression fuel
    let _ ← expect (.symbol .semicolon) .statementEnd
    return .expression value

/-- An expression, unless the next token is of this kind. -/
def unlessSeen (kind : Kind) : (fuel : Nat) → Parse (Option Expr)
  | 0 => Step.exhausted
  | fuel + 1 => do
    if ← sees (· = kind) then
      return none
    else
      return some (← expression fuel)

/-- A condition with its branches, after `if`. An `else` belongs to the nearest `if`. -/
def ifStatement : (fuel : Nat) → Parse Stmt
  | 0 => Step.exhausted
  | fuel + 1 => do
    let _ ← expect (.symbol .leftParen) .ifCondition
    let condition ← expression fuel
    let _ ← expect (.symbol .rightParen) .ifConditionEnd
    let yes ← statement fuel
    if ← takes (.keyword .else) then
      return .if condition yes (some (← statement fuel))
    else
      return .if condition yes none

/-- The clauses and the body of a loop, after `for`. -/
def forStatement : (fuel : Nat) → Parse Stmt
  | 0 => Step.exhausted
  | fuel + 1 => do
    let _ ← expect (.symbol .leftParen) .forClauses
    let initializer ← forInitializer fuel
    let condition ← unlessSeen (.symbol .semicolon) fuel
    let _ ← expect (.symbol .semicolon) .forConditionEnd
    let increment ← unlessSeen (.symbol .rightParen) fuel
    let _ ← expect (.symbol .rightParen) .forClausesEnd
    return .forLoop initializer condition increment (← statement fuel)

/-- The first clause of a `for` loop, with its semicolon. -/
def forInitializer : (fuel : Nat) → Parse (Option Stmt)
  | 0 => Step.exhausted
  | fuel + 1 => do
    if ← takes (.symbol .semicolon) then
      return none
    else if ← takes (.keyword .var) then
      return some (← varDeclaration fuel)
    else
      return some (← expressionStatement fuel)

end

/-! ### Whole token lists -/

/-- A single expression, and the end after it. -/
def wholeExpression (fuel : Nat) : Parse Expr := do
  let value ← expression fuel
  if ← Step.view Cursor.atEnd then
    return value
  else
    missing .inputEnd

/-- Declarations up to the end. -/
def program (fuel : Nat) : Parse (List Stmt) :=
  declarations (fun _ => false) fuel

/-- Fuel enough for a token list. -/
def fuelFor (tokens : List Token) : Nat :=
  32 * (tokens.length + 2)

/-- What reading all of a token list gives: the value if there is no diagnostic at all, and
otherwise the diagnostics in the order in which they were recorded, the one that ended the reading
last. Next to it stands the next unused node identity. -/
def run {α : Type} (parse : Nat → Parse α) (tokens : List Token) (nextNode : Nat) :
    Except (List Diagnostic) α × Nat :=
  match parse (fuelFor tokens) ⟨tokens, [], nextNode⟩ with
  | .done value cursor =>
    (if cursor.diagnostics.isEmpty then .ok value else .error cursor.diagnostics, cursor.nextNode)
  | .failed diagnostic cursor => (.error (cursor.diagnostics ++ [diagnostic]), cursor.nextNode)
  | .outOfFuel => (.error [], nextNode)

end Parse

/-- The statements of a program, whose tokens end with an end token. -/
def parseProgram (tokens : List Token) (nextNode : Nat) :
    Except (List Diagnostic) (List Stmt) × Nat :=
  Parse.run Parse.program tokens nextNode

/-- A single expression, whose tokens end with an end token. -/
def parseExpression (tokens : List Token) (nextNode : Nat) :
    Except (List Diagnostic) Expr × Nat :=
  Parse.run Parse.wholeExpression tokens nextNode

end Lox
