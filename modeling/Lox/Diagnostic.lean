/-
**What can be wrong with a source text before it runs.**

* `Defect` — what is wrong: with the characters, with the order of the tokens, or with the names.
  `Defect.message` puts it into words.
* `Diagnostic` — a defect with its line and place.
* `Diagnostic.text`, `reportText` — the lines that report one diagnostic and several.
-/

import Lox.Token

namespace Lox

/-! ### Defects -/

/-- What a place in a program has to hold, in the order in which the grammar comes to it. -/
inductive Expected where
  | functionName
  | functionParameters
  | functionBody
  | parameterName
  | parametersEnd
  | variableName
  | declarationEnd
  | forClauses
  | forConditionEnd
  | forClausesEnd
  | printEnd
  | statementEnd
  | ifCondition
  | ifConditionEnd
  | whileCondition
  | whileConditionEnd
  | returnEnd
  | blockEnd
  | ternaryElse
  | argumentsEnd
  | groupEnd
  | expression
  | lambdaParameters
  | lambdaBody
  | inputEnd
deriving DecidableEq, Repr

/-- The request for what is missing. -/
def Expected.message : Expected → String
  | .functionName => "Expect function name."
  | .functionParameters => "Expect '(' after function name."
  | .functionBody => "Expect '\x7b' before function body."
  | .parameterName => "Expect parameter name."
  | .parametersEnd => "Expect ')' after parameters."
  | .variableName => "Expect variable name."
  | .declarationEnd => "Expect ';' after variable declaration."
  | .forClauses => "Expect '(' after 'for'."
  | .forConditionEnd => "Expect ';' after loop condition."
  | .forClausesEnd => "Expect ')' after for clauses."
  | .printEnd => "Expect ';' after value."
  | .statementEnd => "Expect ';' after expression."
  | .ifCondition => "Expect '(' after 'if'."
  | .ifConditionEnd => "Expect ')' after if condition."
  | .whileCondition => "Expect '(' after 'while'."
  | .whileConditionEnd => "Expect ')' after condition."
  | .returnEnd => "Expect ';' after return value."
  | .blockEnd => "Expect '\x7d' after block."
  | .ternaryElse => "Expect ':' after then branch of conditional expression."
  | .argumentsEnd => "Expect ')' after arguments."
  | .groupEnd => "Expect ')' after expression."
  | .expression => "Expect expression."
  | .lambdaParameters => "Expect '(' after 'fun'."
  | .lambdaBody => "Expect '\x7b' before lambda body."
  | .inputEnd => "Expect end of expression."

/-- What is wrong at a place of a source text. -/
inductive Defect where
  /-- A character that starts no token. -/
  | unexpectedCharacter (text : String)
  /-- A string whose closing quote is missing. -/
  | unterminatedString
  /-- Something else stands where the grammar needs this. -/
  | missing (expected : Expected)
  /-- The left side of `=` is no variable. -/
  | invalidAssignmentTarget
  | tooManyParameters
  | tooManyArguments
  /-- A `return` outside every function. -/
  | topLevelReturn
  /-- A second declaration of a name in one local scope. -/
  | alreadyDeclared
  /-- A local variable read in the expression that gives it its first value. -/
  | ownInitializer
deriving DecidableEq, Repr

/-- What is wrong, in words. -/
def Defect.message : Defect → String
  | .unexpectedCharacter text => "Unexpected character: " ++ text
  | .unterminatedString => "Unterminated string."
  | .missing expected => expected.message
  | .invalidAssignmentTarget => "Invalid assignment target."
  | .tooManyParameters => "Can't have more than 255 parameters."
  | .tooManyArguments => "Can't have more than 255 arguments."
  | .topLevelReturn => "Can't return from top-level code."
  | .alreadyDeclared => "Already a variable with this name in this scope."
  | .ownInitializer => "Can't read local variable in its own initializer."

/-! ### Diagnostics -/

/-- Where on its line a diagnostic belongs. -/
inductive Place where
  /-- To characters that are no token. -/
  | characters
  /-- To the end of the tokens. -/
  | atEnd
  /-- To a token with this lexeme. -/
  | atToken (lexeme : String)
deriving DecidableEq, Repr

namespace Place

/-- The place of a token. -/
def ofToken (token : Token) : Place :=
  if token.kind = .eof then .atEnd else .atToken token.lexeme

/-- The place in words, as they follow the word `Error`. -/
def text : Place → String
  | .characters => ""
  | .atEnd => " at end"
  | .atToken lexeme => " at '" ++ lexeme ++ "'"

end Place

/-- A defect with its line and place. -/
structure Diagnostic where
  line : Nat
  place : Place
  defect : Defect
deriving DecidableEq, Repr

namespace Diagnostic

/-- A defect at a token. -/
def atToken (token : Token) (defect : Defect) : Diagnostic :=
  ⟨token.line, .ofToken token, defect⟩

/-- The line that reports a diagnostic. -/
def text (diagnostic : Diagnostic) : String :=
  "[line " ++ toString diagnostic.line ++ "] Error" ++ diagnostic.place.text ++ ": " ++
    diagnostic.defect.message

end Diagnostic

/-- The lines that report several diagnostics. -/
def reportText (diagnostics : List Diagnostic) : String :=
  "\n".intercalate (diagnostics.map Diagnostic.text)

end Lox
