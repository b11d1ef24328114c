/-
**Syntax trees as text.**

Every node with parts is a list in parentheses, its operator or form first: `(* (- 123.0) (group
45.67))`, `(if (> a b) (print a))`.

* `Expr.text`, `Stmt.text` — the text of a single tree, all on one line.
* `programText` — the text of a program, a line for each of its statements.
-/

import Lox.Number
import Lox.Tree

namespace Lox

/-- The text of a constant; a string is written without quotes. -/
def Literal.text : Literal → String
  | .number value => Number.inTree value
  | .string contents => contents
  | .true => "true"
  | .false => "false"
  | .nil => "nil"

/-- The names of parameters in parentheses. -/
def parametersText (parameters : List Token) : String :=
  "(" ++ " ".intercalate (parameters.map Token.lexeme) ++ ")"

mutual

/-- The text of an expression. -/
def Expr.text : Expr → String
  | .literal value => value.text
  | .grouping inner => "(group " ++ inner.text ++ ")"
  | .unary operator right => "(" ++ operator.lexeme ++ " " ++ right.text ++ ")"
  | .binary left operator right =>
    "(" ++ operator.lexeme ++ " " ++ left.text ++ " " ++ right.text ++ ")"
  | .logical left operator right =>
    "(" ++ operator.lexeme ++ " " ++ left.text ++ " " ++ right.text ++ ")"
  | .ternary condition _ yes no =>
    "(?: " ++ condition.text ++ " " ++ yes.text ++ " " ++ no.text ++ ")"
  | .variable _ name => name.lexeme
  | .assign _ name value => "(= " ++ name.lexeme ++ " " ++ value.text ++ ")"
  | .call callee arguments _ => "(call " ++ callee.text ++ argumentsText arguments ++ ")"
  | .lambda _ function => "(fun " ++ function.text ++ ")"

/-- The texts of arguments, each with a space before it. -/
def argumentsText : List Expr → String
  | [] => ""
  | argument :: rest => " " ++ argument.text ++ argumentsText rest

/-- The text of a statement. -/
def Stmt.text : Stmt → String
  | .expression value => "(; " ++ value.text ++ ")"
  | .print _ value => "(print " ++ value.text ++ ")"
  | .var name none => "(var " ++ name.lexeme ++ ")"
  | .var name (some initializer) => "(var " ++ name.lexeme ++ " " ++ initializer.text ++ ")"
  | .block statements => "(block" ++ statementsText statements ++ ")"
  | .if condition yes none => "(if " ++ condition.text ++ " " ++ yes.text ++ ")"
  | .if condition yes (some no) =>
    "(if " ++ condition.text ++ " " ++ yes.text ++ " " ++ no.text ++ ")"
  | .while condition body => "(while " ++ condition.text ++ " " ++ body.text ++ ")"
  | .function name function => "(fun " ++ name.lexeme ++ " " ++ function.text ++ ")"
  | .return _ none => "(return)"
  | .return _ (some value) => "(return " ++ value.text ++ ")"

/-- The texts of statements, each with a space before it. -/
def statementsText : List Stmt → String
  | [] => ""
  | statement :: rest => " " ++ statement.text ++ statementsText rest

/-- The text of a function's parameters and statements. -/
def FunctionBody.text : FunctionBody → String
  | ⟨parameters, statements⟩ => parametersText parameters ++ statementsText statements

end

/-- The text of a program, a line for each statement. -/
def programText (statements : List Stmt) : String :=
  "\n".intercalate (statements.map Stmt.text)

end Lox
