/-
**Syntax trees.**

* `NodeId` — the identity of a place where a variable is read or assigned. The distance from such a
  place to the scope of its variable is recorded under it.
* `Expr`, `Stmt`, `FunctionBody` — expressions, statements, and what a named function and a lambda
  have in common.
* `Stmt.forLoop` — a `for` loop, which is a `while` loop in a block.

Nodes keep the tokens at which an error of theirs is reported.
-/

import Lox.Token

namespace Lox

/-- The identity of a place where a variable is read or assigned. -/
structure NodeId where
  index : Nat
deriving DecidableEq, Repr

/-- A constant in a program. -/
inductive Literal where
  | number (value : Float)
  | string (contents : String)
  | true
  | false
  | nil
deriving DecidableEq

mutual

/-- An expression. -/
inductive Expr where
  | literal (value : Literal)
  | grouping (inner : Expr)
  | unary (operator : Token) (right : Expr)
  | binary (left : Expr) (operator : Token) (right : Expr)
  /-- `and` and `or`, which evaluate the right side only where it matters. -/
  | logical (left : Expr) (operator : Token) (right : Expr)
  | ternary (condition : Expr) (question : Token) (yes no : Expr)
  | variable (node : NodeId) (name : Token)
  | assign (node : NodeId) (name : Token) (value : Expr)
  /-- A call with its closing parenthesis. -/
  | call (callee : Expr) (arguments : List Expr) (closing : Token)
  /-- A function without a name, with its keyword. -/
  | lambda (keyword : Token) (function : FunctionBody)

/-- A statement. -/
inductive Stmt where
  | expression (value : Expr)
  | print (keyword : Token) (value : Expr)
  | var (name : Token) (initializer : Option Expr)
  | block (statements : List Stmt)
  | if (condition : Expr) (yes : Stmt) (no : Option Stmt)
  | while (condition : Expr) (body : Stmt)
  | function (name : Token) (function : FunctionBody)
  | return (keyword : Token) (value : Option Expr)

/-- The parameters and the statements of a function. -/
structure FunctionBody where
  parameters : List Token
  statements : List Stmt

end

/-- The number of arguments that a function takes. -/
def FunctionBody.arity (function : FunctionBody) : Nat :=
  function.parameters.length

namespace Stmt

/-- The body of a loop and the increment after it. -/
def withIncrement (body : Stmt) : (increment : Option Expr) → Stmt
  | none => body
  | some increment => .block [body, .expression increment]

/-- An initializer and the loop after it, in a scope of their own. -/
def withInitializer (loop : Stmt) : (initializer : Option Stmt) → Stmt
  | none => loop
  | some initializer => .block [initializer, loop]

/-- A `for` loop. Without a condition it goes on forever. -/
def forLoop (initializer : Option Stmt) (condition increment : Option Expr) (body : Stmt) : Stmt :=
  withInitializer (.while (condition.getD (.literal .true)) (withIncrement body increment))
    initializer

end Stmt

end Lox
