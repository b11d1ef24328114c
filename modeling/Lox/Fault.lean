/-
**What can go wrong while a program runs.**

* `Fault` — what went wrong; `Fault.message` puts it into words.
* `RuntimeError` — a fault and the token it belongs to.
-/

import Lox.Token

namespace Lox

/-- What can go wrong while a program runs. -/
inductive Fault where
  /-- The operand of `-` is no number. -/
  | operandNotNumber
  /-- The operands of an operator on numbers are not both numbers. -/
  | operandsNotNumbers
  /-- The operands of `+` are neither two numbers nor two strings. -/
  | operandsNotAddable
  | divisionByZero
  /-- A token that is no operator before an operand stands as one. -/
  | notUnaryOperator
  /-- A token that is no operator between operands stands as one. -/
  | notBinaryOperator
  | undefinedVariable (name : String)
  /-- What is called is no function. -/
  | notCallable
  | wrongArity (expected actual : Nat)
  | stackOverflow
  /-- The output does not take what is printed. -/
  | outputFailed (reason : String)
  /-- A native function reports that something is wrong. -/
  | native (message : String)
deriving DecidableEq, Repr

/-- What went wrong, in words. -/
def Fault.message : Fault → String
  | .operandNotNumber => "Operand must be a number."
  | .operandsNotNumbers => "Operands must be numbers."
  | .operandsNotAddable => "Operands must be two numbers or two strings."
  | .divisionByZero => "Division by zero."
  | .notUnaryOperator => "Invalid unary operator."
  | .notBinaryOperator => "Invalid binary operator."
  | .undefinedVariable name => "Undefined variable '" ++ name ++ "'."
  | .notCallable => "Can only call functions and classes."
  | .wrongArity expected actual =>
    "Expected " ++ toString expected ++ " arguments but got " ++ toString actual ++ "."
  | .stackOverflow => "Stack overflow."
  | .outputFailed reason => "Failed to write output: " ++ reason
  | .native message => message

/-- A fault and the token it belongs to. -/
structure RuntimeError where
  token : Token
  fault : Fault
deriving DecidableEq

/-- The lines that report a runtime error. -/
def RuntimeError.text (error : RuntimeError) : String :=
  error.fault.message ++ "\n[line " ++ toString error.token.line ++ "]"

end Lox
