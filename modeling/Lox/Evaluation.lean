/-
**What expressions evaluate to and what statements do.**

* `Flow` — how a statement ends: normally, or by a `return` on its way to the call it belongs to.
* `Native.run` — a native function at work. It asks the clock once.
* `evaluate`, `execute`, `callValue` — the meaning of expressions, statements and calls. They are
  given fuel that bounds the depth of the recursion, where each round of a loop is one level more; a
  program that ends does so with the same outcome under all fuel that is enough.
* `interpret` — the statements of a program in order, up to the first error. A `return` outside
  every function ends it like the last statement.

Operands are evaluated from left to right. A function runs in a new scope in the scope it was made
in, never in that of its caller.
-/

import Lox.Machine
import Lox.Operator

namespace Lox

/-- How a statement ends. -/
inductive Flow where
  | normal
  | returned (value : Value)

/-- The value of a call whose body ends like this. -/
def Flow.value : Flow → Value
  | .normal => .nil
  | .returned value => value

/-- Whether a left operand with this value is the value of `and` or `or` by itself. Every operator
but `or` counts as `and`. -/
def decidesLogical (operator : Kind) (left : Value) : Bool :=
  if operator = .keyword .or then left.truthy else !left.truthy

/-! ### Native functions -/

/-- What a native function makes of values at a time. -/
def Native.answer (known : Native) (arguments : List Value) (time : Float) : Except Fault Value :=
  match known.function (arguments.map Value.datum) time with
  | .ok value => .ok value.value
  | .error message => .error (.native message)

/-- Runs a native function. What it reports to be wrong is raised at the closing parenthesis. -/
def Native.run (known : Native) (closing : Token) (arguments : List Value) : Run Value := do
  let time ← Run.readClock
  Run.orRaise closing (known.answer arguments time)

/-! ### Expressions and statements -/

mutual

/-- The value of an expression. -/
def evaluate : (fuel : Nat) → Expr → Run Value
  | 0, _ => Step.exhausted
  | fuel + 1, expression =>
    match expression with
    | .literal value => pure value.value
    | .grouping inner => evaluate fuel inner
    | .unary operator right => do
      let operand ← evaluate fuel right
      Run.orRaise operator (applyUnary operator.kind operand)
    | .binary left operator right => do
      let first ← evaluate fuel left
      let second ← evaluate fuel right
      Run.orRaise operator (applyBinary operator.kind first second)
    | .logical left operator right => do
      let first ← evaluate fuel left
      if decidesLogical operator.kind first then
        return first
      else
        let second ← evaluate fuel right
        return .boolean second.truthy
    | .ternary condition _ yes no => do
      let decision ← evaluate fuel condition
      if decision.truthy then evaluate fuel yes else evaluate fuel no
    | .variable node name => Run.readVariable node name
    | .assign node name value => do
      let assigned ← evaluate fuel value
      Run.assignVariable node name assigned
      return assigned
    | .call callee arguments closing => do
      let function ← evaluate fuel callee
      let values ← evaluateAll fuel arguments
      callValue fuel function closing values
    | .lambda _ function => Run.makeFunction none function

/-- The values of expressions, in order. -/
def evaluateAll : (fuel : Nat) → List Expr → Run (List Value)
  | 0, _ => Step.exhausted
  | _ + 1, [] => pure []
  | fuel + 1, first :: rest => do
    let value ← evaluate fuel first
    let values ← evaluateAll fuel rest
    return value :: values

/-- The value of a call. What is called has to be a function, with as many parameters as there are
arguments, and there has to be room for one more call. -/
def callValue : (fuel : Nat) → Value → Token → List Value → Run Value
  | 0, _, _, _ => Step.exhausted
  | fuel + 1, callee, closing, arguments =>
    match callee with
    | .native known => do
      Run.checkCall closing known.arity arguments.length
      Run.inCall (known.run closing arguments)
    | .function closure => do
      Run.checkCall closing closure.body.arity arguments.length
      Run.inCall do
        let scope ← Run.openScope closure.scope
        Run.defineAll scope ((closure.body.parameters.map Token.lexeme).zip arguments)
        let flow ← Run.inScope scope (executeAll fuel closure.body.statements)
        return flow.value
    | _ => Run.raise closing .notCallable

/-- Runs a statement. -/
def execute : (fuel : Nat) → Stmt → Run Flow
  | 0, _ => Step.exhausted
  | fuel + 1, statement =>
    match statement with
    | .expression value => do
      let _ ← evaluate fuel value
      return .normal
    | .print keyword value => do
      let printed ← evaluate fuel value
      Run.print keyword printed
      return .normal
    | .var name initializer => do
      let value ← evaluateOr fuel initializer
      Run.declare name value
      return .normal
    | .block statements => do
      let current ← Step.view Machine.scope
      let scope ← Run.openScope current
      Run.inScope scope (executeAll fuel statements)
    | .if condition yes no => do
      let decision ← evaluate fuel condition
      if decision.truthy then execute fuel yes
      else
        match no with
        | some no => execute fuel no
        | none => return .normal
    | .while condition body => repeatWhile fuel condition body
    | .function name function => do
      let value ← Run.makeFunction (some name.lexeme) function
      Run.declare name value
      return .normal
    | .return _ value => do
      let value ← evaluateOr fuel value
      return .returned value

/-- The value of an expression, or nil where there is none. -/
def evaluateOr : (fuel : Nat) → Option Expr → Run Value
  | 0, _ => Step.exhausted
  | _ + 1, none => pure .nil
  | fuel + 1, some expression => evaluate fuel expression

/-- Runs statements in order, up to the first that returns. -/
def executeAll : (fuel : Nat) → List Stmt → Run Flow
  | 0, _ => Step.exhausted
  | _ + 1, [] => pure .normal
  | fuel + 1, first :: rest => do
    match ← execute fuel first with
    | .returned value => return .returned value
    | .normal => executeAll fuel rest

/-- Runs a body while a condition holds, or until the body returns. -/
def repeatWhile : (fuel : Nat) → (condition : Expr) → (body : Stmt) → Run Flow
  | 0, _, _ => Step.exhausted
  | fuel + 1, condition, body => do
    let decision ← evaluate fuel condition
    if decision.truthy then
      match ← execute fuel body with
      | .returned value => return .returned value
      | .normal => repeatWhile fuel condition body
    else
      return .normal

end

/-! ### Programs -/

/-- Runs a program up to its first error. -/
def interpret (fuel : Nat) : List Stmt → Run Unit
  | [] => pure ()
  | first :: rest => do
    match ← execute fuel first with
    | .returned _ => return ()
    | .normal => interpret fuel rest

end Lox
