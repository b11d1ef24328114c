/-
**What operators make of values.**

* `applyUnary`, `applyBinary` — the value of an operator on its operands, or the fault. They take
  the kind of any token and refuse those that are no operator.
-/

import Lox.Fault
import Lox.Value

namespace Lox

namespace Value

/-- The result of an operation that takes two numbers. -/
def onNumbers (operation : Float → Float → Except Fault Value) : Value → Value → Except Fault Value
  | .number left, .number right => operation left right
  | _, _ => .error .operandsNotNumbers

/-- The sum of two numbers, or one string after the other. -/
def add : Value → Value → Except Fault Value
  | .number left, .number right => .ok (.number (left + right))
  | .string left, .string right => .ok (.string (left ++ right))
  | _, _ => .error .operandsNotAddable

/-- The quotient of two numbers; there is none by zero of either sign. -/
def quotient (left right : Float) : Except Fault Value :=
  if right == 0.0 then .error .divisionByZero else .ok (.number (left / right))

end Value

/-- The value of an operator on a single operand. -/
def applyUnary (operator : Kind) (operand : Value) : Except Fault Value :=
  match operator, operand with
  | .symbol .minus, .number value => .ok (.number (-value))
  | .symbol .minus, _ => .error .operandNotNumber
  | .symbol .bang, _ => .ok (.boolean !operand.truthy)
  | _, _ => .error .notUnaryOperator

/-- The value of an operator on two operands. -/
def applyBinary (operator : Kind) (left right : Value) : Except Fault Value :=
  match operator with
  | .symbol .plus => left.add right
  | .symbol .minus => Value.onNumbers (fun a b => .ok (.number (a - b))) left right
  | .symbol .star => Value.onNumbers (fun a b => .ok (.number (a * b))) left right
  | .symbol .slash => Value.onNumbers Value.quotient left right
  | .symbol .greater => Value.onNumbers (fun a b => .ok (.boolean (b < a))) left right
  | .symbol .greaterEqual => Value.onNumbers (fun a b => .ok (.boolean (b ≤ a))) left right
  | .symbol .less => Value.onNumbers (fun a b => .ok (.boolean (a < b))) left right
  | .symbol .lessEqual => Value.onNumbers (fun a b => .ok (.boolean (a ≤ b))) left right
  | .symbol .equalEqual => .ok (.boolean (left.equals right))
  | .symbol .bangEqual => .ok (.boolean !left.equals right)
  | _ => .error .notBinaryOperator

end Lox
