/-
**What can be told of a value without calling it.**

* `Value.Resembles` — the same value, or a function with the same identity and name. Its truth, its
  text and what it equals are the same, and operators make the same of it.
* `Value.IsConstant` — the value of a constant. Operators and native functions make nothing else
  (`applyUnary_isConstant`, `applyBinary_isConstant`, `Native.answer_isConstant`).
* `Native.inCall_run` — all that a call of a native function can do.
* `Fault.isOfOperator` — the faults that operators find in their operands, and no others
  (`isOfOperator_of_applyUnary`, `isOfOperator_of_applyBinary`).
-/

import Lox.Evaluation
import Mathlib.Data.List.Forall2

namespace Lox

namespace Value

/-- The same value, but for the code of a function and the scope it was made in. -/
inductive Resembles : Value → Value → Prop
  | function {closure other : Closure} : other.identity = closure.identity →
      other.name = closure.name →
      Resembles (.function closure) (.function other)
  | plain (value : Value) : Resembles value value

namespace Resembles

variable {value other second another : Value}

theorem truthy (resembles : Resembles value other) : other.truthy = value.truthy := by
  cases resembles <;> rfl

theorem text (resembles : Resembles value other) : other.text = value.text := by
  cases resembles with
  | function _ name => exact congrArg (fun name => "<fn " ++ name.getD "anonymous" ++ ">") name
  | plain => rfl

theorem datum (resembles : Resembles value other) : other.datum = value.datum := by
  cases resembles with
  | function _ name => exact congrArg (fun name => Datum.function
      ("<fn " ++ name.getD "anonymous" ++ ">")) name
  | plain => rfl

theorem equals (resembles : Resembles value other) (resemblesToo : Resembles second another) :
    other.equals another = value.equals second := by
  cases resembles with
  | function identity => cases resemblesToo with
    | function identity' => simp only [Value.equals, identity, identity']
    | plain => cases second <;> simp only [Value.equals, identity]
  | plain => cases resemblesToo with
    | function identity' => cases value <;> simp only [Value.equals, identity']
    | plain => rfl

theorem decidesLogical {operator operator' : Kind} (same : operator' = operator)
    (resembles : Resembles value other) :
    decidesLogical operator' other = Lox.decidesLogical operator value := by
  unfold Lox.decidesLogical
  rw [same, resembles.truthy]

/-- Operators make the same of values that resemble one another. -/
theorem applyUnary (operator : Kind) (resembles : Resembles value other) :
    applyUnary operator other = Lox.applyUnary operator value := by
  cases resembles with
  | function =>
    unfold Lox.applyUnary
    split <;> simp_all [Value.truthy]
  | plain => rfl

theorem applyBinary (operator : Kind) (resembles : Resembles value other)
    (resemblesToo : Resembles second another) :
    applyBinary operator other another = Lox.applyBinary operator value second := by
  have equals := resembles.equals resemblesToo
  have numbers : ∀ operation, onNumbers operation other another =
      onNumbers operation value second := by
    intro operation
    cases resembles with
    | function => cases resemblesToo <;> rfl
    | plain => cases resemblesToo with
      | function => cases value <;> rfl
      | plain => rfl
  have add : other.add another = value.add second := by
    cases resembles with
    | function => cases resemblesToo <;> rfl
    | plain => cases resemblesToo with
      | function => cases value <;> rfl
      | plain => rfl
  unfold Lox.applyBinary
  simp only [equals, numbers, add]

end Resembles

end Value

/-! ### Constants -/

/-- The value is that of a constant, and so no function of any kind. -/
def Value.IsConstant (value : Value) : Prop :=
  ∃ literal : Literal, literal.value = value

namespace Value.IsConstant

variable {value : Value}

theorem literal (literal : Literal) : literal.value.IsConstant :=
  ⟨literal, rfl⟩

theorem nil : Value.nil.IsConstant :=
  literal .nil

theorem boolean (holds : Bool) : (Value.boolean holds).IsConstant := by
  cases holds
  · exact literal .false
  · exact literal .true

theorem number (number : Float) : (Value.number number).IsConstant :=
  literal (.number number)

theorem string (contents : String) : (Value.string contents).IsConstant :=
  literal (.string contents)

theorem ne_function (isConstant : value.IsConstant) (closure : Closure) :
    value ≠ .function closure := by
  obtain ⟨literal, rfl⟩ := isConstant
  cases literal <;> exact Value.noConfusion

theorem ne_native (isConstant : value.IsConstant) (known : Native) : value ≠ .native known := by
  obtain ⟨literal, rfl⟩ := isConstant
  cases literal <;> exact Value.noConfusion

end Value.IsConstant

/-- Operators make nothing but constants. -/
theorem applyUnary_isConstant {operator : Kind} {operand result : Value}
    (applied : applyUnary operator operand = .ok result) : result.IsConstant := by
  unfold applyUnary at applied
  split at applied <;> cases applied
  · exact .number _
  · exact .boolean _

theorem applyBinary_isConstant {operator : Kind} {left right result : Value}
    (applied : applyBinary operator left right = .ok result) : result.IsConstant := by
  have numbers : ∀ {operation : Float → Float → Except Fault Value},
      (∀ first second, operation first second = .ok result → result.IsConstant) →
      Value.onNumbers operation left right = .ok result → result.IsConstant := by
    intro operation constant applied
    unfold Value.onNumbers at applied
    split at applied
    · exact constant _ _ applied
    · cases applied
  have made : ∀ {value : Value}, value.IsConstant → (.ok value : Except Fault Value) = .ok result →
      result.IsConstant := by
    rintro value isConstant ⟨⟩
    exact isConstant
  unfold applyBinary at applied
  split at applied
  case h_1 =>
    unfold Value.add at applied
    split at applied
    · exact made (.number _) applied
    · exact made (.string _) applied
    · cases applied
  case h_2 | h_3 => exact numbers (fun _ _ => made (.number _)) applied
  case h_4 =>
    refine numbers (fun first second divided => ?_) applied
    unfold Value.quotient at divided
    split at divided
    · cases divided
    · exact made (.number _) divided
  case h_11 => cases applied
  case h_9 | h_10 => exact made (.boolean _) applied
  all_goals exact numbers (fun _ _ => made (.boolean _)) applied

/-! ### Native functions -/

/-- A native function makes the same of values that resemble one another. -/
theorem Native.answer_of_resembles (known : Native) {arguments others : List Value}
    (resemble : List.Forall₂ Value.Resembles arguments others) (time : Float) :
    known.answer others time = known.answer arguments time := by
  have same : others.map Value.datum = arguments.map Value.datum := by
    induction resemble with
    | nil => rfl
    | cons resembles _ ih => rw [List.map_cons, List.map_cons, resembles.datum, ih]
  unfold answer
  rw [same]

/-- What a native function makes is a constant. -/
theorem Native.answer_isConstant {known : Native} {arguments : List Value} {time : Float}
    {value : Value} (answered : known.answer arguments time = .ok value) : value.IsConstant := by
  unfold answer at answered
  split at answered <;> cases answered
  exact .literal _

/-- The machine after its clock was asked once. -/
def Machine.ticked (machine : Machine) : Machine :=
  { machine with ticks := machine.ticks + 1 }

/-- **A call of a native function ends with a constant, or with what the function reports to be
wrong.** The clock was asked once, and nothing else has changed. -/
theorem Native.inCall_run (known : Native) (closing : Token) (arguments : List Value)
    (machine : Machine) :
    (∃ value : Value, value.IsConstant ∧
      Run.inCall (known.run closing arguments) machine = .done value machine.ticked) ∨
    ∃ message time, known.function (arguments.map Value.datum) time = .error message ∧
      Run.inCall (known.run closing arguments) machine =
        .failed ⟨closing, .native message⟩ machine.ticked := by
  have ran : Run.inCall (known.run closing arguments) machine =
      Run.orRaise closing (known.answer arguments (machine.clock machine.ticks))
        machine.ticked := by
    unfold Run.inCall run
    rw [Step.bind_apply]
    dsimp only [Run.readClock]
    cases known.answer arguments (machine.clock machine.ticks) <;> rfl
  rw [ran]
  unfold answer
  cases told : known.function (arguments.map Value.datum) (machine.clock machine.ticks) with
  | ok literal => exact .inl ⟨_, .literal literal, rfl⟩
  | error message => exact .inr ⟨message, _, told, rfl⟩

/-! ### Faults of operators -/

/-- An operator finds this in its operands, or there is no such operator. -/
def Fault.isOfOperator : Fault → Bool
  | .operandNotNumber | .operandsNotNumbers | .operandsNotAddable | .divisionByZero => true
  | .notUnaryOperator | .notBinaryOperator => true
  | _ => false

theorem isOfOperator_of_applyUnary {operator : Kind} {operand : Value} {fault : Fault}
    (raised : applyUnary operator operand = .error fault) : fault.isOfOperator = true := by
  unfold applyUnary at raised
  split at raised <;> cases raised <;> rfl

theorem isOfOperator_of_applyBinary {operator : Kind} {left right : Value} {fault : Fault}
    (raised : applyBinary operator left right = .error fault) : fault.isOfOperator = true := by
  have numbers : ∀ {operation},
      (∀ first second, operation first second = .error fault → fault.isOfOperator = true) →
      Value.onNumbers operation left right = .error fault → fault.isOfOperator = true := by
    intro operation ofOperation raised
    unfold Value.onNumbers at raised
    split at raised
    · exact ofOperation _ _ raised
    · cases raised
      rfl
  unfold applyBinary at raised
  split at raised
  case h_1 =>
    unfold Value.add at raised
    split at raised <;> cases raised
    rfl
  case h_4 =>
    refine numbers (fun first second divided => ?_) raised
    unfold Value.quotient at divided
    split at divided <;> cases divided
    rfl
  case h_9 | h_10 => cases raised
  case h_11 =>
    cases raised
    rfl
  all_goals exact numbers (fun _ _ same => by cases same) raised

end Lox
