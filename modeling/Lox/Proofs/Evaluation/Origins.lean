/-
**Where runtime errors come from.**

* `Moment.Faults` — at this moment the errand itself raises an error, and not what it sets about.
* `Moment.Raises` — an error is raised at a moment that this one reaches.
* `Moment.Traces` — if an outcome is an error, the moment raises it. There is one rule for each way
  in which computations are put together, so that this is a law (`Moment.law_traces`).
* `Moment.traced` — each moment traces its own outcome.
-/

import Lox.Proofs.Evaluation.Laws

namespace Lox

namespace Moment

/-! ### Errors of errands -/

/-- At this moment the errand itself raises the error. -/
inductive Faults : Moment → RuntimeError → Prop
  | read {fuel : Nat} {node : NodeId} {name : Token} {machine : Machine} :
      machine.valueAt? node name.lexeme = none →
      Faults ⟨fuel, .expression (.variable node name), machine⟩
        ⟨name, .undefinedVariable name.lexeme⟩
  | write {fuel : Nat} {node : NodeId} {name : Token} {value : Value} {machine : Machine} :
      machine.targetOf? node name.lexeme = none →
      Faults ⟨fuel, .assignment node name value, machine⟩ ⟨name, .undefinedVariable name.lexeme⟩
  | unary {fuel : Nat} {operator : Token} {right : Expr} {machine : Machine}
      {operand : Value} {fault : Fault} :
      applyUnary operator.kind operand = .error fault →
      Faults ⟨fuel, .expression (.unary operator right), machine⟩ ⟨operator, fault⟩
  | binary {fuel : Nat} {left right : Expr} {operator : Token} {machine : Machine}
      {first second : Value} {fault : Fault} :
      applyBinary operator.kind first second = .error fault →
      Faults ⟨fuel, .expression (.binary left operator right), machine⟩ ⟨operator, fault⟩
  | notCallable {fuel : Nat} {callee : Value} {closing : Token} {arguments : List Value}
      {machine : Machine} :
      Faults ⟨fuel, .call callee closing arguments, machine⟩ ⟨closing, .notCallable⟩
  | checked {fuel arity : Nat} {callee : Value} {closing : Token} {arguments : List Value}
      {machine later : Machine} {error : RuntimeError} :
      Run.checkCall closing arity arguments.length machine = .failed error later →
      Faults ⟨fuel, .call callee closing arguments, machine⟩ error
  | native {fuel : Nat} {known : Native} {closing : Token} {arguments : List Value}
      {machine : Machine} {time : Float} {message : String} :
      known.function (arguments.map Value.datum) time = .error message →
      Faults ⟨fuel, .call (.native known) closing arguments, machine⟩ ⟨closing, .native message⟩
  | print {fuel : Nat} {keyword : Token} {value : Expr} {machine : Machine} {reason : String} :
      Faults ⟨fuel, .statement (.print keyword value), machine⟩ ⟨keyword, .outputFailed reason⟩

/-- The error is raised at a moment that this one reaches. -/
def Raises (moment : Moment) (error : RuntimeError) : Prop :=
  ∃ last, Reaches moment last ∧ last.Faults error

/-- If the outcome is an error, the moment raises it. -/
def Traces (moment : Moment) {α : Type} (outcome : Outcome Machine RuntimeError α) : Prop :=
  ∀ error later, outcome = .failed error later → moment.Raises error

namespace Traces

variable {moment inner : Moment} {machine : Machine} {α β : Type}
  {outcome : Outcome Machine RuntimeError α}

theorem of_enters (traces : inner.Traces outcome) (enters : Enters moment inner) :
    moment.Traces outcome := by
  intro error later failed
  obtain ⟨last, reaches, faults⟩ := traces error later failed
  exact ⟨last, .head enters reaches, faults⟩

theorem bind {first : Run α} {next : α → Run β} (traces : moment.Traces (first machine))
    (rest : ∀ value later, first machine = .done value later → moment.Traces (next value later)) :
    moment.Traces ((first >>= next) machine) := by
  intro error later failed
  rw [Step.bind_apply] at failed
  cases ran : first machine with
  | done value between =>
    rw [ran] at failed
    exact rest value between ran error later failed
  | failed raised last =>
    rw [ran] at failed
    cases failed
    exact traces error later ran
  | outOfFuel =>
    rw [ran] at failed
    cases failed

theorem done (value : α) (later : Machine) :
    moment.Traces (.done value later : Outcome Machine RuntimeError α) := by
  intro error last failed
  cases failed

theorem pure (value : α) : moment.Traces ((pure value : Run α) machine) :=
  done value machine

theorem outOfFuel : moment.Traces (.outOfFuel : Outcome Machine RuntimeError α) := by
  intro error last failed
  cases failed

/-- Only the error matters. -/
theorem of_error {other : Outcome Machine RuntimeError β} (traces : moment.Traces outcome)
    (same : ∀ error later, other = .failed error later → ∃ last, outcome = .failed error last) :
    moment.Traces other := by
  intro error later failed
  obtain ⟨last, raised⟩ := same error later failed
  exact traces error last raised

/-- What is made of the value afterwards does not matter, -/
theorem map_iff {change : α → β} : moment.Traces (outcome.map change) ↔ moment.Traces outcome := by
  constructor <;>
  · refine fun traces => traces.of_error fun error later failed => ⟨later, ?_⟩
    cases outcome <;> cases failed
    rfl

/-- and neither does what happens to the machine. -/
theorem onState (traces : moment.Traces outcome) {change : Machine → Machine} :
    moment.Traces (outcome.onState change) := by
  refine traces.of_error fun error later failed => ?_
  cases outcome <;> cases failed
  exact ⟨_, rfl⟩

theorem ofBody {outcome : Outcome Machine RuntimeError Flow} (traces : moment.Traces outcome) :
    moment.Traces outcome.ofBody := by
  refine traces.of_error fun error later failed => ⟨later, ?_⟩
  cases outcome <;> cases failed
  rfl

/-- An error of the errand itself is raised at this very moment. -/
theorem orRaise {token : Token} {result : Except Fault α}
    (faults : ∀ fault, result = .error fault → moment.Faults ⟨token, fault⟩) :
    moment.Traces (Run.orRaise token result machine) := by
  cases result with
  | ok value => exact pure value
  | error fault =>
    rintro error later ⟨⟩
    exact ⟨moment, .refl, faults fault rfl⟩

theorem readVariable {fuel : Nat} {node : NodeId} {name : Token} :
    Traces ⟨fuel, .expression (.variable node name), machine⟩
      (Run.readVariable node name machine) := by
  unfold Run.readVariable
  cases found : machine.valueAt? node name.lexeme with
  | some value => exact done value machine
  | none =>
    rintro error later ⟨⟩
    exact ⟨_, .refl, .read found⟩

theorem assignVariable {fuel : Nat} {node : NodeId} {name : Token} {value : Value} :
    Traces ⟨fuel, .assignment node name value, machine⟩
      (Run.assignVariable node name value machine) := by
  unfold Run.assignVariable
  cases found : machine.targetOf? node name.lexeme with
  | some target => exact done () _
  | none =>
    rintro error later ⟨⟩
    exact ⟨_, .refl, .write found⟩

theorem print {fuel : Nat} {keyword : Token} {value : Expr} {printed : Value} {between : Machine} :
    Traces ⟨fuel, .statement (.print keyword value), machine⟩
      (Run.print keyword printed between) := by
  unfold Run.print
  cases between.sink with
  | «open» => exact done () _
  | closed =>
    rintro error later ⟨⟩
    exact ⟨_, .refl, .print⟩

theorem checkCall {fuel arity : Nat} {callee : Value} {closing : Token} {arguments : List Value} :
    Traces ⟨fuel, .call callee closing arguments, machine⟩
      (Run.checkCall closing arity arguments.length machine) :=
  fun _ _ failed => ⟨_, .refl, .checked failed⟩

end Traces

/-! ### All moments -/

/-- Errors go back to the moments that raise them. -/
theorem law_traces : Law fun moment _ _ outcome => moment.Traces outcome where
  map_iff := Traces.map_iff
  outOfFuel := .outOfFuel
  pure := .pure
  bind := .bind
  enters enters traces := .of_enters traces enters
  block traces := .onState (.of_enters traces .block)
  body checked traces := .ofBody (.onState (.of_enters traces (.body checked)))
  unary := .orRaise fun _ => .unary
  binary := .orRaise fun _ => .binary
  readVariable := .readVariable
  assignVariable := .assignVariable
  declareVariable := .done _ _
  declareFunction := .done _ _
  makeFunction := .done _ _
  print := .print
  checkCall := .checkCall
  native {_ known closing arguments _ machine} := by
    rcases known.inCall_run closing arguments machine
      with ⟨value, -, ran⟩ | ⟨message, time, told, ran⟩
    · rw [ran]
      exact .done _ _
    · rw [ran]
      rintro error later ⟨⟩
      exact ⟨_, .refl, .native told⟩
  notCallable {_ _ _ _ _} := by
    rintro error later ⟨⟩
    exact ⟨_, .refl, .notCallable⟩

/-- **Each error that an errand ends with is raised at a moment that it reaches.** -/
theorem traced (moment : Moment) : moment.Traces moment.outcome :=
  law_traces.holds moment

end Moment

end Lox
