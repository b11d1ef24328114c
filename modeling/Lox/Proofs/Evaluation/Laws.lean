/-
**Laws of evaluation.**

* `Moment.Law law` — something that may hold, at a moment, of a computation and the machine
  that it begins in. There is one rule for each operation on a machine, and one for each way in
  which computations are put together, so that the law holds of a moment if it holds of all
  moments that this one enters.
* `Moment.Law.holds` — such a law holds of the outcome of each moment. The proof is by induction on
  the fuel, with one step for each kind of errand.
-/

import Lox.Proofs.Evaluation.Regimes

namespace Lox

namespace Moment

/-- The rules by which something holds of the computations of an errand, whatever
they are put together of. -/
structure Law (law : Moment → Machine → {α : Type} → Outcome Machine RuntimeError α → Prop) :
    Prop where
  /-- What is made of the values does not matter. -/
  map_iff {moment : Moment} {machine : Machine} {α β : Type}
    {outcome : Outcome Machine RuntimeError α}
    {change : α → β} : law moment machine (outcome.map change) ↔ law moment machine outcome
  outOfFuel {moment : Moment} {machine : Machine} {α : Type} :
    law moment machine (.outOfFuel : Outcome Machine RuntimeError α)
  pure {moment : Moment} {machine : Machine} {α : Type} (value : α) :
    law moment machine ((pure value : Run α) machine)
  bind {moment : Moment} {machine : Machine} {α β : Type} {first : Run α} {next : α → Run β} :
    law moment machine (first machine) →
    (∀ value later, first machine = .done value later → law moment later (next value later)) →
    law moment machine ((first >>= next) machine)
  enters {moment inner : Moment} {α : Type} {outcome : Outcome Machine RuntimeError α} :
    Enters moment inner → law inner inner.machine outcome → law moment inner.machine outcome
  block {fuel : Nat} {forms : List Stmt} {machine : Machine}
    {outcome : Outcome Machine RuntimeError Flow} :
    law ⟨fuel, .statements forms, machine.inBlock⟩ machine.inBlock outcome →
    law ⟨fuel + 1, .statement (.block forms), machine⟩ machine (outcome.onState machine.backTo)
  body {fuel : Nat} {closure : Closure} {closing : Token} {arguments : List Value}
    {machine : Machine} {outcome : Outcome Machine RuntimeError Flow} :
    Run.checkCall closing closure.body.arity arguments.length machine = .done () machine →
    law ⟨fuel, .statements closure.body.statements, machine.inBody closure arguments⟩
      (machine.inBody closure arguments) outcome →
    law ⟨fuel + 1, .call (.function closure) closing arguments, machine⟩ machine
      (outcome.onState machine.backFrom).ofBody
  unary {fuel : Nat} {operator : Token} {right : Expr} {before machine : Machine}
    {operand : Value} :
    law ⟨fuel, .expression (.unary operator right), before⟩ machine
      (Run.orRaise operator (applyUnary operator.kind operand) machine)
  binary {fuel : Nat} {left right : Expr} {operator : Token} {before machine : Machine}
    {first second : Value} :
    law ⟨fuel, .expression (.binary left operator right), before⟩ machine
      (Run.orRaise operator (applyBinary operator.kind first second) machine)
  readVariable {fuel : Nat} {node : NodeId} {name : Token} {machine : Machine} :
    law ⟨fuel, .expression (.variable node name), machine⟩ machine
      (Run.readVariable node name machine)
  assignVariable {fuel : Nat} {node : NodeId} {name : Token} {value : Value} {machine : Machine} :
    law ⟨fuel, .assignment node name value, machine⟩ machine
      (Run.assignVariable node name value machine)
  declareVariable {fuel : Nat} {name : Token} {initializer : Option Expr}
    {before machine : Machine} {value : Value} :
    law ⟨fuel, .statement (.var name initializer), before⟩ machine (Run.declare name value machine)
  declareFunction {fuel : Nat} {name : Token} {body : FunctionBody} {before machine : Machine}
    {value : Value} :
    law ⟨fuel, .statement (.function name body), before⟩ machine (Run.declare name value machine)
  makeFunction {moment : Moment} {machine : Machine} {name : Option String} {body : FunctionBody} :
    law moment machine (Run.makeFunction name body machine)
  print {fuel : Nat} {keyword : Token} {printed : Expr} {before machine : Machine} {value : Value} :
    law ⟨fuel, .statement (.print keyword printed), before⟩ machine
      (Run.print keyword value machine)
  checkCall {fuel arity : Nat} {callee : Value} {closing : Token} {arguments : List Value}
    {machine : Machine} :
    law ⟨fuel, .call callee closing arguments, machine⟩ machine
      (Run.checkCall closing arity arguments.length machine)
  native {fuel : Nat} {known : Native} {closing : Token} {arguments : List Value}
    {before machine : Machine} :
    law ⟨fuel, .call (.native known) closing arguments, before⟩ machine
      (Run.inCall (known.run closing arguments) machine)
  notCallable {fuel : Nat} {callee : Value} {closing : Token} {arguments : List Value}
    {machine : Machine} :
    law ⟨fuel, .call callee closing arguments, machine⟩ machine
      (Run.raise closing .notCallable machine : Outcome Machine RuntimeError Value)

/-- The law holds of the outcome of the moment. -/
def Obeys (law : Moment → Machine → {α : Type} → Outcome Machine RuntimeError α → Prop)
    (moment : Moment) : Prop :=
  law moment moment.machine moment.outcome

namespace Law

variable {law : Moment → Machine → {α : Type} → Outcome Machine RuntimeError α → Prop}
  (isLaw : Law law)

include isLaw

/-! ### Each errand -/

section

variable {fuel : Nat} (obeys : ∀ moment : Moment, moment.fuel = fuel → moment.Obeys law)

include obeys

/-- What is entered with the fuel obeys the law, and does so at the moment that enters it. -/
theorem of_enters {before after : Moment} {α : Type} {change : α → List Value}
    {outcome : Outcome Machine RuntimeError α} (enters : Enters before after)
    (isFuel : after.fuel = fuel) (same : after.outcome = outcome.map change) :
    law before after.machine outcome := by
  have inside : law after after.machine after.outcome := obeys after isFuel
  rw [same] at inside
  exact isLaw.enters enters (isLaw.map_iff.mp inside)

theorem expression {value : Expr} {machine : Machine} :
    law ⟨fuel + 1, .expression value, machine⟩ machine (evaluate (fuel + 1) value machine) := by
  have inner : ∀ {inside : Expr} {between : Machine},
      Enters ⟨fuel + 1, .expression value, machine⟩ ⟨fuel, .expression inside, between⟩ →
      law ⟨fuel + 1, .expression value, machine⟩ between (evaluate fuel inside between) :=
    fun enters => isLaw.of_enters obeys enters rfl rfl
  cases value with
  | literal => exact isLaw.pure _
  | grouping =>
    rw [evaluate]
    exact inner .grouping
  | unary =>
    rw [evaluate]
    exact isLaw.bind (inner .unary) fun _ _ _ => isLaw.unary
  | binary =>
    rw [evaluate]
    refine isLaw.bind (inner .binaryLeft) fun _ _ done => ?_
    exact isLaw.bind (inner (.binaryRight done)) fun _ _ _ => isLaw.binary
  | logical left operator right =>
    rw [evaluate]
    refine isLaw.bind (inner .logicalLeft) fun first _ done => ?_
    cases decides : decidesLogical operator.kind first with
    | true => exact isLaw.pure _
    | false => exact isLaw.bind (inner (.logicalRight done decides)) fun _ _ _ => isLaw.pure _
  | ternary =>
    rw [evaluate]
    refine isLaw.bind (inner .ternaryCondition) fun decision _ done => ?_
    cases truthy : decision.truthy with
    | true => exact inner (.ternaryYes done truthy)
    | false => exact inner (.ternaryNo done truthy)
  | «variable» =>
    rw [evaluate]
    exact isLaw.readVariable
  | assign =>
    rw [evaluate]
    refine isLaw.bind (inner .assigned) fun _ _ done => ?_
    exact isLaw.bind (isLaw.enters (.assignment done) isLaw.assignVariable)
      fun _ _ _ => isLaw.pure _
  | call =>
    rw [evaluate]
    refine isLaw.bind (inner .callee) fun _ _ done => ?_
    refine isLaw.bind (isLaw.of_enters obeys (.arguments done) rfl rfl) fun _ _ doneAll => ?_
    exact isLaw.of_enters obeys (.call done doneAll) rfl rfl
  | lambda =>
    rw [evaluate]
    exact isLaw.makeFunction

theorem arguments {values : List Expr} {machine : Machine} :
    law ⟨fuel + 1, .arguments values, machine⟩ machine (evaluateAll (fuel + 1) values machine) := by
  cases values with
  | nil => exact isLaw.pure _
  | cons first rest =>
    rw [evaluateAll]
    refine isLaw.bind (isLaw.of_enters obeys .firstArgument rfl rfl) fun _ _ done => ?_
    exact isLaw.bind (isLaw.of_enters obeys (.otherArguments done) rfl rfl)
      fun _ _ _ => isLaw.pure _

theorem call {callee : Value} {closing : Token} {arguments : List Value} {machine : Machine} :
    law ⟨fuel + 1, .call callee closing arguments, machine⟩ machine
      (callValue (fuel + 1) callee closing arguments machine) := by
  cases callee with
  | native known =>
    rw [callValue]
    exact isLaw.bind isLaw.checkCall fun _ _ _ => isLaw.native
  | function closure =>
    have before : law ⟨fuel + 1, .call (.function closure) closing arguments, machine⟩ machine
        (Run.checkCall closing closure.body.arity arguments.length machine) := isLaw.checkCall
    rw [callValue_function]
    cases checked : Run.checkCall closing closure.body.arity arguments.length machine with
    | outOfFuel => exact isLaw.outOfFuel
    | failed error later =>
      rw [checked] at before
      have failed : law _ _ ((Outcome.failed error later).map fun _ : Unit => Value.nil) :=
        isLaw.map_iff.mpr before
      exact failed
    | done _ later =>
      obtain ⟨-, rfl⟩ := Run.of_checkCall_done checked
      exact isLaw.body checked (isLaw.map_iff.mp (obeys _ rfl))
  | _ => exact isLaw.notCallable

theorem statement {form : Stmt} {machine : Machine} :
    law ⟨fuel + 1, .statement form, machine⟩ machine (execute (fuel + 1) form machine) := by
  cases form with
  | expression =>
    rw [execute]
    exact isLaw.bind (isLaw.of_enters obeys .expressionStatement rfl rfl) fun _ _ _ => isLaw.pure _
  | print =>
    rw [execute]
    refine isLaw.bind (isLaw.of_enters obeys .print rfl rfl) fun _ _ _ => ?_
    exact isLaw.bind isLaw.print fun _ _ _ => isLaw.pure _
  | var =>
    rw [execute]
    refine isLaw.bind (isLaw.of_enters obeys .variable rfl rfl) fun _ _ _ => ?_
    exact isLaw.bind isLaw.declareVariable fun _ _ _ => isLaw.pure _
  | block =>
    rw [execute_block]
    exact isLaw.block (isLaw.map_iff.mp (obeys _ rfl))
  | «if» condition yes no =>
    rw [execute.eq_def]
    refine isLaw.bind (isLaw.of_enters obeys .ifCondition rfl rfl) fun decision _ done => ?_
    cases truthy : decision.truthy with
    | true => exact isLaw.of_enters obeys (.ifYes done truthy) rfl rfl
    | false =>
      cases no with
      | none => exact isLaw.pure _
      | some no => exact isLaw.of_enters obeys (.ifNo done truthy) rfl rfl
  | «while» =>
    rw [execute]
    exact isLaw.of_enters obeys .whileLoop rfl rfl
  | function =>
    rw [execute]
    exact isLaw.bind isLaw.makeFunction fun _ _ _ => isLaw.bind isLaw.declareFunction
      fun _ _ _ => isLaw.pure _
  | «return» =>
    rw [execute.eq_def]
    exact isLaw.bind (isLaw.of_enters obeys .returning rfl rfl) fun _ _ _ => isLaw.pure _

theorem optional {value : Option Expr} {machine : Machine} :
    law ⟨fuel + 1, .optional value, machine⟩ machine (evaluateOr (fuel + 1) value machine) := by
  cases value with
  | none => exact isLaw.pure _
  | some value =>
    rw [evaluateOr]
    exact isLaw.of_enters obeys .optional rfl rfl

theorem statements {forms : List Stmt} {machine : Machine} :
    law ⟨fuel + 1, .statements forms, machine⟩ machine (executeAll (fuel + 1) forms machine) := by
  cases forms with
  | nil => exact isLaw.pure _
  | cons first rest =>
    rw [executeAll]
    refine isLaw.bind (isLaw.of_enters obeys .firstStatement rfl rfl) fun flow _ done => ?_
    cases flow with
    | returned => exact isLaw.pure _
    | normal => exact isLaw.of_enters obeys (.otherStatements done) rfl rfl

theorem loop {condition : Expr} {body : Stmt} {machine : Machine} :
    law ⟨fuel + 1, .loop condition body, machine⟩ machine
      (repeatWhile (fuel + 1) condition body machine) := by
  rw [repeatWhile]
  refine isLaw.bind (isLaw.of_enters obeys .loopCondition rfl rfl) fun decision _ done => ?_
  cases truthy : decision.truthy with
  | false => exact isLaw.pure _
  | true =>
    refine isLaw.bind (isLaw.of_enters obeys (.loopBody done truthy) rfl rfl)
      fun flow _ doneBody => ?_
    cases flow with
    | returned => exact isLaw.pure _
    | normal => exact isLaw.of_enters obeys (.loopAgain done truthy doneBody) rfl rfl

end

/-! ### All moments -/

/-- A program obeys the law, if its statements do. -/
theorem program {fuel : Nat}
    (statements : ∀ form machine,
      law ⟨fuel, .statement form, machine⟩ machine (execute fuel form machine))
    (forms : List Stmt) (machine : Machine) :
    law ⟨fuel, .program forms, machine⟩ machine (interpret fuel forms machine) := by
  induction forms generalizing machine with
  | nil => exact isLaw.pure _
  | cons first rest ih =>
    rw [interpret]
    refine isLaw.bind (isLaw.enters .programStatement (statements first machine))
      fun flow later done => ?_
    cases flow with
    | returned => exact isLaw.pure _
    | normal => exact isLaw.enters (.restOfProgram done) (ih later)

/-- **A law holds of the outcome of each moment.** -/
theorem holds (moment : Moment) : law moment moment.machine moment.outcome := by
  obtain ⟨fuel, errand, machine⟩ := moment
  -- the fuel bounds the depth of the recursion, which is what the induction is on
  induction fuel generalizing errand machine with
  | zero =>
    cases errand with
    | assignment => exact isLaw.map_iff.mpr isLaw.assignVariable
    | program forms =>
      exact isLaw.map_iff.mpr (isLaw.program (fun _ _ => isLaw.outOfFuel) forms machine)
    | _ => exact isLaw.outOfFuel
  | succ fuel ih =>
    have inner : ∀ moment : Moment, moment.fuel = fuel → moment.Obeys law := by
      rintro ⟨_, errand, machine⟩ rfl
      exact ih errand machine
    cases errand with
    | expression => exact isLaw.map_iff.mpr (isLaw.expression inner)
    | arguments => exact isLaw.map_iff.mpr (isLaw.arguments inner)
    | call => exact isLaw.map_iff.mpr (isLaw.call inner)
    | assignment => exact isLaw.map_iff.mpr isLaw.assignVariable
    | statement => exact isLaw.map_iff.mpr (isLaw.statement inner)
    | optional => exact isLaw.map_iff.mpr (isLaw.optional inner)
    | statements => exact isLaw.map_iff.mpr (isLaw.statements inner)
    | loop => exact isLaw.map_iff.mpr (isLaw.loop inner)
    -- the statements of a program have the fuel of the program
    | program forms =>
      exact isLaw.map_iff.mpr (isLaw.program (fun _ _ => isLaw.statement inner) forms machine)

end Law

end Moment

end Lox
