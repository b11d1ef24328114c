/-
**What evaluation asks for at each moment.**

* `Demand` — what one level of evaluation leaves to others: an errand, or a native function to run.
* `Errand.level` — one level of evaluation, for any answers to its demands. `Moment.run_eq_level`:
  with the answers that evaluation itself gives, it is evaluation.
* `Moment.Asks` — what comes of a moment depends on the answer to a demand in a machine. That is
  about what evaluation does; which machine it should be is not said here.
* `Moment.Demands` — the demands that follow from the form of an errand: those of the moments that
  are entered, and for a call of a native function that function, with one more call counted.
* `Moment.asks_iff` — these are the same.
-/

import Lox.Proofs.Evaluation.Upkeep

namespace Lox

/-! ### Demands and their answers -/

/-- What comes of an errand that ends. -/
@[reducible] def Errand.Answer : Errand → Type
  | .expression _ | .call .. | .optional _ => Value
  | .arguments _ => List Value
  | .statement _ | .statements _ | .loop .. => Flow
  | .assignment .. | .program _ => Unit

/-- What one level of evaluation leaves to others. -/
inductive Demand where
  | errand (errand : Errand)
  | native (known : Native) (closing : Token) (arguments : List Value)

/-- What comes of a demand that is granted. -/
@[reducible] def Demand.Answer : Demand → Type
  | .errand asked => asked.Answer
  | .native .. => Value

/-- An errand as evaluation runs it. -/
def Errand.run (fuel : Nat) : (errand : Errand) → Run errand.Answer
  | .expression value => evaluate fuel value
  | .arguments forms => evaluateAll fuel forms
  | .call callee closing values => callValue fuel callee closing values
  | .assignment node name value => Run.assignVariable node name value
  | .statement form => execute fuel form
  | .optional value => evaluateOr fuel value
  | .statements forms => executeAll fuel forms
  | .loop condition body => repeatWhile fuel condition body
  | .program forms => interpret fuel forms

/-- The answer that evaluation gives to a demand. -/
def Demand.run (fuel : Nat) : (demand : Demand) → Run demand.Answer
  | .errand asked => asked.run fuel
  | .native known closing arguments => known.run closing arguments

/-- Answers to all demands. -/
abbrev Answers : Type :=
  (demand : Demand) → Run demand.Answer

/-! ### One level of evaluation -/

section

variable (answers : Answers)

/-- One level of the evaluation of an expression. -/
def Expr.level : Expr → Run Value
  | .literal value => pure value.value
  | .grouping inner => answers (.errand (.expression inner))
  | .unary operator right => do
    let operand : Value ← answers (.errand (.expression right))
    Run.orRaise operator (applyUnary operator.kind operand)
  | .binary left operator right => do
    let first : Value ← answers (.errand (.expression left))
    let second : Value ← answers (.errand (.expression right))
    Run.orRaise operator (applyBinary operator.kind first second)
  | .logical left operator right => do
    let first : Value ← answers (.errand (.expression left))
    if decidesLogical operator.kind first then
      return first
    else
      let second : Value ← answers (.errand (.expression right))
      return .boolean second.truthy
  | .ternary condition _ yes no => do
    let decision : Value ← answers (.errand (.expression condition))
    if decision.truthy then answers (.errand (.expression yes))
    else answers (.errand (.expression no))
  | .variable node name => Run.readVariable node name
  | .assign node name value => do
    let assigned : Value ← answers (.errand (.expression value))
    let _ : Unit ← answers (.errand (.assignment node name assigned))
    return assigned
  | .call callee arguments closing => do
    let function : Value ← answers (.errand (.expression callee))
    let values : List Value ← answers (.errand (.arguments arguments))
    answers (.errand (.call function closing values))
  | .lambda _ function => Run.makeFunction none function

/-- One level of a call. -/
def Value.levelOfCall (closing : Token) (arguments : List Value) : Value → Run Value
  | .native known => do
    Run.checkCall closing known.arity arguments.length
    Run.inCall (answers (.native known closing arguments))
  | .function closure => do
    Run.checkCall closing closure.body.arity arguments.length
    Run.inCall do
      let scope ← Run.openScope closure.scope
      Run.defineAll scope ((closure.body.parameters.map Token.lexeme).zip arguments)
      let flow : Flow ← Run.inScope scope (answers (.errand (.statements closure.body.statements)))
      return flow.value
  | _ => Run.raise closing .notCallable

/-- One level of a statement. -/
def Stmt.level : Stmt → Run Flow
  | .expression value => do
    let _ : Value ← answers (.errand (.expression value))
    return .normal
  | .print keyword value => do
    let printed : Value ← answers (.errand (.expression value))
    Run.print keyword printed
    return .normal
  | .var name initializer => do
    let value : Value ← answers (.errand (.optional initializer))
    Run.declare name value
    return .normal
  | .block statements => do
    let current ← Step.view Machine.scope
    let scope ← Run.openScope current
    Run.inScope scope (answers (.errand (.statements statements)))
  | .if condition yes no => do
    let decision : Value ← answers (.errand (.expression condition))
    if decision.truthy then answers (.errand (.statement yes))
    else
      match no with
      | some no => answers (.errand (.statement no))
      | none => return .normal
  | .while condition body => answers (.errand (.loop condition body))
  | .function name body => do
    let value ← Run.makeFunction (some name.lexeme) body
    Run.declare name value
    return .normal
  | .return _ value => do
    let value : Value ← answers (.errand (.optional value))
    return .returned value

/-- **One level of evaluation.** Whatever is to be evaluated on the way is a demand, and so is each
native function that is called. -/
def Errand.level : (errand : Errand) → Run errand.Answer
  | .expression value => value.level answers
  | .arguments [] => (pure [] : Run (List Value))
  | .arguments (first :: rest) => show Run (List Value) from do
    let value : Value ← answers (.errand (.expression first))
    let values : List Value ← answers (.errand (.arguments rest))
    return value :: values
  | .call callee closing values => callee.levelOfCall answers closing values
  | .assignment node name value => Run.assignVariable node name value
  | .statement form => form.level answers
  | .optional none => (pure .nil : Run Value)
  | .optional (some value) => answers (.errand (.expression value))
  | .statements [] => (pure .normal : Run Flow)
  | .statements (first :: rest) => show Run Flow from do
    let flow : Flow ← answers (.errand (.statement first))
    match flow with
    | .returned value => return .returned value
    | .normal => answers (.errand (.statements rest))
  | .loop condition body => show Run Flow from do
    let decision : Value ← answers (.errand (.expression condition))
    if decision.truthy then
      let flow : Flow ← answers (.errand (.statement body))
      match flow with
      | .returned value => return .returned value
      | .normal => answers (.errand (.loop condition body))
    else
      return .normal
  | .program [] => (pure () : Run Unit)
  | .program (first :: rest) => show Run Unit from do
    let flow : Flow ← answers (.errand (.statement first))
    match flow with
    | .returned _ => return ()
    | .normal => answers (.errand (.program rest))

end

/-- The fuel for what is asked for at a moment, if there is any. The statements of a program have
the fuel of the program, and an assignment asks for nothing. -/
def Moment.below (moment : Moment) : Option Nat :=
  match moment.errand, moment.fuel with
  | .program _, fuel | .assignment .., fuel | _, fuel + 1 => some fuel
  | _, 0 => none

/-- **Evaluation is its levels, one below the other.** -/
theorem Moment.run_eq_level {moment : Moment} {fuel : Nat} (isBelow : moment.below = some fuel) :
    moment.errand.run moment.fuel = moment.errand.level (Demand.run fuel) := by
  obtain ⟨outer, errand, machine⟩ := moment
  cases errand with
  | assignment => rfl
  | program forms =>
    cases isBelow
    cases forms <;> rfl
  | expression | call | statement | loop =>
    cases outer <;> cases isBelow
    rfl
  | arguments forms | «optional» forms | statements forms =>
    cases outer <;> cases isBelow
    cases forms <;> rfl

/-- What comes of a moment depends on the answer to this demand in this machine: with another answer
there, and only there, something else comes of it. -/
def Moment.Asks (moment : Moment) (demand : Demand) (machine : Machine) : Prop :=
  ∃ fuel, moment.below = some fuel ∧ ∃ answers : Answers,
    (∀ other between, other ≠ demand ∨ between ≠ machine →
      answers other between = other.run fuel between) ∧
    moment.errand.level answers moment.machine ≠ moment.errand.run moment.fuel moment.machine

/-! ### The demands of each errand -/

/-- What is demanded at a moment, and in which machine. -/
inductive Moment.Demands : Moment → Demand → Machine → Prop
  /-- The errand of a moment that is entered. -/
  | enters {outer inner : Moment} :
      Enters outer inner → Demands outer (.errand inner.errand) inner.machine
  /-- A native function, which is run with one more call counted. -/
  | native {fuel : Nat} {known : Native} {closing : Token} {arguments : List Value}
      {machine : Machine} :
      Run.checkCall closing known.arity arguments.length machine = .done () machine →
      Demands ⟨fuel + 1, .call (.native known) closing arguments, machine⟩
        (.native known closing arguments) { machine with depth := machine.depth + 1 }

/-- What is entered has the fuel for what is asked for. -/
theorem Enters.below {outer inner : Moment} (enters : Enters outer inner) :
    outer.below = some inner.fuel := by
  cases enters <;> rfl

/-- Two sequences of computations do the same from a state, if the first ones do, and if
the others do after that. -/
theorem Step.bind_congr {σ ε α β : Type} {first other : Step σ ε α} {next after : α → Step σ ε β}
    {state : σ} (same : first state = other state)
    (rest : ∀ value later, other state = .done value later → next value later = after value later) :
    (first >>= next) state = (other >>= after) state := by
  rw [Step.bind_apply, Step.bind_apply, same]
  cases done : other state with
  | done value later => exact rest value later done
  | failed | outOfFuel => rfl

theorem Run.inScope_congr {α : Type} {scope : ScopeId} {body other : Run α} {machine : Machine}
    (same : body { machine with scope := scope } = other { machine with scope := scope }) :
    Run.inScope scope body machine = Run.inScope scope other machine := by
  rw [Run.inScope_apply, Run.inScope_apply, same]

theorem Run.inCall_congr {α : Type} {body other : Run α} {machine : Machine}
    (same : body { machine with depth := machine.depth + 1 } =
      other { machine with depth := machine.depth + 1 }) :
    Run.inCall body machine = Run.inCall other machine := by
  rw [Run.inCall_apply, Run.inCall_apply, same]

section

variable {fuel : Nat} {answers : Answers} {machine : Machine}

/-- The answers to all that is demanded at a moment are those of evaluation. -/
def Answers.Agree (answers : Answers) (fuel : Nat) (moment : Moment) : Prop :=
  ∀ demand machine, moment.Demands demand machine →
    answers demand machine = demand.run fuel machine

theorem Answers.Agree.enters {outer inner : Moment} (agree : answers.Agree fuel outer)
    (enters : Enters outer inner) :
    answers (.errand inner.errand) inner.machine = inner.errand.run fuel inner.machine :=
  agree _ _ (.enters enters)

theorem Expr.level_congr {value : Expr}
    (agree : answers.Agree fuel ⟨fuel + 1, .expression value, machine⟩) :
    value.level answers machine = evaluate (fuel + 1) value machine := by
  cases value with
  | literal | «variable» | lambda => rfl
  | grouping => exact agree.enters .grouping
  | unary =>
    rw [evaluate]
    exact Step.bind_congr (agree.enters .unary) fun _ _ _ => rfl
  | binary =>
    rw [evaluate]
    refine Step.bind_congr (agree.enters .binaryLeft) fun _ _ done => ?_
    exact Step.bind_congr (agree.enters (.binaryRight done)) fun _ _ _ => rfl
  | logical left operator right =>
    rw [evaluate]
    refine Step.bind_congr (agree.enters .logicalLeft) fun first _ done => ?_
    cases decides : decidesLogical operator.kind first with
    | true => rfl
    | false => exact Step.bind_congr (agree.enters (.logicalRight done decides)) fun _ _ _ => rfl
  | ternary =>
    rw [evaluate]
    refine Step.bind_congr (agree.enters .ternaryCondition) fun decision _ done => ?_
    cases truthy : decision.truthy with
    | true => exact agree.enters (.ternaryYes done truthy)
    | false => exact agree.enters (.ternaryNo done truthy)
  | assign =>
    rw [evaluate]
    refine Step.bind_congr (agree.enters .assigned) fun _ _ done => ?_
    exact Step.bind_congr (agree.enters (.assignment done)) fun _ _ _ => rfl
  | call =>
    rw [evaluate]
    refine Step.bind_congr (agree.enters .callee) fun _ _ done => ?_
    refine Step.bind_congr (agree.enters (.arguments done)) fun _ _ doneAll => ?_
    exact agree.enters (.call done doneAll)

theorem Value.levelOfCall_congr {callee : Value} {closing : Token} {arguments : List Value}
    (agree : answers.Agree fuel ⟨fuel + 1, .call callee closing arguments, machine⟩) :
    callee.levelOfCall answers closing arguments machine =
      callValue (fuel + 1) callee closing arguments machine := by
  cases callee with
  | native known =>
    rw [callValue]
    refine Step.bind_congr rfl fun _ _ checked => Run.inCall_congr ?_
    obtain ⟨-, rfl⟩ := Run.of_checkCall_done checked
    exact agree _ _ (.native checked)
  | function closure =>
    rw [callValue]
    refine Step.bind_congr rfl fun _ _ checked => Run.inCall_congr ?_
    obtain ⟨-, rfl⟩ := Run.of_checkCall_done checked
    refine Step.bind_congr rfl fun _ _ opened => Step.bind_congr rfl fun _ _ defined => ?_
    cases opened
    cases defined
    exact Step.bind_congr (Run.inScope_congr (agree.enters (.body checked))) fun _ _ _ => rfl
  | _ => rfl

theorem Stmt.level_congr {form : Stmt}
    (agree : answers.Agree fuel ⟨fuel + 1, .statement form, machine⟩) :
    form.level answers machine = execute (fuel + 1) form machine := by
  cases form with
  | expression =>
    rw [execute]
    exact Step.bind_congr (agree.enters .expressionStatement) fun _ _ _ => rfl
  | print =>
    rw [execute]
    exact Step.bind_congr (agree.enters .print) fun _ _ _ => rfl
  | var =>
    rw [execute]
    exact Step.bind_congr (agree.enters .variable) fun _ _ _ => rfl
  | block =>
    rw [execute]
    refine Step.bind_congr rfl fun _ _ viewed => Step.bind_congr rfl fun _ _ opened => ?_
    cases viewed
    cases opened
    exact Run.inScope_congr (agree.enters .block)
  | «if» condition yes no =>
    rw [execute.eq_def]
    refine Step.bind_congr (agree.enters .ifCondition) fun decision _ done => ?_
    cases truthy : decision.truthy with
    | true => exact agree.enters (.ifYes done truthy)
    | false =>
      cases no with
      | none => rfl
      | some no => exact agree.enters (.ifNo done truthy)
  | «while» => exact agree.enters .whileLoop
  | function => rfl
  | «return» =>
    rw [execute.eq_def]
    exact Step.bind_congr (agree.enters .returning) fun _ _ _ => rfl

/-- **Only what is demanded matters:** with the answers of evaluation there, the level is as in
evaluation. -/
theorem Moment.level_congr {moment : Moment} (isBelow : moment.below = some fuel)
    (agree : answers.Agree fuel moment) :
    moment.errand.level answers moment.machine =
      moment.errand.run moment.fuel moment.machine := by
  obtain ⟨outer, errand, machine⟩ := moment
  cases errand with
  | assignment => rfl
  | program forms =>
    cases isBelow
    cases forms with
    | nil => rfl
    | cons first rest =>
      refine Step.bind_congr (agree.enters .programStatement) fun flow _ done => ?_
      cases flow with
      | returned => rfl
      | normal => exact agree.enters (.restOfProgram done)
  | expression =>
    cases outer <;> cases isBelow
    exact Expr.level_congr agree
  | call =>
    cases outer <;> cases isBelow
    exact Value.levelOfCall_congr agree
  | statement =>
    cases outer <;> cases isBelow
    exact Stmt.level_congr agree
  | loop condition body =>
    cases outer <;> cases isBelow
    refine Step.bind_congr (agree.enters .loopCondition) fun decision _ done => ?_
    cases truthy : decision.truthy with
    | false => rfl
    | true =>
      refine Step.bind_congr (agree.enters (.loopBody done truthy)) fun flow _ doneBody => ?_
      cases flow with
      | returned => rfl
      | normal => exact agree.enters (.loopAgain done truthy doneBody)
  | arguments values =>
    cases outer <;> cases isBelow
    cases values with
    | nil => rfl
    | cons first rest =>
      refine Step.bind_congr (agree.enters .firstArgument) fun _ _ done => ?_
      exact Step.bind_congr (agree.enters (.otherArguments done)) fun _ _ _ => rfl
  | «optional» value =>
    cases outer <;> cases isBelow
    cases value with
    | none => rfl
    | some value => exact agree.enters .optional
  | statements forms =>
    cases outer <;> cases isBelow
    cases forms with
    | nil => rfl
    | cons first rest =>
      refine Step.bind_congr (agree.enters .firstStatement) fun flow _ done => ?_
      cases flow with
      | returned => rfl
      | normal => exact agree.enters (.otherStatements done)

end

/-! ### All of them matter -/

/-- An outcome that has stopped, out of fuel or with an error. -/
def Outcome.stopped {α : Type} (stop : Option RuntimeError) (machine : Machine) :
    Outcome Machine RuntimeError α :=
  match stop with
  | none => .outOfFuel
  | some error => .failed error machine

/-- The outcome is to have stopped like this. -/
def Outcome.Stops {α : Type} (stop : Option RuntimeError)
    (outcome : Outcome Machine RuntimeError α) :
    Prop :=
  ∃ machine, outcome = .stopped stop machine

open Classical in
/-- The answers of evaluation, but for one demand in one machine, where all stops. -/
noncomputable def Answers.stopping (fuel : Nat) (stop : Option RuntimeError) (demand : Demand)
    (machine : Machine) : Answers := fun other between =>
  if other = demand ∧ between = machine then .stopped stop between else other.run fuel between

namespace Outcome.Stops

variable {stop : Option RuntimeError} {α β : Type}

theorem bind {first : Run α} {next : α → Run β} {machine : Machine}
    (stops : (first machine).Stops stop) : ((first >>= next) machine).Stops stop := by
  obtain ⟨later, stopped⟩ := stops
  refine ⟨later, ?_⟩
  rw [Step.bind_apply, stopped]
  cases stop <;> rfl

/-- What comes after something that is done, or has stopped already. -/
theorem of_done {first : Run α} {next : α → Run β} {machine later : Machine} {value : α}
    (before : first machine = .done value later ∨ (first machine).Stops stop)
    (stops : (next value later).Stops stop) : ((first >>= next) machine).Stops stop := by
  rcases before with done | stopped
  · rw [Step.bind_apply, done]
    exact stops
  · exact stopped.bind

theorem onState {outcome : Outcome Machine RuntimeError α} (stops : outcome.Stops stop)
    (change : Machine → Machine) : (outcome.onState change).Stops stop := by
  obtain ⟨later, rfl⟩ := stops
  exact ⟨change later, by cases stop <;> rfl⟩

theorem inScope {scope : ScopeId} {body : Run α} {machine : Machine}
    (stops : (body { machine with scope := scope }).Stops stop) :
    (Run.inScope scope body machine).Stops stop := by
  rw [Run.inScope_apply]
  exact stops.onState _

theorem inCall {body : Run α} {machine : Machine}
    (stops : (body { machine with depth := machine.depth + 1 }).Stops stop) :
    (Run.inCall body machine).Stops stop := by
  rw [Run.inCall_apply]
  exact stops.onState _

/-- Whatever the outcome, there is another way to have stopped. -/
theorem exists_ne (outcome : Outcome Machine RuntimeError α) :
    ∃ stop, ∀ other : Outcome Machine RuntimeError α, other.Stops stop → other ≠ outcome := by
  cases outcome with
  | outOfFuel =>
    refine ⟨some ⟨⟨.eof, "", 0⟩, .stackOverflow⟩, ?_⟩
    rintro _ ⟨later, rfl⟩ same
    cases same
  | done | failed =>
    refine ⟨none, ?_⟩
    rintro _ ⟨later, rfl⟩ same
    cases same

end Outcome.Stops

section

variable {fuel : Nat} {stop : Option RuntimeError} {demand : Demand} {machine : Machine}

/-- Where evaluation comes to something before the demand, it does so here, or all has stopped. -/
theorem Answers.stopping_or {errand : Errand} {between later : Machine} {value : errand.Answer}
    (done : errand.run fuel between = .done value later) :
    Answers.stopping fuel stop demand machine (.errand errand) between = .done value later ∨
      (Answers.stopping fuel stop demand machine (.errand errand) between).Stops stop := by
  unfold Answers.stopping
  split
  · exact .inr ⟨between, rfl⟩
  · exact .inl done

/-- **Where a demand is stopped, so is the moment that makes it.** -/
theorem Moment.Demands.stops {moment : Moment} (demands : moment.Demands demand machine)
    (isBelow : moment.below = some fuel) :
    (moment.errand.level (Answers.stopping fuel stop demand machine) moment.machine).Stops
      stop := by
  have here : (Answers.stopping fuel stop demand machine demand machine).Stops stop := by
    unfold Answers.stopping
    exact ⟨machine, if_pos ⟨rfl, rfl⟩⟩
  cases demands with
  | native checked =>
    cases isBelow
    exact .of_done (.inl checked) (.inCall here)
  | enters enters =>
    have known := enters.below
    rw [isBelow] at known
    cases known
    cases enters with
    | grouping | whileLoop | optional => exact here
    | unary | binaryLeft | logicalLeft | ternaryCondition | assigned | callee | firstArgument
    | expressionStatement | print | «variable» | ifCondition | returning | firstStatement
    | loopCondition | programStatement => exact .bind here
    | binaryRight done | arguments done | assignment done | otherArguments done =>
      exact .of_done (Answers.stopping_or done) (.bind here)
    | otherStatements done | restOfProgram done =>
      exact .of_done (Answers.stopping_or done) here
    | @logicalRight _ _ _ _ _ first _ done decides =>
      refine .of_done (Answers.stopping_or done) ?_
      dsimp only
      rw [decides]
      exact .bind here
    | ternaryYes done truthy | ifYes done truthy =>
      refine .of_done (Answers.stopping_or done) ?_
      dsimp only
      rw [if_pos truthy]
      exact here
    | ternaryNo done truthy | ifNo done truthy =>
      refine .of_done (Answers.stopping_or done) ?_
      dsimp only
      rw [truthy]
      exact here
    | call done doneAll =>
      exact .of_done (Answers.stopping_or done) (.of_done (Answers.stopping_or doneAll) here)
    | body checked =>
      refine .of_done (.inl checked) (.inCall ?_)
      exact .of_done (.inl rfl) (.of_done (.inl rfl) (.bind (.inScope here)))
    | block => exact .of_done (.inl rfl) (.of_done (.inl rfl) (.inScope here))
    | loopBody done truthy =>
      refine .of_done (Answers.stopping_or done) ?_
      dsimp only
      rw [if_pos truthy]
      exact .bind here
    | loopAgain done truthy doneBody =>
      refine .of_done (Answers.stopping_or done) ?_
      dsimp only
      rw [if_pos truthy]
      exact .of_done (Answers.stopping_or doneBody) here

end

/-- **What is asked for at a moment is what is entered there,** and native functions, which are run
with one more call counted. -/
theorem Moment.asks_iff {moment : Moment} {demand : Demand} {machine : Machine} :
    moment.Asks demand machine ↔ moment.Demands demand machine := by
  constructor
  · rintro ⟨fuel, isBelow, answers, same, differs⟩
    by_contra spared
    refine differs (Moment.level_congr isBelow fun other between demands => same other between ?_)
    -- what is demanded is not the demand that has another answer
    by_contra equal
    obtain ⟨rfl, rfl⟩ := not_or.mp equal |>.imp not_not.mp not_not.mp
    exact spared demands
  · intro demands
    obtain ⟨fuel, isBelow⟩ : ∃ fuel, moment.below = some fuel := by
      cases demands with
      | native => exact ⟨_, rfl⟩
      | enters enters => exact ⟨_, enters.below⟩
    obtain ⟨stop, other⟩ := Outcome.Stops.exists_ne (moment.errand.run moment.fuel moment.machine)
    refine ⟨fuel, isBelow, .stopping fuel stop demand machine, fun asked between apart => ?_,
      other _ (demands.stops isBelow)⟩
    unfold Answers.stopping
    exact if_neg fun same => apart.elim (· same.1) (· same.2)

/-- Where an errand is asked for, a moment with that errand is entered, in the same machine. -/
theorem Moment.Asks.exists_enters {moment : Moment} {errand : Errand} {machine : Machine}
    (asks : moment.Asks (.errand errand) machine) :
    ∃ inner, Enters moment inner ∧ inner.errand = errand ∧ inner.machine = machine := by
  generalize isDemand : Demand.errand errand = demand at asks
  cases Moment.asks_iff.mp asks with
  | native => cases isDemand
  | @enters _ inner enters => exact ⟨inner, enters, (Demand.errand.inj isDemand).symm, rfl⟩

/-- A moment enters another one if it asks for its errand in its machine. -/
theorem Moment.asks_errand_iff {outer inner : Moment} :
    outer.below = some inner.fuel ∧ outer.Asks (.errand inner.errand) inner.machine ↔
      Enters outer inner := by
  constructor
  · rintro ⟨isBelow, asks⟩
    obtain ⟨⟨fuel, errand, machine⟩, enters, rfl, rfl⟩ := asks.exists_enters
    cases isBelow.symm.trans enters.below
    exact enters
  · exact fun enters => ⟨enters.below, Moment.asks_iff.mpr (.enters enters)⟩

/-- Only a call of a native function asks for one, and does so with one more call counted. -/
theorem Moment.asks_native_iff {moment : Moment} {known : Native} {closing : Token}
    {arguments : List Value} {machine : Machine} :
    moment.Asks (.native known closing arguments) machine ↔
      ∃ fuel before, moment = ⟨fuel + 1, .call (.native known) closing arguments, before⟩ ∧
        Run.checkCall closing known.arity arguments.length before = .done () before ∧
        machine = { before with depth := before.depth + 1 } := by
  rw [Moment.asks_iff]
  constructor
  · rintro ⟨⟩
    exact ⟨_, _, rfl, ‹_›, rfl⟩
  · rintro ⟨fuel, before, rfl, checked, rfl⟩
    exact .native checked

end Lox
