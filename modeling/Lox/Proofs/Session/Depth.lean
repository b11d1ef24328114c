/-
**The depth counts the calls in progress, and matters to nothing else.**

* `ReachesInside` — evaluation comes from a moment to another one by asking for it, with so many
  calls in progress in between.
* `Moment.Visits` — in the course of a run, the machine is in this state while so many calls are in
  progress, be it that an errand begins or ends, or that a native function does. The machines are
  those that evaluation asks in. `Visits.depth`: the depth has gone up by that number.
  `Visits.depth_le`: it never goes above the most calls that there can be.
* `Machine.deeper` — the same machine with more calls in progress around it.
* `Run.IgnoresDepth` — with more calls around it, a computation overflows, or does the same. That is
  a congruence, so all of evaluation ignores the depth.
* `depth_bounds_nesting_only` — both together.
-/

import Lox.Proofs.Evaluation.Congruence
import Lox.Proofs.Evaluation.Footprint
import Lox.Proofs.Evaluation.Demands
import Lox.Proofs.Session.Control

namespace Lox

/-! ### Calls in progress -/

/-- The number of calls that are in progress within an errand and not around it. -/
def Errand.calls : Errand → Nat
  | .call .. => 1
  | _ => 0

/-- Evaluation comes from the first moment to the second, from which on this number of calls are in
progress there: what is asked for within a call is asked for while that call is in progress too. -/
inductive ReachesInside (start : Moment) : Moment → Nat → Prop
  | start : ReachesInside start start 0
  | asks {outer inner : Moment} {calls : Nat} :
      ReachesInside start outer calls → outer.below = some inner.fuel →
      outer.Asks (.errand inner.errand) inner.machine →
      ReachesInside start inner (calls + outer.errand.calls)

/-- What is entered is asked for. -/
theorem ReachesInside.enters {start outer inner : Moment} {calls : Nat}
    (inside : ReachesInside start outer calls) (enters : Enters outer inner) :
    ReachesInside start inner (calls + outer.errand.calls) :=
  have asked := Moment.asks_errand_iff.mpr enters
  .asks inside asked.1 asked.2

/-- In the course of the run from a moment, the machine is in this state, with this number of
calls in progress that were not at the start: when an errand begins or ends, and when a native
function begins or ends. -/
inductive Moment.Visits (start : Moment) : Machine → Nat → Prop
  | begins {moment : Moment} {calls : Nat} :
      ReachesInside start moment calls → Visits start moment.machine calls
  | ends {moment : Moment} {calls : Nat} {later : Machine} :
      ReachesInside start moment calls → moment.outcome.state? = some later →
      Visits start later calls
  | native {outer : Moment} {calls : Nat} {known : Native} {closing : Token}
      {arguments : List Value} {machine : Machine} :
      ReachesInside start outer calls → outer.Asks (.native known closing arguments) machine →
      Visits start machine (calls + outer.errand.calls)
  | nativeEnds {outer : Moment} {calls : Nat} {known : Native} {closing : Token}
      {arguments : List Value} {machine later : Machine} :
      ReachesInside start outer calls → outer.Asks (.native known closing arguments) machine →
      (known.run closing arguments machine).state? = some later →
      Visits start later (calls + outer.errand.calls)

/-! ### The depth along a run -/

/-- **The depth goes up by one where the body of a function begins,** and is the same otherwise. -/
theorem Enters.depth {outer inner : Moment} (enters : Enters outer inner) :
    inner.machine.depth = outer.machine.depth + outer.errand.calls := by
  obtain ⟨between, same, machine⟩ := enters.control
  cases enters with
  | body => rfl
  | _ =>
    rcases machine with machine | machine | ⟨_, _, _, isCall, -⟩
    · exact (congrArg Machine.depth machine).trans same.depth
    · exact (congrArg Machine.depth machine).trans same.depth
    · cases isCall

/-- A call whose body begins has found room. -/
theorem depth_lt_of_checkCall {closing : Token} {arity arguments : Nat} {machine later : Machine}
    (checked : Run.checkCall closing arity arguments machine = .done () later) :
    machine.depth < maxDepth := by
  unfold Run.checkCall at checked
  split at checked
  · cases checked
  · split at checked
    · cases checked
    · rename_i room
      exact Nat.lt_of_not_le room

/-- The depth stays within its bound. -/
theorem Enters.depth_le {outer inner : Moment} (enters : Enters outer inner)
    (bounded : outer.machine.depth ≤ maxDepth) : inner.machine.depth ≤ maxDepth := by
  rw [enters.depth]
  cases enters with
  | body checked => exact depth_lt_of_checkCall checked
  | _ => exact bounded

/-- The outcome of an errand is related to the machine that the errand began in. -/
theorem Moment.framed (relation : Machine → Machine → Prop) [Machine.Frame relation]
    {moment : Moment} {later : Machine} (ended : moment.outcome.state? = some later) :
    relation moment.machine later := by
  have mapped : ∀ {α β : Type} {change : α → β} {body : Run α} (_ : Step.Stays relation body)
      {machine : Machine},
      ((body machine).map change).state? = some later → relation machine later := by
    intro α β change body stays machine ended
    rw [Outcome.state?_map] at ended
    exact stays machine later ended
  obtain ⟨fuel, errand, machine⟩ := moment
  have framed := Lox.framed relation fuel
  cases errand with
  | expression value => exact mapped (framed.evaluate value) ended
  | arguments values => exact mapped (framed.evaluateAll values) ended
  | call callee closing arguments => exact mapped (framed.callValue callee closing arguments) ended
  | assignment node name value => exact mapped (.assignVariable node name value) ended
  | statement form => exact mapped (framed.execute form) ended
  | optional value => exact mapped (framed.evaluateOr value) ended
  | statements forms => exact mapped (framed.executeAll forms) ended
  | loop condition body => exact mapped (framed.repeatWhile condition body) ended
  | program forms => exact mapped (framed_interpret fuel forms) ended

/-- The outcome of an errand has the depth that the errand began with. -/
theorem Moment.depth_of_outcome {moment : Moment} {later : Machine}
    (ended : moment.outcome.state? = some later) :
    later.depth = moment.machine.depth :=
  (Moment.framed Machine.SameControl ended).depth

/-- What evaluation asks for has the depth that it is asked at, and within a call one more. -/
theorem Moment.Asks.depth {moment : Moment} {demand : Demand} {machine : Machine}
    (asks : moment.Asks demand machine) :
    machine.depth = moment.machine.depth + moment.errand.calls := by
  cases Moment.asks_iff.mp asks with
  | enters enters => exact enters.depth
  | native => rfl

/-- What evaluation asks for keeps to the bound. -/
theorem Moment.Asks.depth_le {moment : Moment} {demand : Demand} {machine : Machine}
    (asks : moment.Asks demand machine) (bounded : moment.machine.depth ≤ maxDepth) :
    machine.depth ≤ maxDepth := by
  cases Moment.asks_iff.mp asks with
  | enters enters => exact enters.depth_le bounded
  | native checked => exact depth_lt_of_checkCall checked

namespace ReachesInside

variable {start moment : Moment} {calls : Nat}

/-- **At each moment, the depth has gone up by the number of calls in progress.** -/
theorem depth (inside : ReachesInside start moment calls) :
    moment.machine.depth = start.machine.depth + calls := by
  induction inside with
  | start => rfl
  | asks _ _ asks ih => rw [asks.depth, ih, Nat.add_assoc]

theorem depth_le (inside : ReachesInside start moment calls)
    (bounded : start.machine.depth ≤ maxDepth) : moment.machine.depth ≤ maxDepth := by
  induction inside with
  | start => exact bounded
  | asks _ _ asks ih => exact asks.depth_le ih

end ReachesInside

namespace Moment.Visits

variable {start : Moment} {machine : Machine} {calls : Nat}

/-- A native function leaves the depth as it was. -/
theorem depth_of_native {known : Native} {closing : Token} {arguments : List Value}
    {later : Machine} (ended : (known.run closing arguments machine).state? = some later) :
    later.depth = machine.depth :=
  have restores : Run.Restores (known.run closing arguments) := framed_congruence.native _ _ _
  (restores machine later ended).depth

theorem depth (visits : start.Visits machine calls) :
    machine.depth = start.machine.depth + calls := by
  cases visits with
  | begins inside => exact inside.depth
  | ends inside ended => exact (Moment.depth_of_outcome ended).trans inside.depth
  | native inside asks => rw [asks.depth, inside.depth, Nat.add_assoc]
  | nativeEnds inside asks ended =>
    rw [depth_of_native ended, asks.depth, inside.depth, Nat.add_assoc]

theorem depth_le (visits : start.Visits machine calls) (bounded : start.machine.depth ≤ maxDepth) :
    machine.depth ≤ maxDepth := by
  cases visits with
  | begins inside => exact inside.depth_le bounded
  | ends inside ended => exact Moment.depth_of_outcome ended ▸ inside.depth_le bounded
  | native inside asks => exact asks.depth_le (inside.depth_le bounded)
  | nativeEnds inside asks ended =>
    exact depth_of_native ended ▸ asks.depth_le (inside.depth_le bounded)

end Moment.Visits

/-! ### More calls around -/

/-- The machine with this number of calls in progress. -/
def Machine.atDepth (machine : Machine) (depth : Nat) : Machine :=
  { machine with depth := depth }

/-- The machine with more calls in progress around it. -/
def Machine.deeper (machine : Machine) (calls : Nat) : Machine :=
  machine.atDepth (machine.depth + calls)

/-- The outcome is that there was no room for one more call. -/
def Outcome.Overflows {α : Type} (outcome : Outcome Machine RuntimeError α) : Prop :=
  ∃ token later, outcome = .failed ⟨token, .stackOverflow⟩ later

/-- However many calls are in progress around it, the computation overflows or does the same. It
leaves the depth as it was. -/
structure Run.IgnoresDepth {α : Type} (body : Run α) : Prop where
  restores : body.Restores
  same : ∀ machine calls, (body (machine.deeper calls)).Overflows ∨
    body (machine.deeper calls) = (body machine).onState (·.deeper calls)

/-- Two changes of the state are the same if they are so for the state that is left. -/
theorem Outcome.onState_congr {α : Type} {outcome : Outcome Machine RuntimeError α}
    {change other : Machine → Machine}
    (same : ∀ later, outcome.state? = some later → change later = other later) :
    outcome.onState change = outcome.onState other := by
  cases outcome with
  | done value later => exact congrArg (Outcome.done value) (same later rfl)
  | failed error later => exact congrArg (Outcome.failed error) (same later rfl)
  | outOfFuel => rfl

theorem Outcome.onState_onState {α : Type} (outcome : Outcome Machine RuntimeError α)
    (first second : Machine → Machine) :
    (outcome.onState first).onState second = outcome.onState fun later => second (first later) := by
  cases outcome <;> rfl

theorem Outcome.onState_id {α : Type} (outcome : Outcome Machine RuntimeError α) :
    outcome.onState id = outcome := by
  cases outcome <;> rfl

theorem Outcome.Overflows.onState {α : Type} {outcome : Outcome Machine RuntimeError α}
    (overflows : outcome.Overflows) (change : Machine → Machine) :
    (outcome.onState change).Overflows := by
  obtain ⟨token, later, rfl⟩ := overflows
  exact ⟨token, change later, rfl⟩

namespace Run.IgnoresDepth

variable {α β : Type}

theorem bind {first : Run α} {next : α → Run β} (ignores : first.IgnoresDepth)
    (rest : ∀ value, (next value).IgnoresDepth) : Run.IgnoresDepth (first >>= next) := by
  refine ⟨.bind ignores.restores fun value => (rest value).restores, fun machine calls => ?_⟩
  rw [Step.bind_apply, Step.bind_apply]
  rcases ignores.same machine calls with ⟨token, later, overflows⟩ | same
  · rw [overflows]
    exact .inl ⟨token, later, rfl⟩
  · rw [same]
    cases first machine with
    | done value later => exact (rest value).same later calls
    | failed | outOfFuel => exact .inr rfl

/-- The one operation that looks at the depth. -/
theorem checkCall (closing : Token) (arity arguments : Nat) :
    Run.IgnoresDepth (Run.checkCall closing arity arguments) := by
  refine ⟨.checkCall closing arity arguments, fun machine calls => ?_⟩
  have depth : machine.depth ≤ (machine.deeper calls).depth := Nat.le_add_right _ _
  unfold Run.checkCall
  by_cases wrong : arguments ≠ arity
  · rw [if_pos wrong, if_pos wrong]
    exact .inr rfl
  · rw [if_neg wrong, if_neg wrong]
    by_cases full : maxDepth ≤ (machine.deeper calls).depth
    · rw [if_pos full]
      exact .inl ⟨closing, _, rfl⟩
    · rw [if_neg full, if_neg fun fullBefore => full (Nat.le_trans fullBefore depth)]
      exact .inr rfl

theorem inScope (scope : ScopeId) {body : Run α} (ignores : body.IgnoresDepth) :
    Run.IgnoresDepth (Run.inScope scope body) := by
  refine ⟨.inScope scope ignores.restores, fun machine calls => ?_⟩
  rw [Run.inScope_apply, Run.inScope_apply]
  rcases ignores.same { machine with scope := scope } calls with overflows | same
  · exact .inl (overflows.onState _)
  · right
    refine (congrArg (Outcome.onState _) same).trans ?_
    cases body { machine with scope := scope } <;> rfl

theorem inCall {body : Run α} (ignores : body.IgnoresDepth) :
    Run.IgnoresDepth (Run.inCall body) := by
  refine ⟨.inCall ignores.restores, fun machine calls => ?_⟩
  have deeper : ({ machine.deeper calls with depth := (machine.deeper calls).depth + 1 } :
      Machine) = Machine.deeper { machine with depth := machine.depth + 1 } calls := by
    simp [Machine.deeper, Machine.atDepth, Nat.add_right_comm]
  rw [Run.inCall_apply, Run.inCall_apply, deeper]
  rcases ignores.same { machine with depth := machine.depth + 1 } calls with overflows | same
  · exact .inl (overflows.onState _)
  · right
    rw [same, Outcome.onState_onState, Outcome.onState_onState]
    refine Outcome.onState_congr fun later left => ?_
    -- the body leaves a depth that is not zero, so that one call can be counted out before or after
    have depth : later.depth = machine.depth + 1 := (ignores.restores _ later left).depth
    simp [Machine.deeper, Machine.atDepth, depth, Nat.add_right_comm]

/-- An operation that does not look at the depth. -/
theorem of_same {body : Run α} (restores : body.Restores)
    (same : ∀ machine calls, body (machine.deeper calls) =
      (body machine).onState (·.deeper calls)) :
    body.IgnoresDepth :=
  ⟨restores, fun machine calls => .inr (same machine calls)⟩

theorem congruence : Run.Congruence fun body _ => body.IgnoresDepth where
  pure value := of_same (.pure value) fun _ _ => rfl
  raise token fault := of_same (.fail _) fun _ _ => rfl
  bind := bind
  readVariable node name := of_same (.readVariable node name) fun machine calls => by
    unfold Run.readVariable
    have same : (machine.deeper calls).valueAt? node name.lexeme =
      machine.valueAt? node name.lexeme := rfl
    rw [same]
    cases machine.valueAt? node name.lexeme <;> rfl
  assignVariable node name value := of_same (.assignVariable node name value)
      fun machine calls => by
    unfold Run.assignVariable
    have same : (machine.deeper calls).targetOf? node name.lexeme =
      machine.targetOf? node name.lexeme := rfl
    rw [same]
    cases machine.targetOf? node name.lexeme <;> rfl
  declare name value := of_same (.declare name value) fun _ _ => rfl
  makeFunction name body := of_same (.makeFunction name body) fun _ _ => rfl
  readClock := of_same .readClock fun _ _ => rfl
  print keyword value := of_same (.print keyword value) fun machine calls => by
    unfold Run.print
    have same : (machine.deeper calls).sink = machine.sink := rfl
    rw [same]
    cases machine.sink <;> rfl
  currentScope := of_same (.view _) fun _ _ => rfl
  openScope enclosing := of_same (.openScope enclosing) fun _ _ => rfl
  defineAll scope bindings := of_same (.defineAll scope bindings) fun _ _ => rfl
  checkCall := checkCall
  inScope scope := inScope scope
  inCall := inCall

/-- **All that evaluation sets about ignores the depth.** -/
theorem evaluation (fuel : Nat) : EvaluationRelated (fun body _ => body.IgnoresDepth) fuel fuel :=
  congruence.evaluation_same (of_same .exhausted fun _ _ => rfl) fuel

/-- With less calls around it, a computation that does not overflow does the same. -/
theorem atDepth {body : Run α} (ignores : body.IgnoresDepth) {machine : Machine} {depth : Nat}
    (less : depth ≤ machine.depth) (room : ¬ (body machine).Overflows) :
    body (machine.atDepth depth) = (body machine).onState (·.atDepth depth) := by
  have deeper : (machine.atDepth depth).deeper (machine.depth - depth) = machine := by
    simp [Machine.deeper, Machine.atDepth, Nat.add_sub_of_le less]
  have same := ignores.same (machine.atDepth depth) (machine.depth - depth)
  rw [deeper] at same
  rw [same.resolve_left room, Outcome.onState_onState]
  refine (Outcome.onState_id _).symm.trans (Outcome.onState_congr fun later left => ?_)
  have isDepth : later.depth = depth := (ignores.restores _ later left).depth
  subst isDepth
  rfl

end Run.IgnoresDepth

/-! ### Calls that are let through -/

/-- A call of a function runs its body in a machine that is visited with one more call in progress,
and its outcome is that of the body. -/
theorem visits_body {closure : Closure} {closing : Token} {arguments : List Value}
    {machine : Machine} (fuel : Nat)
    (checked : Run.checkCall closing closure.body.arity arguments.length machine =
      .done () machine) :
    Moment.Visits ⟨fuel + 1, .call (.function closure) closing arguments, machine⟩
        (machine.inBody closure arguments) 1 ∧
      callValue (fuel + 1) (.function closure) closing arguments machine =
        ((executeAll fuel closure.body.statements (machine.inBody closure arguments)).onState
          machine.backFrom).ofBody := by
  refine ⟨.begins (ReachesInside.start.enters (.body checked)), ?_⟩
  rw [callValue_function, checked]

/-- A call of a native function runs it in a machine that is visited with one more call in progress,
and its outcome is that of the function. -/
theorem visits_native {known : Native} {closing : Token} {arguments : List Value}
    {machine : Machine} (fuel : Nat)
    (checked : Run.checkCall closing known.arity arguments.length machine = .done () machine) :
    Moment.Visits ⟨fuel + 1, .call (.native known) closing arguments, machine⟩
        (machine.atDepth (machine.depth + 1)) 1 ∧
      callValue (fuel + 1) (.native known) closing arguments machine =
        (known.run closing arguments (machine.atDepth (machine.depth + 1))).onState
          fun later => later.atDepth (later.depth - 1) := by
  refine ⟨.native .start (Moment.asks_native_iff.mpr ⟨fuel, machine, rfl, checked, rfl⟩), ?_⟩
  rw [callValue_native, checked]
  rfl

/-- **The depth bounds the nesting of calls, and matters to nothing else.** Whatever is run, on
whatever machine: as long as it runs, the depth is that of the start and the number of calls in
progress, and it never goes above the most calls that there can be. That is so of each machine
in which evaluation asks for something to be evaluated or run; above all of those that the body
of a function and a native function are run in when they are called. An expression and a
statement, and everything else that is run, does the same with less calls around it, unless
there was no room for one more call. -/
theorem depth_bounds_nesting_only :
    (∀ (start : Moment) machine calls, start.machine.depth ≤ maxDepth → start.Visits machine calls →
      machine.depth = start.machine.depth + calls ∧ machine.depth ≤ maxDepth) ∧
      (∀ fuel closure closing arguments machine,
        Run.checkCall closing closure.body.arity arguments.length machine = .done () machine →
        Moment.Visits ⟨fuel + 1, .call (.function closure) closing arguments, machine⟩
            (machine.inBody closure arguments) 1 ∧
          callValue (fuel + 1) (.function closure) closing arguments machine =
            ((executeAll fuel closure.body.statements (machine.inBody closure arguments)).onState
              machine.backFrom).ofBody) ∧
      (∀ fuel known closing arguments machine,
        Run.checkCall closing known.arity arguments.length machine = .done () machine →
        Moment.Visits ⟨fuel + 1, .call (.native known) closing arguments, machine⟩
            (machine.atDepth (machine.depth + 1)) 1 ∧
          callValue (fuel + 1) (.native known) closing arguments machine =
            (known.run closing arguments (machine.atDepth (machine.depth + 1))).onState
              fun later => later.atDepth (later.depth - 1)) ∧
      (∀ fuel value machine depth, depth ≤ machine.depth →
        ¬ (evaluate fuel value machine).Overflows →
        evaluate fuel value (machine.atDepth depth) =
          (evaluate fuel value machine).onState (·.atDepth depth)) ∧
      (∀ fuel form machine depth, depth ≤ machine.depth → ¬ (execute fuel form machine).Overflows →
        execute fuel form (machine.atDepth depth) =
          (execute fuel form machine).onState (·.atDepth depth)) ∧
      ∀ fuel program machine depth, depth ≤ machine.depth →
        ¬ (interpret fuel program machine).Overflows →
        interpret fuel program (machine.atDepth depth) =
          (interpret fuel program machine).onState (·.atDepth depth) := by
  refine ⟨fun start machine calls bounded visits => ⟨visits.depth, visits.depth_le bounded⟩,
    fun fuel closure closing arguments machine checked => visits_body fuel checked,
    fun fuel known closing arguments machine checked => visits_native fuel checked,
    fun fuel value machine depth less room => ?_, fun fuel form machine depth less room => ?_,
    fun fuel program machine depth less room => ?_⟩
  · exact ((Run.IgnoresDepth.evaluation fuel).evaluate value).atDepth less room
  · exact ((Run.IgnoresDepth.evaluation fuel).execute form).atDepth less room
  · exact (Run.IgnoresDepth.congruence.interpret (Run.IgnoresDepth.evaluation fuel) program).atDepth
      less room

/-- An expression that calls the clock. -/
def clockCall : Expr :=
  .call (.variable ⟨0⟩ ⟨.identifier, "clock", 1⟩) [] ⟨.symbol .rightParen, ")", 1⟩

/-- A native function that is called where there is room for only one more call. -/
theorem deepest_native_call :
    ∃ called later,
      Moment.Visits ⟨3, .expression clockCall, (Machine.start fun _ => 0).atDepth 511⟩ called 1 ∧
        called.depth = maxDepth ∧
        evaluate 3 clockCall ((Machine.start fun _ => 0).atDepth 511) = .done (.number 0) later ∧
        evaluate 3 clockCall ((Machine.start fun _ => 0).atDepth 2) =
          .done (.number 0) (later.atDepth 2) := by
  obtain ⟨later, ran⟩ : ∃ later,
      evaluate 3 clockCall ((Machine.start fun _ => 0).atDepth 511) = .done (.number 0) later :=
    ⟨_, rfl⟩
  have inside : ReachesInside ⟨3, .expression clockCall, (Machine.start fun _ => 0).atDepth 511⟩
      ⟨2, .call (.native .clock) ⟨.symbol .rightParen, ")", 1⟩ [],
        (Machine.start fun _ => 0).atDepth 511⟩ 0 :=
    ReachesInside.start.enters (.call rfl rfl)
  have visits := Moment.Visits.native inside (Moment.asks_native_iff.mpr ⟨1, _, rfl, rfl, rfl⟩)
  have depth := (depth_bounds_nesting_only.1 _ _ _ (by decide) visits).1
  have room : ¬ (evaluate 3 clockCall ((Machine.start fun _ => 0).atDepth 511)).Overflows := by
    rintro ⟨token, after, overflows⟩
    rw [ran] at overflows
    cases overflows
  have same := depth_bounds_nesting_only.2.2.2.1 3 clockCall _ 2 (by decide) room
  rw [ran] at same
  exact ⟨_, later, visits, depth, ran, same⟩

end Lox
