/-
**However evaluation ends, it leaves the machine in the scope and at the depth where it began.**

* `Machine.SameControl` — two machines have the current scope, the scope of the global variables,
  the known distances and the depth in common.
* `Run.Restores` — a computation ends with the same control as it began with. Nothing that
  evaluation changes for good is part of the control, so all of evaluation does (`restoring`).
* `Enters.control` — between a moment and one that it enters, the control is restored, but for a
  scope and a call that begin there.
* `Session.Continues` — one step of a session, however it was answered.
* `control_is_restored` — evaluation restores the control of every machine, so that a session is at
  the global variables, with no call in progress, after all its steps.
-/

import Lox.Proofs.Evaluation.Framing
import Lox.Proofs.Session.History

namespace Lox

/-! ### Control -/

/-- A later machine has the current scope, the scope of the global variables, the known distances
and the depth of an earlier one. -/
structure Machine.SameControl (machine later : Machine) : Prop where
  scope : later.scope = machine.scope
  globals : later.globals = machine.globals
  distances : later.distances = machine.distances
  depth : later.depth = machine.depth

instance : Machine.Frame Machine.SameControl where
  refl _ := ⟨rfl, rfl, rfl, rfl⟩
  trans _ _ _ first second :=
    ⟨second.scope.trans first.scope, second.globals.trans first.globals,
      second.distances.trans first.distances, second.depth.trans first.depth⟩
  store _ _ := ⟨rfl, rfl, rfl, rfl⟩
  line _ _ := ⟨rfl, rfl, rfl, rfl⟩
  ticks _ _ := ⟨rfl, rfl, rfl, rfl⟩
  nextFunction _ := ⟨rfl, rfl, rfl, rfl⟩
  scope _ _ _ control := ⟨rfl, control.globals, control.distances, control.depth⟩
  depth _ _ control :=
    ⟨control.scope, control.globals, control.distances, congrArg (· - 1) control.depth⟩

/-- Whenever the computation ends, the control of the machine is what it was at the beginning. -/
def Run.Restores {α : Type} (body : Run α) : Prop :=
  Step.Stays Machine.SameControl body

/-- Whatever scope it runs in, it comes back to the scope before. -/
theorem Run.Restores.inScope {α : Type} (scope : ScopeId) {body : Run α}
    (restores : body.Restores) :
    Run.Restores (Run.inScope scope body) :=
  Step.Stays.inScope scope restores

/-! ### Evaluation -/

/-- **All that evaluation sets about restores the control.** -/
theorem restoring (fuel : Nat) : Framed Machine.SameControl fuel :=
  framed Machine.SameControl fuel

theorem restores_interpret (fuel : Nat) (program : List Stmt) :
    Run.Restores (interpret fuel program) :=
  framed_interpret fuel program

/-! ### Moments -/

/-- A moment enters another one when something that restores the control has been evaluated.
Only a block and the body of a function are come to in a scope of their own, and only the
latter within one more call. -/
theorem Enters.control {outer inner : Moment} (enters : Enters outer inner) :
    ∃ between, outer.machine.SameControl between ∧
      (inner.machine = between ∨ inner.machine = between.inBlock ∨
        ∃ closing closure arguments, outer.errand = .call (.function closure) closing arguments ∧
          inner.machine = between.inBody closure arguments) :=
  enters.framed Machine.SameControl

/-- All that comes out of a moment knows the same distances. -/
theorem distances_of_reaches {first last : Moment} (reaches : Reaches first last) :
    last.machine.distances = first.machine.distances := by
  induction reaches with
  | refl => rfl
  | tail _ enters ih =>
    obtain ⟨between, same, machine⟩ := enters.control
    rw [← ih, ← same.distances]
    rcases machine with machine | machine | ⟨_, _, _, -, machine⟩ <;> rw [machine] <;> rfl

/-! ### Sessions -/

namespace Session

/-- A session goes one step on: a text is run or evaluated, whether to its end, to a runtime error
or not at all, a global variable is set, or something happens to the output. -/
inductive Continues (session : Session) : Session → Prop
  | ended {request : Request} {later : Session} : session.Ends request later →
      Continues session later
  | refused {request : Request} {later : Session} : session.Refuses request later →
      Continues session later
  | global (name : String) (value : Value) : Continues session (session.defineGlobal name value)
  | sink (sink : Sink) : Continues session (session.setSink sink)
  | output : Continues session session.withoutOutput

/-- The current scope is that of the global variables, and no call is in progress. -/
structure AtRest (session : Session) : Prop where
  scope : session.machine.scope = session.machine.globals
  depth : session.machine.depth = 0

/-- The relation holds between a session and what a request makes of it, since it holds between the
sessions before and after a text is read, its distances are learnt and it is run. -/
structure Frame (relation : Session → Session → Prop) : Prop extends IsTrans Session relation where
  read : ∀ (session : Session) (next : Nat), relation session { session with nextNode := next }
  learn : ∀ (session : Session) (references : List Reference),
    relation session { session with machine := session.machine.learn references }
  interpret : ∀ fuel program, Step.Stays relation (onMachine (interpret fuel program))
  evaluate : ∀ fuel value, Step.Stays relation (onMachine (Lox.evaluate fuel value))

namespace Frame

variable {relation : Session → Session → Prop} (frame : Frame relation)

include frame

theorem stays_read {α : Type} (reader : Nat → Except (List Diagnostic) α × Nat) :
    Step.Stays relation (Session.read reader) := by
  intro session later left
  unfold Session.read at left
  dsimp only at left
  split at left <;> cases left <;> exact frame.read session _

theorem stays_learn (resolved : Except (List Diagnostic) (List Reference)) :
    Step.Stays relation (Session.learn resolved) := by
  intro session later left
  unfold Session.learn at left
  split at left <;> cases left
  · exact frame.learn session _
  · exact frame.read session session.nextNode

theorem stays_request {α β : Type} {reader : Nat → Except (List Diagnostic) α × Nat}
    {resolver : α → Except (List Diagnostic) (List Reference)} {body : α → Run β}
    (stays : ∀ value, Step.Stays relation (onMachine (body value))) :
    Step.Stays relation (do
      let value ← Session.read reader
      Session.learn (resolver value)
      onMachine (body value)) :=
  have := frame.toIsTrans
  .bind (frame.stays_read reader) fun value => .bind (frame.stays_learn _) fun _ => stays value

theorem stays_run (fuel : Nat) (source : String) : Step.Stays relation (Session.run fuel source) :=
  frame.stays_request (frame.interpret fuel)

theorem stays_evaluate (fuel : Nat) (source : String) :
    Step.Stays relation (Session.evaluate fuel source) :=
  frame.stays_request (frame.evaluate fuel)

/-- So it is however a request ends, -/
theorem of_ends {session later : Session} {request : Request} (ends : session.Ends request later) :
    relation session later := by
  cases ends with
  | run done => exact frame.stays_run _ _ session later (by rw [done]; rfl)
  | evaluate done => exact frame.stays_evaluate _ _ session later (by rw [done]; rfl)
  | raised raises =>
    cases raises with
    | run failed => exact frame.stays_run _ _ session later (by rw [failed]; rfl)
    | evaluate failed => exact frame.stays_evaluate _ _ session later (by rw [failed]; rfl)

/-- and if it is refused. -/
theorem of_refuses {session later : Session} {request : Request}
    (refuses : session.Refuses request later) :
    relation session later := by
  cases refuses with
  | run failed => exact frame.stays_run _ _ session later (by rw [failed]; rfl)
  | evaluate failed => exact frame.stays_evaluate _ _ session later (by rw [failed]; rfl)

end Frame

/-- What a computation leaves of a machine is what it leaves of the machine of a session. -/
theorem stays_onMachine {α : Type} {relation : Machine → Machine → Prop} {body : Run α}
    (stays : Step.Stays relation body) :
    Step.Stays (fun session later => relation session.machine later.machine) (onMachine body) := by
  intro session later left
  have inside := stays session.machine
  unfold onMachine at left
  cases ran : body session.machine with
  | done | failed =>
    simp only [ran] at left inside
    cases left
    exact inside _ rfl
  | outOfFuel =>
    simp only [ran] at left
    cases left

/-- If one session is at rest, so is the other. -/
def StaysAtRest (session later : Session) : Prop :=
  session.AtRest → later.AtRest

theorem staysAtRest_onMachine {α : Type} {body : Run α} (restores : body.Restores) :
    Step.Stays StaysAtRest (onMachine body) := by
  intro session later left rests
  have control : session.machine.SameControl later.machine :=
    stays_onMachine restores session later left
  exact ⟨control.scope.trans (rests.scope.trans control.globals.symm),
    control.depth.trans rests.depth⟩

theorem staysAtRest_frame : Frame StaysAtRest where
  trans _ _ _ first second := second ∘ first
  read _ _ rests := ⟨rests.scope, rests.depth⟩
  learn _ _ rests := ⟨rests.scope, rests.depth⟩
  interpret fuel program := staysAtRest_onMachine (restores_interpret fuel program)
  evaluate fuel value := staysAtRest_onMachine ((restoring fuel).evaluate value)

/-- One step of a session that is at rest leaves it at rest. -/
theorem Continues.atRest {session later : Session} (continues : session.Continues later)
    (rests : session.AtRest) : later.AtRest := by
  cases continues with
  | ended ends => exact staysAtRest_frame.of_ends ends rests
  | refused refuses => exact staysAtRest_frame.of_refuses refuses rests
  | global | sink | output => exact ⟨rests.scope, rests.depth⟩

end Session

/-- **However evaluation ends, the control is what it was.** On every machine, whatever its scopes,
distances and depth are, and for every tree, whether a parser made it or not: when an expression, a
call, a statement or a list of statements in some scope ends with a value, with a `return` or with
an error, the current scope, the scope of the global variables, the known distances and the depth
are the same as before. So after any steps of a session, the current scope is that of the global
variables, and no call is in progress. -/
theorem control_is_restored :
    (∀ fuel value, Run.Restores (evaluate fuel value)) ∧
      (∀ fuel callee closing arguments, Run.Restores (callValue fuel callee closing arguments)) ∧
      (∀ fuel form, Run.Restores (execute fuel form)) ∧
      (∀ fuel scope forms, Run.Restores (Run.inScope scope (executeAll fuel forms))) ∧
      ∀ clock session, Relation.ReflTransGen Session.Continues (Session.start clock) session →
        session.machine.scope = session.machine.globals ∧ session.machine.depth = 0 := by
  refine ⟨fun fuel => (restoring fuel).evaluate, fun fuel => (restoring fuel).callValue,
    fun fuel => (restoring fuel).execute,
      fun fuel scope forms => .inScope scope ((restoring fuel).executeAll forms),
    fun clock session continued => ?_⟩
  have rests : session.AtRest := by
    induction continued with
    | refl => exact ⟨rfl, rfl⟩
    | tail _ continues ih => exact continues.atRest ih
  exact ⟨rests.scope, rests.depth⟩

/-- An error in the body of a function that is being called. -/
theorem control_after_error_in_call :
    ∃ later, Session.run 12 "(fun() \x7b -nil; \x7d)();" (.start fun _ => 0) =
        .failed (.runtime ⟨⟨.symbol .minus, "-", 1⟩, .operandNotNumber⟩) later ∧
      later.machine.scope = later.machine.globals ∧ later.machine.depth = 0 := by
  obtain ⟨later, failed⟩ : ∃ later,
      Session.run 12 "(fun() \x7b -nil; \x7d)();" (.start fun _ => 0) =
      .failed (.runtime ⟨⟨.symbol .minus, "-", 1⟩, .operandNotNumber⟩) later := ⟨_, rfl⟩
  exact ⟨later, failed, control_is_restored.2.2.2.2 _ later
    (.single (.ended (.raised (.run failed))))⟩

end Lox
