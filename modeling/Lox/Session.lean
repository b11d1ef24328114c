/-
**One source text after the other.**

* `Session` — a machine, and the next unused node identity. Global variables, the
  distances of earlier texts and everything that was printed stay from one text to the
  next, whether it ends well or not.
* `Failure` — why a source text did not run to its end: it is wrong as it stands, and then none of
  it ran, or it raised a runtime error.
* `Session.run`, `Session.evaluate` — running a program, and evaluating an expression.
* `Session.global?`, `Session.defineGlobal`, `Session.setSink` — looking at a global variable,
  setting one, and opening or closing the output.
-/

import Lox.Evaluation
import Lox.Source

namespace Lox

/-- Why a source text did not run to its end. -/
inductive Failure where
  /-- It is wrong as it stands, and none of it ran. -/
  | static (diagnostics : List Diagnostic)
  /-- It raised an error when it had run up to there. -/
  | runtime (error : RuntimeError)
deriving DecidableEq

namespace Failure

/-- The lines that report a failure. -/
def text : Failure → String
  | .static diagnostics => reportText diagnostics
  | .runtime error => error.text

/-- The exit code of a program that ends with a failure. -/
def exitCode : Failure → Nat
  | .static _ => 65
  | .runtime _ => 70

end Failure

/-- What is kept from one source text to the next. -/
structure Session where
  machine : Machine
  /-- The index of the next unused node identity. -/
  nextNode : Nat

namespace Session

/-- A session before its first source text. -/
def start (clock : Nat → Float) : Session :=
  ⟨.start clock, 0⟩

/-- A computation over the machine of a session. -/
def onMachine {α : Type} (body : Run α) : Step Session Failure α := fun ⟨machine, nextNode⟩ =>
  match body machine with
  | .done value later => .done value ⟨later, nextNode⟩
  | .failed error later => .failed (.runtime error) ⟨later, nextNode⟩
  | .outOfFuel => .outOfFuel

/-- Reads a source text with new node identities. -/
def read {α : Type} (reader : Nat → Except (List Diagnostic) α × Nat) : Step Session Failure α :=
  fun session =>
    let (result, next) := reader session.nextNode
    match result with
    | .ok value => .done value { session with nextNode := next }
    | .error diagnostics => .failed (.static diagnostics) { session with nextNode := next }

/-- References without a defect, whose distances the machine learns. -/
def learn (resolved : Except (List Diagnostic) (List Reference)) : Step Session Failure Unit :=
  fun session =>
    match resolved with
    | .ok references => .done () { session with machine := session.machine.learn references }
    | .error diagnostics => .failed (.static diagnostics) session

/-- Runs a source text as a program. -/
def run (fuel : Nat) (source : String) : Step Session Failure Unit := do
  let program ← read (readProgram source)
  learn (resolve program)
  onMachine (interpret fuel program)

/-- Evaluates a source text as an expression. -/
def evaluate (fuel : Nat) (source : String) : Step Session Failure Value := do
  let expression ← read (readExpression source)
  learn (resolveExpression expression)
  onMachine (Lox.evaluate fuel expression)

/-- The value of a global variable, named by a token. -/
def global? (session : Session) (name : Token) : Except RuntimeError Value :=
  match session.machine.store.get? session.machine.globals name.lexeme with
  | some value => .ok value
  | none => .error ⟨name, .undefinedVariable name.lexeme⟩

/-- Sets a global variable, whether it is there or not. -/
def defineGlobal (session : Session) (name : String) (value : Value) : Session :=
  { session with machine := session.machine.define session.machine.globals name value }

/-- Opens or closes the output. -/
def setSink (session : Session) (sink : Sink) : Session :=
  { session with machine := { session.machine with sink := sink } }

/-- The session after what it has printed was taken away. -/
def withoutOutput (session : Session) : Session :=
  { session with machine := session.machine.withoutOutput }

end Session

end Lox
