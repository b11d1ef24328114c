/-
**The state that a program runs in.**

* `Distances` — for the places where a local variable is read or assigned, how many scopes outward
  the variable is. Places that are not there belong to global variables.
* `Machine` — all scopes, which of them is current and which one holds the global variables, the
  known distances, the number of calls in progress, what was printed and whether more can be, the
  clock, and the next unused function identity.
* `Run α` — a computation over a machine that may raise a runtime error. The few operations here are
  all that evaluation does to a machine.
* `inScope`, `inCall` — running something in another scope, and within one more call. Both put back
  what they changed however it ends.
-/

import Lox.Fault
import Lox.Outcome
import Lox.Scoping
import Lox.Store

namespace Lox

/-! ### Distances -/

/-- The number of scopes between a place and the scope of its variable, for local variables, in the
order in which they were found. -/
abbrev Distances : Type :=
  List (NodeId × Nat)

namespace Distances

/-- The distance that is known for a place. The last one that was found counts. -/
def get? : Distances → NodeId → Option Nat
  | [], _ => none
  | (place, distance) :: later, node =>
    (get? later node).or (if place = node then some distance else none)

/-- The distances of references to local variables. -/
def ofReferences (references : List Reference) : Distances :=
  references.filterMap fun reference => reference.distance.map
    fun distance => (reference.node, distance)

end Distances

/-! ### The machine -/

/-- Whether what is printed goes anywhere, and if not, what the output says why. -/
inductive Sink where
  | open
  | closed (reason : String := "sink closed")
deriving DecidableEq, Repr

/-- The state that a program runs in. -/
structure Machine where
  store : Store
  /-- The current scope. -/
  scope : ScopeId
  /-- The scope of the global variables. -/
  globals : ScopeId
  distances : Distances
  /-- The number of calls in progress. -/
  depth : Nat
  /-- Everything that was printed. -/
  output : String
  sink : Sink
  /-- What the clock says when it is asked for the first time, the second, and so on. -/
  clock : Nat → Float
  /-- How often the clock was asked. -/
  ticks : Nat
  /-- The next unused function identity. -/
  nextFunction : Nat

/-- The most calls that can be in progress. -/
def maxDepth : Nat :=
  512

namespace Machine

/-- The state before the first program: the only scope is that of the global variables, which holds
the native functions. -/
def start (clock : Nat → Float) : Machine where
  store := (Store.empty.add none).defineAll ⟨0⟩
    (Native.all.map fun known => (known.name, .native known))
  scope := ⟨0⟩
  globals := ⟨0⟩
  distances := []
  depth := 0
  output := ""
  sink := .open
  clock := clock
  ticks := 0
  nextFunction := 0

/-- Adds the distances of references. -/
def learn (machine : Machine) (references : List Reference) : Machine :=
  { machine with distances := machine.distances ++ Distances.ofReferences references }

/-- Binds a name in a scope. -/
def define (machine : Machine) (scope : ScopeId) (name : String) (value : Value) : Machine :=
  { machine with store := machine.store.define scope name value }

/-- What the variable of a place holds. -/
def valueAt? (machine : Machine) (node : NodeId) (name : String) : Option Value :=
  match machine.distances.get? node with
  | some distance => machine.store.getAt? machine.scope distance name
  | none => machine.store.get? machine.globals name

/-- The scope in which an assignment at a place binds its name. With a known distance that is the
scope that far outward, whether it binds the name yet or not. -/
def targetOf? (machine : Machine) (node : NodeId) (name : String) : Option ScopeId :=
  match machine.distances.get? node with
  | some distance => machine.store.ancestor? machine.scope distance
  | none => machine.store.holder? machine.globals name

/-- The machine after what it has printed was taken away. -/
def withoutOutput (machine : Machine) : Machine :=
  { machine with output := "" }

end Machine

/-! ### What evaluation does to a machine -/

/-- A computation over a machine that may raise a runtime error. -/
abbrev Run (α : Type) : Type :=
  Step Machine RuntimeError α

namespace Run

/-- Raises a fault at a token. -/
def raise {α : Type} (token : Token) (fault : Fault) : Run α :=
  Step.fail ⟨token, fault⟩

/-- A result that may be a fault, which is raised at a token. -/
def orRaise {α : Type} (token : Token) (result : Except Fault α) : Run α :=
  match result with
  | .ok value => pure value
  | .error fault => raise token fault

/-- Reads the variable of a place. -/
def readVariable (node : NodeId) (name : Token) : Run Value := fun machine =>
  match machine.valueAt? node name.lexeme with
  | some value => .done value machine
  | none => .failed ⟨name, .undefinedVariable name.lexeme⟩ machine

/-- Assigns to the variable of a place. -/
def assignVariable (node : NodeId) (name : Token) (value : Value) : Run Unit := fun machine =>
  match machine.targetOf? node name.lexeme with
  | some target => .done () (machine.define target name.lexeme value)
  | none => .failed ⟨name, .undefinedVariable name.lexeme⟩ machine

/-- Declares a variable in the current scope. -/
def declare (name : Token) (value : Value) : Run Unit :=
  Step.update fun machine => machine.define machine.scope name.lexeme value

/-- Makes a function in the current scope. -/
def makeFunction (name : Option String) (body : FunctionBody) : Run Value := fun machine =>
  .done (.function ⟨machine.nextFunction, name, body, machine.scope⟩)
    { machine with nextFunction := machine.nextFunction + 1 }

/-- Asks the clock. -/
def readClock : Run Float := fun machine =>
  .done (machine.clock machine.ticks) { machine with ticks := machine.ticks + 1 }

/-- Prints a line, unless the sink is closed; then nothing is printed and the keyword is at
fault. -/
def print (keyword : Token) (value : Value) : Run Unit := fun machine =>
  match machine.sink with
  | .open => .done () { machine with output := machine.output ++ value.text ++ "\n" }
  | .closed reason => .failed ⟨keyword, .outputFailed reason⟩ machine

/-- Opens a scope in another one, without making it current. -/
def openScope (enclosing : ScopeId) : Run ScopeId := fun machine =>
  .done machine.store.nextId { machine with store := machine.store.add (some enclosing) }

/-- Binds names in a scope, one after the other. -/
def defineAll (scope : ScopeId) (bindings : List (String × Value)) : Run Unit :=
  Step.update fun machine => { machine with store := machine.store.defineAll scope bindings }

/-- Runs something in a scope, and comes back to the scope before. -/
def inScope {α : Type} (scope : ScopeId) (body : Run α) : Run α := fun machine =>
  let before := machine.scope
  match body { machine with scope := scope } with
  | .done value later => .done value { later with scope := before }
  | .failed error later => .failed error { later with scope := before }
  | .outOfFuel => .outOfFuel

/-- Runs something within one more call, and counts the call out again. -/
def inCall {α : Type} (body : Run α) : Run α := fun machine =>
  match body { machine with depth := machine.depth + 1 } with
  | .done value later => .done value { later with depth := later.depth - 1 }
  | .failed error later => .failed error { later with depth := later.depth - 1 }
  | .outOfFuel => .outOfFuel

/-- Checks, at the closing parenthesis of a call, that the number of arguments is right and that one
more call can be in progress. -/
def checkCall (closing : Token) (arity arguments : Nat) : Run Unit := fun machine =>
  if arguments ≠ arity then .failed ⟨closing, .wrongArity arity arguments⟩ machine
  else if maxDepth ≤ machine.depth then .failed ⟨closing, .stackOverflow⟩ machine
  else .done () machine

end Run

end Lox
