/-
**The moments of a run.**

* `Errand` — something that evaluation sets about: an expression, a statement, a call, and so on.
* `Moment` — an errand, the machine it is set about in, and the fuel for it.
* `Enters` — one moment comes right out of another: the one is the other's, or stands in it.
  Each call that the evaluation of an errand makes is one of these, in the machine that the
  calls before it have left.
* `Reaches` — a moment comes out of another in any number of steps.
* `Moment.Accesses` — at this moment evaluation comes to a variable that is read, or to one that is
  assigned a value already known.
-/

import Lox.Evaluation
import Mathlib.Logic.Relation

namespace Lox

/-- Something that evaluation sets about. -/
inductive Errand where
  | expression (value : Expr)
  | arguments (values : List Expr)
  | call (callee : Value) (closing : Token) (arguments : List Value)
  /-- The value of an assignment is known, and its variable is assigned next. -/
  | assignment (node : NodeId) (name : Token) (value : Value)
  | statement (form : Stmt)
  /-- The value of a declaration or of a `return`. -/
  | optional (value : Option Expr)
  | statements (forms : List Stmt)
  /-- One more round of a loop. -/
  | loop (condition : Expr) (body : Stmt)
  /-- What is left of a program. -/
  | program (forms : List Stmt)

/-- An errand that is set about in a machine. -/
structure Moment where
  fuel : Nat
  errand : Errand
  machine : Machine

/-- The machine in which the body of a function is run. -/
def Machine.inBody (machine : Machine) (closure : Closure) (arguments : List Value) : Machine :=
  { machine with
    depth := machine.depth + 1
    store := (machine.store.add (some closure.scope)).defineAll machine.store.nextId
      ((closure.body.parameters.map Token.lexeme).zip arguments)
    scope := machine.store.nextId }

/-- The machine in which the statements of a block are run. -/
def Machine.inBlock (machine : Machine) : Machine :=
  { machine with store := machine.store.add (some machine.scope), scope := machine.store.nextId }

/-- The first moment sets about the second. -/
inductive Enters : Moment → Moment → Prop
  -- expressions
  | grouping {fuel inner machine} :
      Enters ⟨fuel + 1, .expression (.grouping inner), machine⟩ ⟨fuel, .expression inner, machine⟩
  | unary {fuel operator right machine} :
      Enters ⟨fuel + 1, .expression (.unary operator right), machine⟩
        ⟨fuel, .expression right, machine⟩
  | binaryLeft {fuel left operator right machine} :
      Enters ⟨fuel + 1, .expression (.binary left operator right), machine⟩
        ⟨fuel, .expression left, machine⟩
  | binaryRight {fuel left operator right machine first later} :
      evaluate fuel left machine = .done first later →
      Enters ⟨fuel + 1, .expression (.binary left operator right), machine⟩
        ⟨fuel, .expression right, later⟩
  | logicalLeft {fuel left operator right machine} :
      Enters ⟨fuel + 1, .expression (.logical left operator right), machine⟩
        ⟨fuel, .expression left, machine⟩
  | logicalRight {fuel left operator right machine first later} :
      evaluate fuel left machine = .done first later → decidesLogical operator.kind first = false →
      Enters ⟨fuel + 1, .expression (.logical left operator right), machine⟩
        ⟨fuel, .expression right, later⟩
  | ternaryCondition {fuel condition question yes no machine} :
      Enters ⟨fuel + 1, .expression (.ternary condition question yes no), machine⟩
        ⟨fuel, .expression condition, machine⟩
  | ternaryYes {fuel condition question yes no machine decision later} :
      evaluate fuel condition machine = .done decision later → decision.truthy = true →
      Enters ⟨fuel + 1, .expression (.ternary condition question yes no), machine⟩
        ⟨fuel, .expression yes, later⟩
  | ternaryNo {fuel condition question yes no machine decision later} :
      evaluate fuel condition machine = .done decision later → decision.truthy = false →
      Enters ⟨fuel + 1, .expression (.ternary condition question yes no), machine⟩
        ⟨fuel, .expression no, later⟩
  | assigned {fuel node name value machine} :
      Enters ⟨fuel + 1, .expression (.assign node name value), machine⟩
        ⟨fuel, .expression value, machine⟩
  | assignment {fuel node name value machine result later} :
      evaluate fuel value machine = .done result later →
      Enters ⟨fuel + 1, .expression (.assign node name value), machine⟩
        ⟨fuel, .assignment node name result, later⟩
  | callee {fuel callee arguments closing machine} :
      Enters ⟨fuel + 1, .expression (.call callee arguments closing), machine⟩
        ⟨fuel, .expression callee, machine⟩
  | arguments {fuel callee arguments closing machine function later} :
      evaluate fuel callee machine = .done function later →
      Enters ⟨fuel + 1, .expression (.call callee arguments closing), machine⟩
        ⟨fuel, .arguments arguments, later⟩
  | call {fuel callee arguments closing machine function between values later} :
      evaluate fuel callee machine = .done function between →
      evaluateAll fuel arguments between = .done values later →
      Enters ⟨fuel + 1, .expression (.call callee arguments closing), machine⟩
        ⟨fuel, .call function closing values, later⟩
  | firstArgument {fuel first rest machine} :
      Enters ⟨fuel + 1, .arguments (first :: rest), machine⟩ ⟨fuel, .expression first, machine⟩
  | otherArguments {fuel first rest machine value later} :
      evaluate fuel first machine = .done value later →
      Enters ⟨fuel + 1, .arguments (first :: rest), machine⟩ ⟨fuel, .arguments rest, later⟩
  | body {fuel closure closing arguments machine} :
      Run.checkCall closing closure.body.arity arguments.length machine = .done () machine →
      Enters ⟨fuel + 1, .call (.function closure) closing arguments, machine⟩
        ⟨fuel, .statements closure.body.statements, machine.inBody closure arguments⟩
  -- statements
  | expressionStatement {fuel value machine} :
      Enters ⟨fuel + 1, .statement (.expression value), machine⟩ ⟨fuel, .expression value, machine⟩
  | print {fuel keyword value machine} :
      Enters ⟨fuel + 1, .statement (.print keyword value), machine⟩
        ⟨fuel, .expression value, machine⟩
  | variable {fuel name initializer machine} :
      Enters ⟨fuel + 1, .statement (.var name initializer), machine⟩
        ⟨fuel, .optional initializer, machine⟩
  | block {fuel forms machine} :
      Enters ⟨fuel + 1, .statement (.block forms), machine⟩
        ⟨fuel, .statements forms, machine.inBlock⟩
  | ifCondition {fuel condition yes no machine} :
      Enters ⟨fuel + 1, .statement (.if condition yes no), machine⟩
        ⟨fuel, .expression condition, machine⟩
  | ifYes {fuel condition yes no machine decision later} :
      evaluate fuel condition machine = .done decision later → decision.truthy = true →
      Enters ⟨fuel + 1, .statement (.if condition yes no), machine⟩ ⟨fuel, .statement yes, later⟩
  | ifNo {fuel condition yes no machine decision later} :
      evaluate fuel condition machine = .done decision later → decision.truthy = false →
      Enters ⟨fuel + 1, .statement (.if condition yes (some no)), machine⟩
        ⟨fuel, .statement no, later⟩
  | whileLoop {fuel condition body machine} :
      Enters ⟨fuel + 1, .statement (.while condition body), machine⟩
        ⟨fuel, .loop condition body, machine⟩
  | returning {fuel keyword value machine} :
      Enters ⟨fuel + 1, .statement (.return keyword value), machine⟩
        ⟨fuel, .optional value, machine⟩
  | optional {fuel value machine} :
      Enters ⟨fuel + 1, .optional (some value), machine⟩ ⟨fuel, .expression value, machine⟩
  | firstStatement {fuel first rest machine} :
      Enters ⟨fuel + 1, .statements (first :: rest), machine⟩ ⟨fuel, .statement first, machine⟩
  | otherStatements {fuel first rest machine later} :
      execute fuel first machine = .done .normal later →
      Enters ⟨fuel + 1, .statements (first :: rest), machine⟩ ⟨fuel, .statements rest, later⟩
  -- loops
  | loopCondition {fuel condition body machine} :
      Enters ⟨fuel + 1, .loop condition body, machine⟩ ⟨fuel, .expression condition, machine⟩
  | loopBody {fuel condition body machine decision later} :
      evaluate fuel condition machine = .done decision later → decision.truthy = true →
      Enters ⟨fuel + 1, .loop condition body, machine⟩ ⟨fuel, .statement body, later⟩
  | loopAgain {fuel condition body machine decision between later} :
      evaluate fuel condition machine = .done decision between → decision.truthy = true →
      execute fuel body between = .done .normal later →
      Enters ⟨fuel + 1, .loop condition body, machine⟩ ⟨fuel, .loop condition body, later⟩
  -- programs, whose statements all have the same fuel
  | programStatement {fuel first rest machine} :
      Enters ⟨fuel, .program (first :: rest), machine⟩ ⟨fuel, .statement first, machine⟩
  | restOfProgram {fuel first rest machine later} :
      execute fuel first machine = .done .normal later →
      Enters ⟨fuel, .program (first :: rest), machine⟩ ⟨fuel, .program rest, later⟩

/-- The second moment comes out of the first. -/
def Reaches : Moment → Moment → Prop :=
  Relation.ReflTransGen Enters

/-- At this moment evaluation comes to a variable, which is read, or is assigned a value
that has been evaluated. -/
inductive Moment.Accesses : Moment → NodeId → Access → Token → Prop
  | read {fuel : Nat} {node : NodeId} {name : Token} {machine : Machine} :
      Accesses ⟨fuel, .expression (.variable node name), machine⟩ node .read name
  | write {fuel : Nat} {node : NodeId} {name : Token} {value : Value} {machine : Machine} :
      Accesses ⟨fuel, .assignment node name value, machine⟩ node .write name

end Lox
