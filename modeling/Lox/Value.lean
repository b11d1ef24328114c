/-
**Values.**

* `Value` — nil, booleans, numbers, strings and functions.
* `Native` — a function that is there from the start: its name, its arity, and what it makes of its
  arguments, of which it sees a `Datum` each.
* `Closure` — a function made by a program: what it does, the scope it was made in, and an identity
  of its own, which no other function has.
* `Value.truthy`, `Value.equals`, `Value.text` — what a condition, `==` and `print` make of a value.
-/

import Lox.Number
import Lox.Tree

namespace Lox

/-- The identity of a scope. -/
structure ScopeId where
  index : Nat
deriving DecidableEq, Repr

/-- What a native function sees of an argument: a constant, or the text of a function. -/
inductive Datum where
  | constant (value : Literal)
  | function (text : String)

/-- A function that is no part of any program. -/
structure Native where
  /-- The global variable that holds it. -/
  name : String
  /-- The number of arguments that it takes. -/
  arity : Nat
  /-- What it makes of its arguments at a time: a constant, or what went wrong, in words. -/
  function : List Datum → (time : Float) → Except String Literal

namespace Native

/-- The time in seconds. -/
def clock : Native where
  name := "clock"
  arity := 0
  function _ time := .ok (.number time)

/-- All functions that are there from the start. -/
def all : List Native :=
  [.clock]

end Native

/-- A function made by a program. -/
structure Closure where
  /-- The identity of the function. -/
  identity : Nat
  /-- The name it was declared with; a lambda has none. -/
  name : Option String
  body : FunctionBody
  /-- The scope in which it was made. -/
  scope : ScopeId

/-- A value. -/
inductive Value where
  | nil
  | boolean (value : Bool)
  | number (value : Float)
  | string (contents : String)
  | native (function : Native)
  | function (closure : Closure)

namespace Value

/-- Whether a condition with this value holds: nil and false are the only values that do not. -/
def truthy : Value → Bool
  | .nil => false
  | .boolean value => value
  | _ => true

/-- Whether two values are equal. Values of different types never are, no value that is
not a number equals itself, native functions are equal by their names, and any other
function equals only itself. -/
def equals : Value → Value → Bool
  | .nil, .nil => true
  | .boolean left, .boolean right => left == right
  | .number left, .number right => left == right
  | .string left, .string right => left == right
  | .native left, .native right => left.name == right.name
  | .function left, .function right => left.identity == right.identity
  | _, _ => false

/-- The text that is printed for a value. -/
def text : Value → String
  | .nil => "nil"
  | .boolean true => "true"
  | .boolean false => "false"
  | .number value => Number.printed value
  | .string contents => contents
  | .native known => "<native fn " ++ known.name ++ ">"
  | .function closure => "<fn " ++ closure.name.getD "anonymous" ++ ">"

/-- What a native function sees of a value. -/
def datum : Value → Datum
  | .nil => .constant .nil
  | .boolean true => .constant .true
  | .boolean false => .constant .false
  | .number value => .constant (.number value)
  | .string contents => .constant (.string contents)
  | callable => .function callable.text

end Value

/-- The value of a constant. -/
def Literal.value : Literal → Value
  | .number value => .number value
  | .string contents => .string contents
  | .true => .boolean Bool.true
  | .false => .boolean Bool.false
  | .nil => .nil

end Lox
