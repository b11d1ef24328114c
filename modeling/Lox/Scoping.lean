/-
**Which scope each variable belongs to.**

A walk over a program follows its text and keeps the scopes that are open around the place it is at:
one for each block, and one for each function, which holds the parameters and the declarations of
the body. Global variables are in none of them.

* `Reference` — a place where a variable is read or assigned, with the number of scopes between it
  and the scope of its variable, or none if the variable is global.
* `Walk` — what the walk knows: the open scopes, the kind of function that it is within, and the
  references and the diagnostics that it has found.
* `Expr.walk`, `Stmt.walk`, `FunctionBody.walk` — the walk over a tree. It goes on after a defect.
* `referencesOf`, `resolve` — the references of a program, and the same if the walk finds no defect.

A name is declared before its initializer is walked, and defined after it; what an initializer reads
belongs to the declaration around it even though that cannot be read yet.
-/

import Lox.Diagnostic
import Lox.Names
import Lox.Tree

namespace Lox

/-! ### References -/

/-- What is done with a variable at a place. -/
inductive Access where
  | read
  | write
deriving DecidableEq, Repr

/-- A place where a variable is read or assigned. -/
structure Reference where
  node : NodeId
  access : Access
  name : Token
  /-- The number of scopes between the place and the scope of the variable; none if it is global. -/
  distance : Option Nat
deriving DecidableEq

/-! ### What a walk knows and does -/

/-- What makes a function. -/
inductive FunctionKind where
  /-- A statement that declares it. -/
  | function
  /-- An expression. -/
  | lambda
deriving DecidableEq, Repr

/-- What a walk over a program knows. -/
structure Walk where
  /-- The open scopes, innermost first. A name in a scope is marked `true` once it may be read. -/
  scopes : List (Names Bool)
  /-- The kind of the function that the walk is right within; none outside of all functions. -/
  currentFunction : Option FunctionKind
  /-- The references so far, in the order of the walk. -/
  references : List Reference
  /-- The diagnostics so far, in the order of the walk. -/
  diagnostics : List Diagnostic
deriving DecidableEq

/-- The number of scopes before the first one that has a name. -/
def distanceTo? (name : String) (scopes : List (Names Bool)) : Option Nat :=
  scopes.findIdx? fun scope => scope.has name

namespace Walk

/-- The start of a walk: no scope is open. -/
def start : Walk :=
  ⟨[], none, [], []⟩

/-- The innermost scope. -/
def innermost? (walk : Walk) : Option (Names Bool) :=
  walk.scopes.head?

/-- Opens a scope. -/
def openScope (walk : Walk) : Walk :=
  { walk with scopes := [] :: walk.scopes }

/-- Closes the innermost scope. -/
def closeScope (walk : Walk) : Walk :=
  { walk with scopes := walk.scopes.tail }

/-- Marks a name in the innermost scope; outside all scopes there is nothing to mark. -/
def mark (walk : Walk) (name : Token) (readable : Bool) : Walk :=
  match walk.scopes with
  | [] => walk
  | innermost :: outer => { walk with scopes := innermost.set name.lexeme readable :: outer }

/-- Records a defect at a token. -/
def record (walk : Walk) (token : Token) (defect : Defect) : Walk :=
  { walk with diagnostics := walk.diagnostics ++ [.atToken token defect] }

/-- Declares a name that may not be read yet. A second declaration in the same scope is a defect. -/
def declare (walk : Walk) (name : Token) : Walk :=
  let declared := walk.mark name false
  if walk.innermost?.any (·.has name.lexeme) then declared.record name .alreadyDeclared
    else declared

/-- Lets a declared name be read from here on. -/
def define (walk : Walk) (name : Token) : Walk :=
  walk.mark name true

/-- Records a reference with its distance. -/
def refer (walk : Walk) (node : NodeId) (access : Access) (name : Token) : Walk :=
  let reference := ⟨node, access, name, distanceTo? name.lexeme walk.scopes⟩
  { walk with references := walk.references ++ [reference] }

/-- Whether a name stands in the expression that gives it its first value. -/
def inOwnInitializer (walk : Walk) (name : Token) : Bool :=
  walk.innermost?.any fun innermost => innermost.get? name.lexeme == some false

/-- Records a read of a variable; in its own initializer that is a defect. -/
def readVariable (walk : Walk) (node : NodeId) (name : Token) : Walk :=
  let checked := if walk.inOwnInitializer name then walk.record name .ownInitializer else walk
  checked.refer node .read name

/-- Checks a `return`; outside every function it is a defect. -/
def checkReturn (walk : Walk) (keyword : Token) : Walk :=
  if walk.currentFunction = none then walk.record keyword .topLevelReturn else walk

/-- Declares and defines a parameter. -/
def parameter (walk : Walk) (name : Token) : Walk :=
  (walk.declare name).define name

/-- Starts the body of a function: its scope, with its parameters. -/
def enterFunction (walk : Walk) (kind : FunctionKind) (parameters : List Token) : Walk :=
  parameters.foldl parameter { walk.openScope with currentFunction := some kind }

/-- Ends the body of a function that the walk came to from `outside`, and is back in the function
around it, if any. -/
def leaveFunction (walk outside : Walk) : Walk :=
  { walk.closeScope with currentFunction := outside.currentFunction }

end Walk

/-! ### The walk over a tree -/

mutual

/-- The walk over an expression. -/
def Expr.walk : Expr → Walk → Walk
  | .literal _, walk => walk
  | .grouping inner, walk => inner.walk walk
  | .unary _ right, walk => right.walk walk
  | .binary left _ right, walk => right.walk (left.walk walk)
  | .logical left _ right, walk => right.walk (left.walk walk)
  | .ternary condition _ yes no, walk => no.walk (yes.walk (condition.walk walk))
  | .variable node name, walk => walk.readVariable node name
  | .assign node name value, walk => (value.walk walk).refer node .write name
  | .call callee arguments _, walk => walkAll arguments (callee.walk walk)
  | .lambda _ function, walk => function.walk .lambda walk

/-- The walk over expressions, in order. -/
def walkAll : List Expr → Walk → Walk
  | [], walk => walk
  | first :: rest, walk => walkAll rest (first.walk walk)

/-- The walk over a statement. -/
def Stmt.walk : Stmt → Walk → Walk
  | .expression value, walk => value.walk walk
  | .print _ value, walk => value.walk walk
  | .var name none, walk => (walk.declare name).define name
  | .var name (some initializer), walk => (initializer.walk (walk.declare name)).define name
  | .block statements, walk => (walkStatements statements walk.openScope).closeScope
  | .if condition yes none, walk => yes.walk (condition.walk walk)
  | .if condition yes (some no), walk => no.walk (yes.walk (condition.walk walk))
  | .while condition body, walk => body.walk (condition.walk walk)
  | .function name function, walk => function.walk .function ((walk.declare name).define name)
  | .return keyword none, walk => walk.checkReturn keyword
  | .return keyword (some value), walk => value.walk (walk.checkReturn keyword)

/-- The walk over statements, in order. -/
def walkStatements : List Stmt → Walk → Walk
  | [], walk => walk
  | first :: rest, walk => walkStatements rest (first.walk walk)

/-- The walk over the body of a function of this kind, in a scope of its own. -/
def FunctionBody.walk : FunctionBody → FunctionKind → Walk → Walk
  | ⟨parameters, statements⟩, kind, walk =>
    (walkStatements statements (walk.enterFunction kind parameters)).leaveFunction walk

end

namespace Walk

/-- The references that a walk has found, if it has found no defect. -/
def result (walk : Walk) : Except (List Diagnostic) (List Reference) :=
  if walk.diagnostics.isEmpty then .ok walk.references else .error walk.diagnostics

end Walk

/-! ### The references of a program -/

/-- The references of a program, in the order of the walk. -/
def referencesOf (program : List Stmt) : List Reference :=
  (walkStatements program .start).references

/-- The references of a program, or everything that is wrong with its names. -/
def resolve (program : List Stmt) : Except (List Diagnostic) (List Reference) :=
  (walkStatements program .start).result

/-- The references of a single expression, or everything that is wrong with its names. -/
def resolveExpression (value : Expr) : Except (List Diagnostic) (List Reference) :=
  (value.walk .start).result

end Lox
