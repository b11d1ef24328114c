/-
**Scopes at run time.**

A scope holds the values of variables and knows the scope around it. Many scopes share
the ones around them, so that a value written through one is seen through all others
that reach the same scope.

* `Scope`, `Store` — a scope, and all scopes that were ever opened.
* `Store.add`, `Store.define` — opening a scope, and binding a name in one. Nothing else changes a
  store.
* `Store.get?`, `Store.holder?`, `Store.assign?` — the nearest binding of a name, walking outward.
* `Store.ancestor?`, `Store.getAt?`, `Store.assignAt?` — the scope a number of steps
  outward, and what it binds.

A walk outward takes at most as many steps as there are scopes.
-/

import Lox.Names
import Lox.Value

namespace Lox

/-- The variables of a scope, and the scope around it. -/
structure Scope where
  bindings : Names Value
  enclosing : Option ScopeId

/-- All scopes that were ever opened; a scope's identity is its place. -/
structure Store where
  scopes : Array Scope

namespace Store

/-- No scope at all. -/
def empty : Store :=
  ⟨#[]⟩

/-- The number of scopes. -/
def size (store : Store) : Nat :=
  store.scopes.size

/-- A scope by its identity. -/
def scope? (store : Store) (scope : ScopeId) : Option Scope :=
  store.scopes[scope.index]?

/-- The scope around a scope. -/
def enclosing? (store : Store) (scope : ScopeId) : Option ScopeId :=
  (store.scope? scope).bind Scope.enclosing

/-- What a scope itself binds a name to. -/
def local? (store : Store) (scope : ScopeId) (name : String) : Option Value :=
  (store.scope? scope).bind fun found => found.bindings.get? name

/-- The identity of the scope that is opened next. -/
def nextId (store : Store) : ScopeId :=
  ⟨store.size⟩

/-! ### Changes -/

/-- Opens a scope without bindings; its identity is `store.nextId`. -/
def add (store : Store) (enclosing : Option ScopeId) : Store :=
  ⟨store.scopes.push ⟨[], enclosing⟩⟩

/-- Binds a name in a scope, in the place of its old binding there. -/
def define (store : Store) (scope : ScopeId) (name : String) (value : Value) : Store :=
  ⟨store.scopes.modify scope.index fun found =>
    { found with bindings := found.bindings.set name value }⟩

/-- Binds names in a scope, one after the other. -/
def defineAll (store : Store) (scope : ScopeId) (bindings : List (String × Value)) : Store :=
  bindings.foldl (fun store binding => store.define scope binding.1 binding.2) store

/-! ### Walking outward -/

/-- The nearest of a scope and `steps` scopes outward that binds a name. -/
def holderWithin (store : Store) (name : String) : (steps : Nat) → ScopeId → Option ScopeId
  | 0, _ => none
  | steps + 1, scope =>
    if (store.local? scope name).isSome then some scope
    else (store.enclosing? scope).bind (store.holderWithin name steps)

/-- The nearest scope outward that binds a name. -/
def holder? (store : Store) (scope : ScopeId) (name : String) : Option ScopeId :=
  store.holderWithin name store.size scope

/-- What the nearest of a scope and `steps` scopes outward binds a name to. -/
def getWithin (store : Store) (name : String) : (steps : Nat) → ScopeId → Option Value
  | 0, _ => none
  | steps + 1, scope =>
    match store.local? scope name with
    | some value => some value
    | none => (store.enclosing? scope).bind (store.getWithin name steps)

/-- What a name is bound to, in the nearest scope outward that binds it. -/
def get? (store : Store) (scope : ScopeId) (name : String) : Option Value :=
  store.getWithin name store.size scope

/-- Changes the nearest binding of a name; where there is none, none is made. -/
def assign? (store : Store) (scope : ScopeId) (name : String) (value : Value) : Option Store :=
  (store.holder? scope name).map fun holder => store.define holder name value

/-! ### Jumping outward -/

/-- The scope `distance` steps outward, if there are as many. -/
def ancestor? (store : Store) (scope : ScopeId) : (distance : Nat) → Option ScopeId
  | 0 => some scope
  | distance + 1 => (store.enclosing? scope).bind fun outer => store.ancestor? outer distance

/-- What the scope `distance` steps outward binds a name to. -/
def getAt? (store : Store) (scope : ScopeId) (distance : Nat) (name : String) : Option Value :=
  (store.ancestor? scope distance).bind fun target => store.local? target name

/-- Binds a name in the scope `distance` steps outward, if there are as many. -/
def assignAt? (store : Store) (scope : ScopeId) (distance : Nat) (name : String) (value : Value) :
    Option Store :=
  (store.ancestor? scope distance).map fun target => store.define target name value

end Store

end Lox
