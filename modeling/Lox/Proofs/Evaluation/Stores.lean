/-
**What opening scopes and binding names does to the scopes there are.**

* `Store.scope?_add`, `Store.scope?_define` — a store after a scope is opened,
  and after a name is bound.
* `Store.Extends` — a later store: no scope is lost, none is moved into another one, and no name is
  unbound. Opening scopes and binding names extends a store (`extends_add`, `extends_define`).
* `Store.local?_defineAll` — after a list of bindings, each name in it is bound.
-/

import Lox.Store

namespace Lox

namespace Store

variable (store : Store)

/-! ### One change -/

theorem scope?_add (enclosing : Option ScopeId) (scope : ScopeId) :
    (store.add enclosing).scope? scope =
      if scope = store.nextId then some ⟨[], enclosing⟩ else store.scope? scope := by
  obtain ⟨index⟩ := scope
  unfold scope? add nextId size
  rw [Array.getElem?_push]
  by_cases isNew : index = store.scopes.size
  · rw [if_pos isNew, if_pos (by rw [isNew])]
  · rw [if_neg isNew, if_neg (by simpa using isNew)]

theorem scope?_define (target : ScopeId) (name : String) (value : Value) (scope : ScopeId) :
    (store.define target name value).scope? scope =
      if scope = target then
        (store.scope? scope).map fun found =>
          { found with bindings := found.bindings.set name value }
      else store.scope? scope := by
  obtain ⟨index⟩ := scope
  obtain ⟨target⟩ := target
  unfold scope? define
  rw [Array.getElem?_modify]
  by_cases isTarget : target = index
  · rw [if_pos isTarget, if_pos (by rw [isTarget])]
  · rw [if_neg isTarget, if_neg (by simpa using Ne.symm isTarget)]

/-- What a scope binds a name to, after a name was bound in some scope. -/
theorem local?_define (target : ScopeId) (name : String) (value : Value) (scope : ScopeId)
    (other : String) :
    (store.define target name value).local? scope other =
      if scope = target ∧ other = name ∧ (store.scope? scope).isSome then some value
      else store.local? scope other := by
  unfold local?
  rw [scope?_define]
  by_cases isTarget : scope = target
  · cases found : store.scope? scope with
    | none => simp [isTarget]
    | some binding =>
      by_cases isName : other = name
      · simp [isTarget, isName, Names.get?_set]
      · simp [isTarget, isName, Names.get?_set]
  · simp [isTarget]

theorem local?_add (enclosing : Option ScopeId) (scope : ScopeId) (name : String) :
    (store.add enclosing).local? scope name =
      if scope = store.nextId then none else store.local? scope name := by
  unfold local?
  rw [scope?_add]
  by_cases isNew : scope = store.nextId
  · rw [if_pos isNew, if_pos isNew]
    rfl
  · rw [if_neg isNew, if_neg isNew]

theorem enclosing?_add (enclosing : Option ScopeId) (scope : ScopeId) :
    (store.add enclosing).enclosing? scope =
      if scope = store.nextId then enclosing else store.enclosing? scope := by
  unfold enclosing?
  rw [scope?_add]
  by_cases isNew : scope = store.nextId
  · rw [if_pos isNew, if_pos isNew]
    rfl
  · rw [if_neg isNew, if_neg isNew]

theorem enclosing?_define (target : ScopeId) (name : String) (value : Value) (scope : ScopeId) :
    (store.define target name value).enclosing? scope = store.enclosing? scope := by
  unfold enclosing?
  rw [scope?_define]
  by_cases isTarget : scope = target
  · rw [if_pos isTarget]
    cases store.scope? scope <;> rfl
  · rw [if_neg isTarget]

/-- A scope is there if its index is less than the number of scopes. -/
theorem isSome_scope?_iff {store : Store} {scope : ScopeId} :
    (store.scope? scope).isSome = true ↔ scope.index < store.size := by
  unfold scope?
  rw [isSome_getElem?]
  rfl

/-- No scope has the identity of the one that is opened next. -/
theorem scope?_nextId : store.scope? store.nextId = none := by
  unfold scope? nextId size
  exact Array.getElem?_size

/-! ### Later stores -/

/-- No scope is lost, none is moved into another one, and no name is unbound. -/
def Extends (store later : Store) : Prop :=
  ∀ scope found, store.scope? scope = some found → ∃ now, later.scope? scope = some now ∧
    now.enclosing = found.enclosing ∧ ∀ name, found.bindings.has name = true →
    now.bindings.has name = true

variable {store} {middle later : Store}

theorem Extends.refl (store : Store) : store.Extends store :=
  fun _ found isFound => ⟨found, isFound, rfl, fun _ => id⟩

theorem Extends.trans (first : store.Extends middle) (second : middle.Extends later) :
    store.Extends later := by
  intro scope found isFound
  obtain ⟨between, isBetween, enclosing, kept⟩ := first scope found isFound
  obtain ⟨now, isNow, enclosing', kept'⟩ := second scope between isBetween
  exact ⟨now, isNow, enclosing'.trans enclosing, fun name bound => kept' name (kept name bound)⟩

theorem extends_add (store : Store) (enclosing : Option ScopeId) :
    store.Extends (store.add enclosing) := by
  intro scope found isFound
  have isOld : scope ≠ store.nextId := by
    rintro rfl
    rw [scope?_nextId] at isFound
    cases isFound
  exact ⟨found, by rw [scope?_add, if_neg isOld, isFound], rfl, fun _ => id⟩

theorem extends_define (store : Store) (target : ScopeId) (name : String) (value : Value) :
    store.Extends (store.define target name value) := by
  intro scope found isFound
  rw [scope?_define, isFound]
  by_cases isTarget : scope = target
  · refine ⟨{ found with bindings := found.bindings.set name value }, by
      rw [if_pos isTarget]; rfl, rfl, ?_⟩
    intro other bound
    unfold Names.has
    rw [Names.get?_set]
    split
    · rfl
    · exact bound
  · exact ⟨found, by rw [if_neg isTarget], rfl, fun _ => id⟩

theorem extends_defineAll (store : Store) (scope : ScopeId) (bindings : List (String × Value)) :
    store.Extends (store.defineAll scope bindings) := by
  unfold defineAll
  induction bindings generalizing store with
  | nil => exact .refl store
  | cons binding rest ih => exact (extends_define store scope binding.1 binding.2).trans (ih _)

namespace Extends

variable {scope outer : ScopeId} {name : String}

theorem isSome_scope? (extension : store.Extends later) (found : (store.scope? scope).isSome) :
    (later.scope? scope).isSome := by
  obtain ⟨_, isFound⟩ := Option.isSome_iff_exists.mp found
  obtain ⟨_, isNow, -⟩ := extension scope _ isFound
  rw [isNow]
  rfl

theorem enclosing? (extension : store.Extends later) (found : (store.scope? scope).isSome) :
    later.enclosing? scope = store.enclosing? scope := by
  obtain ⟨_, isFound⟩ := Option.isSome_iff_exists.mp found
  obtain ⟨_, isNow, enclosing, -⟩ := extension scope _ isFound
  unfold Store.enclosing?
  rw [isFound, isNow]
  exact enclosing

theorem isSome_local? (extension : store.Extends later) (bound : (store.local? scope name).isSome) :
    (later.local? scope name).isSome := by
  unfold Store.local? at bound ⊢
  cases isFound : store.scope? scope with
  | none => rw [isFound] at bound; cases bound
  | some found =>
    rw [isFound] at bound
    obtain ⟨_, isNow, -, kept⟩ := extension scope found isFound
    rw [isNow]
    exact kept name bound

end Extends

/-- A scope that is in another one is there. -/
theorem isSome_of_enclosing? {scope outer : ScopeId}
    (enclosing : store.enclosing? scope = some outer) :
    (store.scope? scope).isSome := by
  unfold enclosing? at enclosing
  cases found : store.scope? scope with
  | none => rw [found] at enclosing; cases enclosing
  | some => rfl

/-! ### Lists of bindings -/

/-- What is bound after a list of bindings was bound before, or stands in the list. -/
theorem local?_defineAll {target scope : ScopeId} {bindings : List (String × Value)} {name : String}
    {value : Value} (bound : (store.defineAll target bindings).local? scope name = some value) :
    store.local? scope name = some value ∨ (name, value) ∈ bindings := by
  unfold defineAll at bound
  induction bindings generalizing store with
  | nil => exact .inl bound
  | cons binding rest ih =>
    rcases ih bound with before | later
    · rw [local?_define] at before
      split at before
      · rename_i isHere
        obtain rfl := Option.some.inj before
        exact .inr (by rw [isHere.2.1]; exact List.mem_cons_self)
      · exact .inl before
    · exact .inr (List.mem_cons_of_mem _ later)

/-- Each name in a list of bindings is bound afterwards. -/
theorem isSome_local?_defineAll {scope : ScopeId} {bindings : List (String × Value)} {name : String}
    (found : (store.scope? scope).isSome) (isName : name ∈ bindings.map Prod.fst) :
    ((store.defineAll scope bindings).local? scope name).isSome := by
  unfold defineAll
  induction bindings generalizing store with
  | nil => cases isName
  | cons binding rest ih =>
    have found' := (extends_define store scope binding.1 binding.2).isSome_scope? found
    rcases List.mem_cons.mp isName with rfl | later
    · refine (extends_defineAll _ scope rest).isSome_local? ?_
      rw [local?_define, if_pos ⟨rfl, rfl, found⟩]
      rfl
    · exact ih found' later

end Store

end Lox
