/-
**Forests of scopes.**

* `Store.Chain` — the scopes from one outward, up to one that stands in no other.
* `Store.Forest` — a scope that stands in another one was opened after it. Then there is a chain
  from each scope (`Forest.exists_chain`), and as many steps as there are scopes lead past every end
  (`Forest.lt_size`).
* `Store.Nearest` — so far outward is the first scope that binds a name. Walking there step by step,
  reading finds what jumping there finds, and assigning finds the scope (`within_of_nearest`,
  `Forest.walk_of_nearest`).
* `Store.Rebinds` — a later store where one name in one scope is bound anew, and everything that is
  looked up in the two stores.
* `Store.Grown` — the stores that can be made from none: scopes are opened, names are bound, and
  assigned by walking and by jumping, in any order.
* `walks_agree_with_jumps` — in each of these, walking to the nearest binding of a name
  and jumping to it agree.
-/

import Lox.Machine
import Lox.Proofs.Evaluation.Stores
import Mathlib.Data.List.Nodup
import Mathlib.Order.Nat

namespace Lox

namespace Store

variable {store later : Store}

/-! ### Chains of scopes -/

/-- The scopes from this one outward, up to one that stands in no other. -/
inductive Chain (store : Store) : ScopeId → List ScopeId → Prop
  | last {scope : ScopeId} {bindings : Names Value} :
      store.scope? scope = some ⟨bindings, none⟩ → Chain store scope [scope]
  | inside {scope outer : ScopeId} {rest : List ScopeId} :
      store.enclosing? scope = some outer → Chain store outer rest →
      Chain store scope (scope :: rest)

/-- A number of steps outward leads to the scope in this place of the chain. -/
theorem Chain.ancestor? {scope : ScopeId} {scopes : List ScopeId} (chain : store.Chain scope scopes)
    (distance : Nat) : store.ancestor? scope distance = scopes[distance]? := by
  induction chain generalizing distance with
  | @last scope bindings found =>
    cases distance with
    | zero => rfl
    | succ distance =>
      have outermost : store.enclosing? scope = none := by
        unfold Store.enclosing?
        rw [found]
        rfl
      rw [Store.ancestor?, outermost]
      rfl
  | inside enclosing _ ih =>
    cases distance with
    | zero => rfl
    | succ distance =>
      rw [Store.ancestor?, enclosing, List.getElem?_cons_succ]
      exact ih distance

/-- Going outward from where some steps outward have led. -/
theorem ancestor?_add (store : Store) (scope : ScopeId) (first second : Nat) :
    store.ancestor? scope (first + second) =
      (store.ancestor? scope first).bind fun middle => store.ancestor? middle second := by
  induction first generalizing scope with
  | zero => rw [Nat.zero_add]; rfl
  | succ first ih =>
    rw [Nat.succ_add, ancestor?, ancestor?, Option.bind_assoc]
    exact congrArg _ (funext ih)

theorem getAt?_zero (store : Store) (scope : ScopeId) (name : String) :
    store.getAt? scope 0 name = store.local? scope name :=
  rfl

theorem getAt?_succ (store : Store) (scope : ScopeId) (distance : Nat) (name : String) :
    store.getAt? scope (distance + 1) name =
      (store.enclosing? scope).bind fun outer => store.getAt? outer distance name := by
  unfold getAt?
  rw [ancestor?, Option.bind_assoc]

/-! ### Forests -/

/-- A scope that stands in another one was opened after it. -/
def Forest (store : Store) : Prop :=
  ∀ scope outer, store.enclosing? scope = some outer → outer.index < scope.index

namespace Forest

theorem empty : Store.empty.Forest :=
  fun scope outer enclosing => by
    unfold Store.enclosing? Store.scope? Store.empty at enclosing
    simp at enclosing

/-- A scope may be opened in none, or in one that is there. -/
theorem add (forest : store.Forest) {enclosing : Option ScopeId}
    (there : ∀ outer, enclosing = some outer → (store.scope? outer).isSome) :
    (store.add enclosing).Forest := by
  intro scope outer inside
  rw [enclosing?_add] at inside
  split at inside
  · rename_i isNew
    rw [isNew]
    exact isSome_scope?_iff.mp (there outer inside)
  · exact forest scope outer inside

theorem define (forest : store.Forest) (target : ScopeId) (name : String) (value : Value) :
    (store.define target name value).Forest := by
  intro scope outer inside
  rw [enclosing?_define] at inside
  exact forest scope outer inside

/-- The scope around a scope is there. -/
theorem isSome_outer (forest : store.Forest) {scope outer : ScopeId}
    (inside : store.enclosing? scope = some outer) : (store.scope? outer).isSome := by
  have isInner := isSome_scope?_iff.mp (isSome_of_enclosing? inside)
  exact isSome_scope?_iff.mpr (Nat.lt_trans (forest scope outer inside) isInner)

/-- The scopes further outward were opened before. -/
theorem index_add_le (forest : store.Forest) {scope target : ScopeId} {distance : Nat}
    (leads : store.ancestor? scope distance = some target) :
    target.index + distance ≤ scope.index := by
  induction distance generalizing scope with
  | zero =>
    obtain rfl := Option.some.inj leads
    exact Nat.le_refl _
  | succ distance ih =>
    obtain ⟨outer, inside, leads⟩ := Option.bind_eq_some_iff.mp leads
    have further := ih leads
    have before := forest scope outer inside
    omega

/-- There is a chain from each scope. -/
theorem exists_chain (forest : store.Forest) {scope : ScopeId}
    (there : (store.scope? scope).isSome) :
    ∃ outward, store.Chain scope (scope :: outward) := by
  -- each step outward leads to a scope that was opened before
  induction index : scope.index using Nat.strongRecOn generalizing scope with
  | ind index ih =>
    cases inside : store.enclosing? scope with
    | none =>
      obtain ⟨⟨bindings, enclosing⟩, found⟩ := Option.isSome_iff_exists.mp there
      obtain rfl : enclosing = none := by
        unfold Store.enclosing? at inside
        rw [found] at inside
        exact inside
      exact ⟨[], .last found⟩
    | some outer =>
      have before := forest scope outer inside
      obtain ⟨outward, chain⟩ := ih outer.index (index ▸ before) (forest.isSome_outer inside) rfl
      exact ⟨outer :: outward, .inside inside chain⟩

end Forest

/-- No scope comes twice in a chain. -/
theorem Chain.nodup {scope : ScopeId} {scopes : List ScopeId} (chain : store.Chain scope scopes)
    (forest : store.Forest) : scopes.Nodup ∧ ∀ one ∈ scopes, one.index ≤ scope.index := by
  induction chain with
  | last => exact ⟨List.nodup_singleton _, by simp⟩
  | @inside scope outer rest inside _ ih =>
    have before := forest scope outer inside
    refine ⟨List.nodup_cons.mpr ⟨fun again => ?_, ih.1⟩, fun one isOne => ?_⟩
    · have := ih.2 scope again
      omega
    · rcases List.mem_cons.mp isOne with rfl | isOuter
      · exact Nat.le_refl _
      · have := ih.2 one isOuter
        omega

/-! ### The nearest binding -/

/-- So many steps outward is the first scope that binds the name. -/
def Nearest (store : Store) (scope : ScopeId) (name : String) (distance : Nat) : Prop :=
  IsLeast {distance | (store.getAt? scope distance name).isSome} distance

/-- What is one step further outward from a scope that does not bind the name. -/
theorem Nearest.outward {scope : ScopeId} {name : String} {distance : Nat}
    (nearest : store.Nearest scope name (distance + 1)) :
    store.local? scope name = none ∧
      ∃ outer, store.enclosing? scope = some outer ∧ store.Nearest outer name distance := by
  obtain ⟨bound, least⟩ := nearest
  refine ⟨?_, ?_⟩
  · by_contra found
    have here : (store.getAt? scope 0 name).isSome := Option.isSome_iff_ne_none.mpr found
    exact absurd (least here) (Nat.not_succ_le_zero distance)
  · replace bound : (store.getAt? scope (distance + 1) name).isSome := bound
    rw [getAt?_succ] at bound
    cases inside : store.enclosing? scope with
    | none =>
      rw [inside] at bound
      cases bound
    | some outer =>
      rw [inside] at bound
      refine ⟨outer, rfl, bound, fun other isBound => ?_⟩
      have further : (store.getAt? scope (other + 1) name).isSome := by
        rw [getAt?_succ, inside]
        exact isBound
      exact Nat.le_of_succ_le_succ (least further)

/-- Walking far enough leads to the nearest binding. -/
theorem within_of_nearest {scope : ScopeId} {name : String} {distance steps : Nat}
    (nearest : store.Nearest scope name distance) (enough : distance < steps) :
    store.getWithin name steps scope = store.getAt? scope distance name ∧
      store.holderWithin name steps scope = store.ancestor? scope distance := by
  induction steps generalizing scope distance with
  | zero => omega
  | succ steps ih =>
    rw [getWithin, holderWithin]
    cases distance with
    | zero =>
      obtain ⟨value, bound⟩ := Option.isSome_iff_exists.mp nearest.1
      rw [getAt?_zero] at bound
      rw [getAt?_zero, bound]
      exact ⟨rfl, rfl⟩
    | succ distance =>
      obtain ⟨unbound, outer, inside, further⟩ := nearest.outward
      rw [getAt?_succ, ancestor?, unbound, inside]
      exact ih further (by omega)

/-- Where no scope outward binds the name, walking finds nothing. -/
theorem within_of_unbound {scope : ScopeId} {name : String} (steps : Nat)
    (unbound : ∀ distance, store.getAt? scope distance name = none) :
    store.getWithin name steps scope = none ∧ store.holderWithin name steps scope = none := by
  induction steps generalizing scope with
  | zero => exact ⟨rfl, rfl⟩
  | succ steps ih =>
    have here := unbound 0
    rw [getAt?_zero] at here
    rw [getWithin, holderWithin, here]
    cases inside : store.enclosing? scope with
    | none => exact ⟨rfl, rfl⟩
    | some outer =>
      refine ih fun distance => ?_
      have further := unbound (distance + 1)
      rwa [getAt?_succ, inside] at further

/-- A scope from which something is found is there. -/
theorem isSome_scope?_of_getAt? {scope : ScopeId} {distance : Nat} {name : String}
    (bound : (store.getAt? scope distance name).isSome) : (store.scope? scope).isSome := by
  cases distance with
  | zero =>
    rw [getAt?_zero] at bound
    unfold local? at bound
    cases found : store.scope? scope with
    | none => rw [found] at bound; cases bound
    | some => rfl
  | succ distance =>
    rw [getAt?_succ] at bound
    cases inside : store.enclosing? scope with
    | none => rw [inside] at bound; cases bound
    | some outer => exact isSome_of_enclosing? inside

namespace Forest

/-- Nothing is found further outward than there are scopes. -/
theorem lt_size (forest : store.Forest) {scope : ScopeId} {distance : Nat} {name : String}
    (bound : (store.getAt? scope distance name).isSome) : distance < store.size := by
  have there := isSome_scope?_iff.mp (isSome_scope?_of_getAt? bound)
  obtain ⟨value, bound⟩ := Option.isSome_iff_exists.mp bound
  obtain ⟨target, leads, -⟩ := Option.bind_eq_some_iff.mp bound
  have := forest.index_add_le leads
  omega

/-- **Walking outward leads to the nearest binding.** -/
theorem walk_of_nearest (forest : store.Forest) {scope : ScopeId} {name : String} {distance : Nat}
    (nearest : store.Nearest scope name distance) :
    store.get? scope name = store.getAt? scope distance name ∧
      store.holder? scope name = store.ancestor? scope distance :=
  within_of_nearest nearest (forest.lt_size nearest.1)

end Forest

theorem walk_of_unbound {scope : ScopeId} {name : String}
    (unbound : ∀ distance, store.getAt? scope distance name = none) :
    store.get? scope name = none ∧ store.holder? scope name = none :=
  within_of_unbound store.size unbound

/-! ### What one binding changes -/

/-- The later store binds the name in the target to the value. Whatever leads to this binding finds
the value, and everything else that is looked up is as before. -/
structure Rebinds (store : Store) (target : ScopeId) (name : String) (value : Value)
    (later : Store) : Prop where
  size : later.size = store.size
  enclosing? : ∀ scope, later.enclosing? scope = store.enclosing? scope
  local? : ∀ scope asked, later.local? scope asked =
    if scope = target ∧ asked = name then some value else store.local? scope asked
  /-- By jumping. -/
  getAt? : ∀ scope distance asked, later.getAt? scope distance asked =
    if store.ancestor? scope distance = some target ∧ asked = name then some value
    else store.getAt? scope distance asked
  /-- By walking, where the binding is the nearest one. -/
  found : ∀ scope distance, store.Nearest scope name distance →
    store.ancestor? scope distance = some target →
    later.get? scope name = some value
  /-- By walking, where another binding is the nearest one, or none is. -/
  kept : ∀ scope asked, (∀ distance, store.Nearest scope asked distance →
    ¬ (asked = name ∧ store.ancestor? scope distance = some target)) →
    later.get? scope asked = store.get? scope asked

/-- Where the scopes stand as before, the same steps lead to the same scopes. -/
theorem ancestor?_congr (same : ∀ scope, later.enclosing? scope = store.enclosing? scope)
    (scope : ScopeId) (distance : Nat) :
    later.ancestor? scope distance = store.ancestor? scope distance := by
  induction distance generalizing scope with
  | zero => rfl
  | succ distance ih =>
    rw [ancestor?, ancestor?, same]
    exact congrArg _ (funext ih)

/-- There is a nearest binding as soon as there is any. -/
theorem exists_nearest {scope : ScopeId} {name : String} {distance : Nat}
    (bound : (store.getAt? scope distance name).isSome) :
    ∃ nearest, store.Nearest scope name nearest :=
  ⟨_, Nat.isLeast_find ⟨distance, bound⟩⟩

section Rebinding

variable {target : ScopeId} {name : String} (value : Value)
  (bound : (store.local? target name).isSome)

include bound

theorem local?_define_of_bound (scope : ScopeId) (asked : String) :
    (store.define target name value).local? scope asked =
      if scope = target ∧ asked = name then some value else store.local? scope asked := by
  have reached : (store.getAt? target 0 name).isSome := bound
  have there := isSome_scope?_of_getAt? reached
  rw [local?_define]
  by_cases isTarget : scope = target
  · subst isTarget
    simp [there]
  · simp [isTarget]

theorem getAt?_define_of_bound (scope : ScopeId) (distance : Nat) (asked : String) :
    (store.define target name value).getAt? scope distance asked =
      if store.ancestor? scope distance = some target ∧ asked = name then some value
      else store.getAt? scope distance asked := by
  unfold Store.getAt?
  rw [ancestor?_congr (store.enclosing?_define target name value)]
  cases store.ancestor? scope distance with
  | none => simp
  | some reached => simp [local?_define_of_bound value bound]

/-- The same scopes bind the same names. -/
theorem isSome_getAt?_define (scope : ScopeId) (distance : Nat) (asked : String) :
    ((store.define target name value).getAt? scope distance asked).isSome =
      (store.getAt? scope distance asked).isSome := by
  rw [getAt?_define_of_bound value bound]
  split
  · rename_i isHere
    obtain ⟨leads, rfl⟩ := isHere
    rw [Store.getAt?, leads]
    exact bound.symm
  · rfl

theorem nearest_define_iff {scope : ScopeId} {asked : String} {distance : Nat} :
    (store.define target name value).Nearest scope asked distance ↔
      store.Nearest scope asked distance := by
  unfold Store.Nearest
  simp only [isSome_getAt?_define value bound]

theorem Forest.get?_define (forest : store.Forest) {scope : ScopeId} {asked : String}
    {distance : Nat} (nearest : store.Nearest scope asked distance) :
    (store.define target name value).get? scope asked =
      if store.ancestor? scope distance = some target ∧ asked = name then some value
      else store.get? scope asked := by
  have stillNearest := (nearest_define_iff value bound).mpr nearest
  rw [((forest.define target name value).walk_of_nearest stillNearest).1,
    (forest.walk_of_nearest nearest).1, getAt?_define_of_bound value bound]

theorem get?_define_of_unbound {scope : ScopeId} {asked : String}
    (unbound : ∀ distance, store.getAt? scope distance asked = none) :
    (store.define target name value).get? scope asked = none := by
  refine (walk_of_unbound fun distance => ?_).1
  rw [← Option.not_isSome_iff_eq_none, isSome_getAt?_define value bound, unbound]
  exact Bool.false_ne_true

/-- **A name that a scope binds may be bound anew there.** -/
theorem Forest.rebinds_define (forest : store.Forest) :
    store.Rebinds target name value (store.define target name value) where
  size := Array.size_modify
  enclosing? := store.enclosing?_define target name value
  local? := local?_define_of_bound value bound
  getAt? := getAt?_define_of_bound value bound
  found scope distance nearest leads := by
    rw [forest.get?_define value bound nearest, if_pos ⟨leads, rfl⟩]
  kept scope asked elsewhere := by
    by_cases isBound : ∃ distance, (store.getAt? scope distance asked).isSome
    · obtain ⟨_, isBound⟩ := isBound
      obtain ⟨distance, nearest⟩ := exists_nearest isBound
      rw [forest.get?_define value bound nearest,
        if_neg fun isHere => elsewhere distance nearest isHere.symm]
    · have unbound : ∀ distance, store.getAt? scope distance asked = none := by simpa using isBound
      rw [get?_define_of_unbound value bound unbound, (walk_of_unbound unbound).1]

end Rebinding

/-! ### Stores that are made -/

/-- The stores that can be made: scopes are opened in none or in one that is there, names are bound
in scopes that are there, and assigned by walking and by jumping. -/
inductive Grown : Store → Prop
  | empty : Grown .empty
  | root {store : Store} : Grown store → Grown (store.add none)
  | inside {store : Store} {outer : ScopeId} :
      Grown store → (store.scope? outer).isSome → Grown (store.add (some outer))
  | define {store : Store} {scope : ScopeId} (name : String) (value : Value) :
      Grown store → (store.scope? scope).isSome → Grown (store.define scope name value)
  | assign {store later : Store} {scope : ScopeId} {name : String} {value : Value} :
      Grown store → store.assign? scope name value = some later → Grown later
  | assignAt {store later : Store} {scope : ScopeId} {distance : Nat} {name : String}
      {value : Value} :
      Grown store → store.assignAt? scope distance name value = some later → Grown later

/-- **The scopes that are made are a forest.** -/
theorem Grown.forest (grown : store.Grown) : store.Forest := by
  induction grown with
  | empty => exact .empty
  | root _ ih => exact ih.add nofun
  | inside _ there ih => exact ih.add fun outer isOuter => Option.some.inj isOuter ▸ there
  | define _ _ _ _ ih => exact ih.define _ _ _
  | assign _ assigned ih =>
    obtain ⟨holder, -, rfl⟩ := Option.map_eq_some_iff.mp assigned
    exact ih.define _ _ _
  | assignAt _ assigned ih =>
    obtain ⟨target, -, rfl⟩ := Option.map_eq_some_iff.mp assigned
    exact ih.define _ _ _

end Store

/-! ### Variables that are nowhere bound -/

/-- Reading and assigning a global variable that is not bound is an error at its name,
and nothing else happens. -/
theorem Machine.undefined_of_unbound {machine : Machine} {node : NodeId} {name : Token}
    (isGlobal : machine.distances.get? node = none)
    (unbound : ∀ distance, machine.store.getAt? machine.globals distance name.lexeme = none)
    (value : Value) :
    Run.readVariable node name machine = .failed ⟨name, .undefinedVariable name.lexeme⟩ machine ∧
      Run.assignVariable node name value machine =
        .failed ⟨name, .undefinedVariable name.lexeme⟩ machine := by
  obtain ⟨unread, unheld⟩ := Store.walk_of_unbound unbound
  unfold Run.readVariable Run.assignVariable Machine.valueAt? Machine.targetOf?
  rw [isGlobal]
  dsimp only
  rw [unread, unheld]
  exact ⟨rfl, rfl⟩

/-- **Walking and jumping agree on every forest of scopes that can be made.** From each scope, if a
name is bound so far outward and not before, then reading it step by step is reading it there, and
assigning it step by step is assigning it there: only this binding changes, and exactly what leads
to it finds the new value. If the name is bound nowhere outward, reading and assigning both fail; as
global variables, at the name, with the machine as it was. Steps outward add up, and there are as
many of them as there are scopes around. -/
theorem walks_agree_with_jumps {store : Store} (grown : store.Grown) {scope : ScopeId}
    (there : (store.scope? scope).isSome) (name : Token) (value : Value) :
    (∀ distance, store.Nearest scope name.lexeme distance →
      store.get? scope name.lexeme = store.getAt? scope distance name.lexeme ∧
      ∃ target later, store.ancestor? scope distance = some target ∧
        store.assign? scope name.lexeme value = some later ∧
        store.assignAt? scope distance name.lexeme value = some later ∧
        store.Rebinds target name.lexeme value later) ∧
    ((∀ distance, store.getAt? scope distance name.lexeme = none) →
      store.get? scope name.lexeme = none ∧ store.assign? scope name.lexeme value = none ∧
      ∀ machine node, machine.store = store → machine.globals = scope →
      machine.distances.get? node = none →
        Run.readVariable node name machine =
          .failed ⟨name, .undefinedVariable name.lexeme⟩ machine ∧
        Run.assignVariable node name value machine =
          .failed ⟨name, .undefinedVariable name.lexeme⟩ machine) ∧
    (∀ first second, store.ancestor? scope (first + second) =
      (store.ancestor? scope first).bind fun middle => store.ancestor? middle second) ∧
    ∃ outward, store.Chain scope (scope :: outward) ∧
      ∀ distance, store.ancestor? scope distance = none ↔ outward.length < distance := by
  have forest := grown.forest
  refine ⟨fun distance nearest => ?_, fun unbound => ?_, store.ancestor?_add scope, ?_⟩
  · obtain ⟨reads, holds⟩ := forest.walk_of_nearest nearest
    obtain ⟨found, isFound⟩ := Option.isSome_iff_exists.mp nearest.1
    obtain ⟨target, leads, bound⟩ := Option.bind_eq_some_iff.mp isFound
    refine ⟨reads, target, store.define target name.lexeme value, leads, ?_, ?_,
      forest.rebinds_define value (by rw [bound]; rfl)⟩
    · rw [Store.assign?, holds, leads]
      rfl
    · rw [Store.assignAt?, leads]
      rfl
  · obtain ⟨unread, unheld⟩ := Store.walk_of_unbound unbound
    refine ⟨unread, by rw [Store.assign?, unheld]; rfl, ?_⟩
    rintro machine node rfl rfl isGlobal
    exact Machine.undefined_of_unbound isGlobal unbound value
  · obtain ⟨outward, chain⟩ := forest.exists_chain there
    refine ⟨outward, chain, fun distance => ?_⟩
    rw [chain.ancestor?, List.getElem?_eq_none_iff, List.length_cons]
    exact Nat.succ_le_iff

/-- Two scopes in the outermost one, of which the second binds a name of its own,
and a scope in the first. -/
def siblings : Store :=
  ((((((Store.empty.add none).define ⟨0⟩ "a" .nil).add (some ⟨0⟩)).add (some ⟨0⟩)).define ⟨2⟩ "a"
    (.string "own")).add (some ⟨1⟩))

/-- An assignment two scopes outward is seen from the scope in between, and not
where the name is bound anew. -/
theorem assigned_past_sibling :
    siblings.Nearest ⟨3⟩ "a" 2 ∧ ∃ later, siblings.assign? ⟨3⟩ "a" (.boolean true) = some later ∧
      siblings.assignAt? ⟨3⟩ 2 "a" (.boolean true) = some later ∧
      later.get? ⟨1⟩ "a" = some (.boolean true) ∧ later.get? ⟨2⟩ "a" = some (.string "own") := by
  have grown : siblings.Grown :=
    .inside (.define _ _ (.inside (.inside (.define _ _ (.root .empty) rfl) rfl) rfl) rfl) rfl
  have nearest : siblings.Nearest ⟨3⟩ "a" 2 := by
    refine ⟨rfl, fun distance bound => ?_⟩
    match distance, bound with
    | 0, bound | 1, bound => cases bound
    | distance + 2, _ => exact Nat.le_add_left 2 distance
  have there : (siblings.scope? ⟨3⟩).isSome := rfl
  obtain ⟨-, target, later, leads, assigned, assignedAt, rebinds⟩ :=
    (walks_agree_with_jumps grown there ⟨.identifier, "a", 1⟩ (.boolean true)).1 2 nearest
  obtain rfl : (⟨0⟩ : ScopeId) = target := Option.some.inj leads
  refine ⟨nearest, later, assigned, assignedAt,
    rebinds.found ⟨1⟩ 1 ⟨rfl, fun distance bound => ?_⟩ rfl, rebinds.kept ⟨2⟩ "a"
    fun distance isNearest isHere => ?_⟩
  · match distance, bound with
    | 0, bound => cases bound
    | distance + 1, _ => exact Nat.le_add_left 1 distance
  · obtain rfl : distance = 0 :=
      Nat.le_zero.mp (isNearest.2 (show (siblings.getAt? ⟨2⟩ 0 "a").isSome from rfl))
    cases isHere.2

end Lox
