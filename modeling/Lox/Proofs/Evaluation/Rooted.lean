/-
**Every scope stands in the global one.**

* `Store.Rooted` — a scope that stands in another one was opened after it, only the global scope
  stands in no other, and functions capture scopes that are there. So from each scope there is a
  chain that ends with the global one (`Rooted.exists_chain`).
* `Machine.Rooted` — moreover the current scope is there.
* `Machine.Grows` — a later machine that is rooted in the same global scope, and has
  lost no scope and no name.
* `Machine.growing` — evaluation makes machines grow. Opening a scope in one that is there and
  binding a name do, and nothing else changes a store.
* `Machine.Becomes` — a machine after any text was run for a while, or to an end,
  with whatever distances.
-/

import Lox.Proofs.Evaluation.Forests
import Lox.Proofs.Evaluation.Realms

namespace Lox

/-! ### Rooted stores -/

/-- Each scope but the global one stands in one that was opened before, and functions
capture scopes that are there. -/
structure Store.Rooted (store : Store) (globals : ScopeId) : Prop where
  forest : store.Forest
  /-- The global scope stands in no other one, -/
  outermost : ∃ bindings, store.scope? globals = some ⟨bindings, none⟩
  /-- and is the only one that does not. -/
  root : ∀ scope, (store.scope? scope).isSome → store.enclosing? scope = none → scope = globals
  captured : ∀ scope name value inner, store.local? scope name = some value → value.Captures inner →
    (store.scope? inner).isSome

namespace Store

variable {store : Store} {globals : ScopeId}

/-- A scope that binds a name is there. -/
theorem isSome_of_local? {scope : ScopeId} {name : String} {value : Value}
    (bound : store.local? scope name = some value) : (store.scope? scope).isSome := by
  obtain ⟨found, isFound, -⟩ := Option.bind_eq_some_iff.mp bound
  rw [isFound]
  rfl

/-- What holds a name, walking outward, is there. -/
theorem isSome_of_holderWithin {name : String} {steps : Nat} {scope holder : ScopeId}
    (found : store.holderWithin name steps scope = some holder) : (store.scope? holder).isSome := by
  induction steps generalizing scope with
  | zero => cases found
  | succ steps ih =>
    unfold holderWithin at found
    split at found
    · rename_i bound
      obtain rfl := Option.some.inj found
      obtain ⟨value, bound⟩ := Option.isSome_iff_exists.mp bound
      exact isSome_of_local? bound
    · obtain ⟨outer, -, found⟩ := Option.bind_eq_some_iff.mp found
      exact ih found

/-- Where links lead to scopes that are there, so do any number of steps outward. -/
theorem Forest.isSome_ancestor? (forest : store.Forest) {distance : Nat} {scope target : ScopeId}
    (there : (store.scope? scope).isSome) (leads : store.ancestor? scope distance = some target) :
    (store.scope? target).isSome := by
  induction distance generalizing scope with
  | zero =>
    obtain rfl := Option.some.inj leads
    exact there
  | succ distance ih =>
    obtain ⟨outer, inside, leads⟩ := Option.bind_eq_some_iff.mp leads
    exact ih (forest.isSome_outer inside) leads

namespace Rooted

theorem isSome_globals (rooted : store.Rooted globals) : (store.scope? globals).isSome := by
  obtain ⟨bindings, found⟩ := rooted.outermost
  rw [found]
  rfl

/-- Only the global scope stands in no other one. -/
theorem enclosing?_eq_none_iff (rooted : store.Rooted globals) {scope : ScopeId}
    (there : (store.scope? scope).isSome) : store.enclosing? scope = none ↔ scope = globals := by
  refine ⟨rooted.root scope there, ?_⟩
  rintro rfl
  obtain ⟨bindings, found⟩ := rooted.outermost
  unfold Store.enclosing?
  rw [found]
  rfl

/-- Opening a scope in one that is there. -/
theorem add (rooted : store.Rooted globals) {outer : ScopeId}
    (there : (store.scope? outer).isSome) :
    (store.add (some outer)).Rooted globals := by
  have extension := extends_add store (some outer)
  have isOld : globals ≠ store.nextId := by
    rintro rfl
    have found := rooted.isSome_globals
    rw [scope?_nextId] at found
    cases found
  refine ⟨rooted.forest.add fun _ same => Option.some.inj same ▸ there, ?_,
    fun scope found isRoot => ?_, fun scope name value inner bound captures => ?_⟩
  · obtain ⟨bindings, found⟩ := rooted.outermost
    exact ⟨bindings, by rw [scope?_add, if_neg isOld, found]⟩
  · rw [enclosing?_add] at isRoot
    split at isRoot
    · cases isRoot
    · rename_i isBefore
      rw [scope?_add, if_neg isBefore] at found
      exact rooted.root scope found isRoot
  · rw [local?_add] at bound
    split at bound
    · cases bound
    · exact extension.isSome_scope? (rooted.captured scope name value inner bound captures)

/-- Binding a name, wherever, to a value that captures only scopes that are there. -/
theorem define (rooted : store.Rooted globals) (target : ScopeId) (name : String) {value : Value}
    (there : ∀ inner, value.Captures inner → (store.scope? inner).isSome) :
    (store.define target name value).Rooted globals := by
  have extension := extends_define store target name value
  refine ⟨rooted.forest.define target name value, ?_, fun scope found isRoot => ?_,
    fun scope asked result inner bound captures => ?_⟩
  · obtain ⟨bindings, found⟩ := rooted.outermost
    obtain ⟨⟨now, enclosing⟩, isNow, same, -⟩ := extension globals _ found
    obtain rfl : enclosing = none := same
    exact ⟨now, isNow⟩
  · rw [isSome_scope?_define] at found
    rw [enclosing?_define] at isRoot
    exact rooted.root scope found isRoot
  · rw [local?_define] at bound
    refine extension.isSome_scope? ?_
    split at bound
    · obtain rfl := Option.some.inj bound
      exact there inner captures
    · exact rooted.captured scope asked result inner bound captures

theorem defineAll (rooted : store.Rooted globals) (target : ScopeId)
    {bindings : List (String × Value)}
    (there : ∀ binding ∈ bindings, ∀ inner, binding.2.Captures inner →
      (store.scope? inner).isSome) :
    (store.defineAll target bindings).Rooted globals := by
  unfold Store.defineAll
  induction bindings generalizing store with
  | nil => exact rooted
  | cons binding rest ih =>
    have extension := extends_define store target binding.1 binding.2
    refine ih (rooted.define target binding.1 (there binding List.mem_cons_self)) ?_
    intro other isOther inner captures
    exact extension.isSome_scope? (there other (List.mem_cons_of_mem _ isOther) inner captures)

/-- A chain ends with the global scope. -/
theorem chain_ends (rooted : store.Rooted globals) {scope : ScopeId} {scopes : List ScopeId}
    (chain : store.Chain scope scopes) : ∃ inner, scopes = inner ++ [globals] := by
  induction chain with
  | @last scope bindings found =>
    have isRoot : store.enclosing? scope = none := by
      unfold Store.enclosing?
      rw [found]
      rfl
    exact ⟨[], congrArg ([·]) (rooted.root scope (by rw [found]; rfl) isRoot)⟩
  | @inside scope outer rest _ _ ih =>
    obtain ⟨inner, rfl⟩ := ih
    exact ⟨scope :: inner, rfl⟩

/-- **From each scope there is a chain to the global one, and no scope comes twice in it.** -/
theorem exists_chain (rooted : store.Rooted globals) {scope : ScopeId}
    (there : (store.scope? scope).isSome) :
    ∃ inner, store.Chain scope (inner ++ [globals]) ∧ (inner ++ [globals]).Nodup := by
  obtain ⟨outward, chain⟩ := rooted.forest.exists_chain there
  obtain ⟨inner, same⟩ := rooted.chain_ends chain
  exact ⟨inner, same ▸ chain, same ▸ (chain.nodup rooted.forest).1⟩

end Rooted

end Store

/-! ### Rooted machines -/

namespace Machine

/-- All scopes stand in the global one, and the current one is among them. -/
structure Rooted (machine : Machine) : Prop where
  store : machine.store.Rooted machine.globals
  scope : (machine.store.scope? machine.scope).isSome

/-- A later machine, with the same global scope. No scope is lost or moved, and no name is
unbound. -/
structure Grows (machine later : Machine) : Prop where
  rooted : later.Rooted
  store : machine.store.Extends later.store
  globals : later.globals = machine.globals

variable {machine middle later : Machine}

theorem Grows.refl (rooted : machine.Rooted) : machine.Grows machine :=
  ⟨rooted, .refl _, rfl⟩

theorem Grows.trans (first : machine.Grows middle) (second : middle.Grows later) :
    machine.Grows later :=
  ⟨second.rooted, first.store.trans second.store, second.globals.trans first.globals⟩

namespace Rooted

theorem grows_of_same (rooted : machine.Rooted) (store : later.store = machine.store)
    (scope : later.scope = machine.scope) (globals : later.globals = machine.globals) :
    machine.Grows later := by
  refine ⟨⟨?_, ?_⟩, ?_, globals⟩
  · rw [store, globals]
    exact rooted.store
  · rw [store, scope]
    exact rooted.scope
  · rw [store]
    exact .refl _

theorem grows_define (rooted : machine.Rooted) (target : ScopeId) (name : String) {value : Value}
    (there : ∀ inner, value.Captures inner → (machine.store.scope? inner).isSome) :
    machine.Grows (machine.define target name value) := by
  have extension := Store.extends_define machine.store target name value
  exact ⟨⟨rooted.store.define target name there, extension.isSome_scope? rooted.scope⟩,
    extension, rfl⟩

theorem grows_inBlock (rooted : machine.Rooted) : machine.Grows machine.inBlock :=
  ⟨⟨rooted.store.add rooted.scope, (machine.store.opens_add _).2⟩, Store.extends_add _ _, rfl⟩

/-- The body of a function stands in the scope that the function captures. -/
theorem grows_inBody (rooted : machine.Rooted) {closure : Closure} {arguments : List Value}
    (there : (machine.store.scope? closure.scope).isSome)
    (argumentsThere : ∀ value ∈ arguments, ∀ inner, value.Captures inner →
      (machine.store.scope? inner).isSome) :
    machine.Grows (machine.inBody closure arguments) := by
  have added := Store.extends_add machine.store (some closure.scope)
  have defined := Store.extends_defineAll (machine.store.add (some closure.scope))
    machine.store.nextId ((closure.body.parameters.map Token.lexeme).zip arguments)
  refine ⟨⟨(rooted.store.add there).defineAll machine.store.nextId
    fun binding isBinding inner captures => ?_, ?_⟩, added.trans defined, rfl⟩
  · exact added.isSome_scope?
      (argumentsThere binding.2 (List.of_mem_zip isBinding).2 inner captures)
  · exact defined.isSome_scope? (machine.store.opens_add _).2

/-- Coming back, from a scope inside, into the one before. -/
theorem grows_back (rooted : machine.Rooted) {inside : Machine} (grows : inside.Grows later)
    (extension : machine.store.Extends inside.store) (globals : inside.globals = machine.globals)
    (depth : Nat) :
    machine.Grows { later with scope := machine.scope, depth := depth } :=
  have both := extension.trans grows.store
  ⟨⟨grows.rooted.store, both.isSome_scope? rooted.scope⟩, both, grows.globals.trans globals⟩

/-- What a variable holds captures scopes that are there. -/
theorem captured_valueAt? (rooted : machine.Rooted) {node : NodeId} {name : String} {value : Value}
    {inner : ScopeId} (found : machine.valueAt? node name = some value)
    (captures : value.Captures inner) :
    (machine.store.scope? inner).isSome := by
  obtain ⟨holder, bound⟩ := local?_of_valueAt? found
  exact rooted.store.captured holder name value inner bound captures

theorem isSome_targetOf? (rooted : machine.Rooted) {node : NodeId} {name : String}
    {target : ScopeId} (found : machine.targetOf? node name = some target) :
    (machine.store.scope? target).isSome := by
  unfold targetOf? at found
  split at found
  · exact rooted.store.forest.isSome_ancestor? rooted.scope found
  · exact Store.isSome_of_holderWithin found

end Rooted

/-- **Evaluation keeps machines rooted, and loses nothing.** It uses only scopes that are there. -/
def growing (base : Machine) : Regime where
  holds := base.Grows
  has store scope := (store.scope? scope).isSome
  admits machine value := ∀ inner, value.Captures inner → (machine.store.scope? inner).isSome
  leads machine later := base.Grows machine ∧ machine.Grows later ∧ later.scope = machine.scope
  refl grown := ⟨grown, .refl grown.rooted, rfl⟩
  trans first second := ⟨first.1, first.2.1.trans second.2.1, second.2.2.trans first.2.2⟩
  holds_of_leads leads := leads.1.trans leads.2.1
  has_of_leads leads := leads.2.1.store.isSome_scope?
  admits_of_leads leads there inner captures := leads.2.1.store.isSome_scope? (there inner captures)
  admits_of_same there store _ := store ▸ there
  admits_constant isConstant inner captures := absurd captures (isConstant.not_captures inner)
  scope_of_leads leads := leads.2.2
  leads_of_same grown store scope globals _ :=
    ⟨grown, grown.rooted.grows_of_same store scope globals, scope⟩
  makeFunction _ _ grown there :=
    ⟨⟨grown, grown.rooted.grows_of_same rfl rfl rfl, rfl⟩, fun | _, .function => there⟩
  leads_define grown _ there := ⟨grown, grown.rooted.grows_define _ _ there, rfl⟩
  admits_valueAt? grown _ found _ := grown.rooted.captured_valueAt? found
  has_of_targetOf? grown _ := grown.rooted.isSome_targetOf?
  inBlock grown _ :=
    ⟨grown.trans grown.rooted.grows_inBlock, grown.rooted.grows_inBlock.rooted.scope⟩
  leads_backTo grown leads :=
    ⟨grown, grown.rooted.grows_back leads.2.1 (Store.extends_add _ _) rfl _, rfl⟩
  inBody grown there argumentsThere :=
    have grows := grown.rooted.grows_inBody (there _ .function) argumentsThere
    ⟨grown.trans grows, grows.rooted.scope⟩
  leads_backFrom grown leads :=
    ⟨grown, grown.rooted.grows_back leads.2.1 (extends_inBody _ _ _) rfl _, rfl⟩

/-- Only the scope of the global variables is there before the first program. -/
theorem rooted_start (clock : Nat → Float) : (start clock).Rooted := by
  have only : ∀ scope, ((Store.empty.add none).scope? scope).isSome → scope = ⟨0⟩ := by
    intro scope found
    rw [Store.scope?_add] at found
    split at found
    · assumption
    · simp [Store.scope?, Store.empty] at found
  have root : (Store.empty.add none).Rooted ⟨0⟩ := by
    refine ⟨Store.Forest.empty.add nofun, ⟨[], rfl⟩, fun scope found _ => only scope found,
      fun scope name value inner bound _ => ?_⟩
    rw [Store.local?_add] at bound
    split at bound
    · cases bound
    · simp [Store.local?, Store.scope?, Store.empty] at bound
  refine ⟨root.defineAll ⟨0⟩ fun binding isNative inner captures => ?_, rfl⟩
  obtain ⟨known, -, rfl⟩ := List.mem_map.mp isNative
  cases captures

/-! ### Machines that can be come to -/

end Machine

/-- The errand is a text, or a part of one, and starts from the current scope. -/
def Errand.IsText (errand : Errand) : Prop :=
  ∀ machine scope, errand.Root machine scope → scope = machine.scope

theorem Errand.isText_expression (value : Expr) : Errand.IsText (.expression value) :=
  fun _ _ => id

theorem Errand.isText_program (forms : List Stmt) : Errand.IsText (.program forms) :=
  fun _ _ => id

namespace Machine

/-- A machine that another one may become: any text is run, for a while, to its end, or to an error;
the known distances may be replaced by any others, right or wrong; a global variable may be set to a
value that is not from elsewhere; and anything may happen to the output. -/
inductive Becomes (machine : Machine) : Machine → Prop
  | reaches {fuel : Nat} {errand : Errand} {moment : Moment} :
      errand.IsText → Reaches ⟨fuel, errand, machine⟩ moment → Becomes machine moment.machine
  | ends {fuel : Nat} {errand : Errand} {later : Machine} :
      errand.IsText → (Moment.outcome ⟨fuel, errand, machine⟩).state? = some later →
      Becomes machine later
  | distances (distances : Distances) : Becomes machine { machine with distances := distances }
  | global (name : String) {value : Value} :
      (∀ inner, value.Captures inner → (machine.store.scope? inner).isSome) →
      Becomes machine (machine.define machine.globals name value)
  | sink (sink : Sink) : Becomes machine { machine with sink := sink }
  | output : Becomes machine machine.withoutOutput

variable {machine later : Machine}

/-- A text may be run in a rooted machine. -/
theorem Rooted.governs (rooted : machine.Rooted) {errand : Errand} (isText : errand.IsText)
    (fuel : Nat) :
    machine.growing.Governs ⟨fuel, errand, machine⟩ :=
  have roots := Errand.forall_root_iff.mp
    fun scope isRoot => isText machine scope isRoot ▸ rooted.scope
  ⟨.refl rooted, roots.1, roots.2⟩

/-- Whatever a run comes to uses scopes that are there, and what it yields captures such ones. -/
theorem Rooted.captured_of_reaches (rooted : machine.Rooted) {errand : Errand}
    (isText : errand.IsText) {fuel : Nat} {moment : Moment}
    (reaches : Reaches ⟨fuel, errand, machine⟩ moment) :
    (∀ scope, moment.errand.Root moment.machine scope →
      (moment.machine.store.scope? scope).isSome) ∧
      ∀ values later, moment.outcome = .done values later →
        ∀ value ∈ values, ∀ inner, value.Captures inner → (later.store.scope? inner).isSome := by
  have governs := Regime.governs_of_reaches reaches (rooted.governs isText fuel)
  refine ⟨Errand.forall_root_iff.mpr ⟨governs.here, governs.given⟩, fun values later ended => ?_⟩
  have outcome := Regime.confined moment governs
  unfold Regime.Confined at outcome
  rw [ended] at outcome
  exact outcome.2

/-- **What a rooted machine becomes is rooted, and has lost nothing.** -/
theorem Rooted.becomes (rooted : machine.Rooted) (becomes : machine.Becomes later) :
    machine.Grows later := by
  cases becomes with
  | reaches isText reaches =>
    exact (Regime.governs_of_reaches reaches (rooted.governs isText _)).holds
  | ends isText left => exact (Regime.leads_of_outcome (rooted.governs isText _) left).2.1
  | distances | sink | output => exact rooted.grows_of_same rfl rfl rfl
  | global name there => exact rooted.grows_define _ name there

theorem Rooted.becomesAll (rooted : machine.Rooted)
    (becomes : Relation.ReflTransGen Becomes machine later) :
    machine.Grows later := by
  induction becomes with
  | refl => exact .refl rooted
  | tail _ becomes ih => exact ih.trans (ih.rooted.becomes becomes)

end Machine

end Lox
