/-
**Realms: the scopes that evaluation may use.**

* `Store.Reachable` — the scopes that can be got at from some scopes, going outward and into what
  functions capture.
* `Store.Opens` — a scope that a later store has and an earlier one has not.
* `Realm` — scopes that are known in a store. Its scopes are these, and all that
  are opened from then on.
* `Realm.Governs` — the realm has everything that its scopes lead to, and no scope outside of it was
  touched. Opening a scope within the realm and binding a name in one of its scopes keep that up
  (`governs_add`, `governs_define`).
* `Realm.Confines` — the outcome of a computation leads to a machine that the realm governs, and
  the values that come out of it are of the realm. The machines that the realm governs are a
  regime (`Realm.regime`).
-/

import Lox.Proofs.Evaluation.Regimes

namespace Lox

/-! ### Scopes that can be got at -/

/-- The scopes that can be got at from some scopes, going outward and into what is bound there. -/
inductive Store.Reachable (store : Store) (roots : ScopeId → Prop) : ScopeId → Prop
  | root {scope : ScopeId} : roots scope → Reachable store roots scope
  | outward {scope outer : ScopeId} :
      Reachable store roots scope → store.enclosing? scope = some outer →
      Reachable store roots outer
  | captured {scope inner : ScopeId} {name : String} {value : Value} :
      Reachable store roots scope → store.local? scope name = some value → value.Captures inner →
      Reachable store roots inner

/-- The scope is not there before, and is there later. -/
def Store.Opens (before later : Store) (scope : ScopeId) : Prop :=
  before.scope? scope = none ∧ (later.scope? scope).isSome

theorem Store.Opens.extend {before store later : Store} {scope : ScopeId}
    (opens : before.Opens store scope) (extension : store.Extends later) :
    before.Opens later scope :=
  ⟨opens.1, extension.isSome_scope? opens.2⟩

/-- A scope that was opened since a store was opened since every store that it extends. -/
theorem Store.Opens.since {before middle later : Store} {scope : ScopeId}
    (extension : before.Extends middle) (opens : middle.Opens later scope) :
    before.Opens later scope := by
  refine ⟨?_, opens.2⟩
  by_contra found
  have there := extension.isSome_scope? (Option.isSome_iff_ne_none.mpr found)
  rw [opens.1] at there
  cases there

theorem Store.opens_add (store : Store) (enclosing : Option ScopeId) :
    store.Opens (store.add enclosing) store.nextId := by
  refine ⟨store.scope?_nextId, ?_⟩
  rw [scope?_add, if_pos rfl]
  rfl

/-- Binding a name neither makes a scope nor loses one. -/
theorem Store.isSome_scope?_define (store : Store) (target : ScopeId) (name : String)
    (value : Value) (scope : ScopeId) :
    ((store.define target name value).scope? scope).isSome = (store.scope? scope).isSome := by
  rw [scope?_define]
  split
  · exact Option.isSome_map
  · rfl

/-! ### Realms -/

/-- The scopes that are known in a store. -/
structure Realm where
  base : Store
  known : ScopeId → Prop

namespace Realm

/-- The scope is one of those known, or was opened since. -/
def Has (realm : Realm) (store : Store) (scope : ScopeId) : Prop :=
  realm.known scope ∨ realm.base.Opens store scope

/-- What the value captures is of the realm. -/
def Admits (realm : Realm) (store : Store) (value : Value) : Prop :=
  ∀ scope, value.Captures scope → realm.Has store scope

/-- The scopes of the realm lead to no others, and the others are as they were. -/
structure Governs (realm : Realm) (store : Store) : Prop where
  extension : realm.base.Extends store
  outward : ∀ scope outer, realm.Has store scope → store.enclosing? scope = some outer →
    realm.Has store outer
  stored : ∀ scope name value, realm.Has store scope → store.local? scope name = some value →
    realm.Admits store value
  untouched : ∀ scope, (realm.base.scope? scope).isSome → ¬ realm.known scope →
    store.scope? scope = realm.base.scope? scope

variable {realm : Realm} {store later : Store}

theorem Has.extend {scope : ScopeId} (has : realm.Has store scope)
    (extension : store.Extends later) :
    realm.Has later scope := by
  rcases has with known | opens
  · exact .inl known
  · exact .inr (opens.extend extension)

theorem Admits.extend {value : Value} (admits : realm.Admits store value)
    (extension : store.Extends later) :
    realm.Admits later value :=
  fun scope captures => (admits scope captures).extend extension

/-- A constant captures nothing. -/
theorem Admits.of_constant {value : Value} (isConstant : value.IsConstant) :
    realm.Admits store value :=
  fun scope captures => absurd captures (isConstant.not_captures scope)

/-- A function captures the scope that it is made in. -/
theorem Admits.of_made {closure : Closure} (has : realm.Has store closure.scope) :
    realm.Admits store (.function closure) := by
  rintro scope ⟨⟩
  exact has

/-- **Binding a name in a scope of the realm to a value of the realm.** -/
theorem Governs.define (governs : realm.Governs store) {target : ScopeId} {name : String}
    {value : Value} (has : realm.Has store target) (admits : realm.Admits store value) :
    realm.Governs (store.define target name value) := by
  have extension := Store.extends_define store target name value
  have before : ∀ scope, realm.Has (store.define target name value) scope →
      realm.Has store scope := by
    rintro scope (known | ⟨absent, there⟩)
    · exact .inl known
    · exact .inr ⟨absent, by rwa [Store.isSome_scope?_define] at there⟩
  refine ⟨governs.extension.trans extension, fun scope outer inRealm enclosing => ?_,
    fun scope asked result inRealm bound => ?_, fun scope isOld unknown => ?_⟩
  · rw [Store.enclosing?_define] at enclosing
    exact (governs.outward scope outer (before scope inRealm) enclosing).extend extension
  · rw [Store.local?_define] at bound
    split at bound
    · obtain rfl := Option.some.inj bound
      exact admits.extend extension
    · exact (governs.stored scope asked result (before scope inRealm) bound).extend extension
  · have isOther : scope ≠ target := by
      rintro rfl
      rcases has with known | opens
      · exact unknown known
      · rw [opens.1] at isOld
        cases isOld
    rw [Store.scope?_define, if_neg isOther]
    exact governs.untouched scope isOld unknown

/-- **Opening a scope in a scope of the realm.** -/
theorem Governs.add (governs : realm.Governs store) {enclosing : ScopeId}
    (has : realm.Has store enclosing) :
    realm.Governs (store.add (some enclosing)) := by
  have extension := Store.extends_add store (some enclosing)
  have before : ∀ scope, scope ≠ store.nextId → realm.Has (store.add (some enclosing)) scope →
      realm.Has store scope := by
    rintro scope isOld (known | ⟨absent, there⟩)
    · exact .inl known
    · exact .inr ⟨absent, by rwa [Store.scope?_add, if_neg isOld] at there⟩
  refine ⟨governs.extension.trans extension, fun scope outer inRealm leads => ?_,
    fun scope asked result inRealm bound => ?_, fun scope isOld unknown => ?_⟩
  · rw [Store.enclosing?_add] at leads
    split at leads
    · obtain rfl := Option.some.inj leads
      exact has.extend extension
    · rename_i isOld
      exact (governs.outward scope outer (before scope isOld inRealm) leads).extend extension
  · rw [Store.local?_add] at bound
    split at bound
    · cases bound
    · rename_i isOld
      exact (governs.stored scope asked result (before scope isOld inRealm) bound).extend extension
  · have isOther : scope ≠ store.nextId := by
      rintro rfl
      have there := governs.extension.isSome_scope? isOld
      rw [store.scope?_nextId] at there
      cases there
    rw [Store.scope?_add, if_neg isOther]
    exact governs.untouched scope isOld unknown

/-- The scope that is opened next is of the realm. -/
theorem Governs.has_nextId (governs : realm.Governs store) (enclosing : Option ScopeId) :
    realm.Has (store.add enclosing) store.nextId :=
  .inr (.since governs.extension (store.opens_add enclosing))

theorem Governs.defineAll (governs : realm.Governs store) {target : ScopeId}
    {bindings : List (String × Value)} (has : realm.Has store target)
    (admits : ∀ binding ∈ bindings, realm.Admits store binding.2) :
    realm.Governs (store.defineAll target bindings) := by
  unfold Store.defineAll
  induction bindings generalizing store with
  | nil => exact governs
  | cons binding rest ih =>
    have extension := Store.extends_define store target binding.1 binding.2
    refine ih (governs.define has (admits binding List.mem_cons_self)) (has.extend extension) ?_
    exact fun other isOther => (admits other (List.mem_cons_of_mem _ isOther)).extend extension

/-! ### Walking outward -/

/-- The holder of a name, going outward from a scope of the realm, is of the realm. -/
theorem Governs.has_holderWithin (governs : realm.Governs store) {name : String} {steps : Nat}
    {scope holder : ScopeId} (has : realm.Has store scope)
    (found : store.holderWithin name steps scope = some holder) : realm.Has store holder := by
  induction steps generalizing scope with
  | zero => cases found
  | succ steps ih =>
    unfold Store.holderWithin at found
    split at found
    · obtain rfl := Option.some.inj found
      exact has
    · obtain ⟨outer, enclosing, found⟩ := Option.bind_eq_some_iff.mp found
      exact ih (governs.outward scope outer has enclosing) found

theorem Governs.has_ancestor? (governs : realm.Governs store) {distance : Nat}
    {scope target : ScopeId} (has : realm.Has store scope)
    (found : store.ancestor? scope distance = some target) :
    realm.Has store target := by
  induction distance generalizing scope with
  | zero =>
    obtain rfl := Option.some.inj found
    exact has
  | succ distance ih =>
    obtain ⟨outer, enclosing, found⟩ := Option.bind_eq_some_iff.mp found
    exact ih (governs.outward scope outer has enclosing) found

theorem Governs.admits_getWithin (governs : realm.Governs store) {name : String} {steps : Nat}
    {scope : ScopeId} {value : Value} (has : realm.Has store scope)
    (found : store.getWithin name steps scope = some value) : realm.Admits store value := by
  induction steps generalizing scope with
  | zero => cases found
  | succ steps ih =>
    unfold Store.getWithin at found
    cases bound : store.local? scope name with
    | some here =>
      rw [bound] at found
      obtain rfl := Option.some.inj found
      exact governs.stored scope name here has bound
    | none =>
      rw [bound] at found
      obtain ⟨outer, enclosing, found⟩ := Option.bind_eq_some_iff.mp found
      exact ih (governs.outward scope outer has enclosing) found

end Realm

/-! ### Machines in a realm -/

/-- The realm governs the store of a machine, and has its global scope. -/
structure Machine.Obeys (machine : Machine) (realm : Realm) : Prop where
  governs : realm.Governs machine.store
  globals : realm.Has machine.store machine.globals

/-- A later machine in the same scope, which obeys as well. -/
structure Machine.Leads (realm : Realm) (machine later : Machine) : Prop where
  obeys : later.Obeys realm
  store : machine.store.Extends later.store
  scope : later.scope = machine.scope
  globals : later.globals = machine.globals

namespace Machine

variable {realm : Realm} {machine middle later : Machine}

theorem Leads.refl (obeys : machine.Obeys realm) : machine.Leads realm machine :=
  ⟨obeys, .refl _, rfl, rfl⟩

theorem Leads.trans (first : machine.Leads realm middle) (second : middle.Leads realm later) :
    machine.Leads realm later :=
  ⟨second.obeys, first.store.trans second.store, second.scope.trans first.scope,
    second.globals.trans first.globals⟩

theorem Leads.admits (leads : machine.Leads realm later) {value : Value}
    (admits : realm.Admits machine.store value) : realm.Admits later.store value :=
  admits.extend leads.store

/-- Binding a name leads to a machine that obeys. -/
theorem Obeys.leads_define (obeys : machine.Obeys realm) {target : ScopeId} {name : String}
    {value : Value} (has : realm.Has machine.store target)
    (admits : realm.Admits machine.store value) :
    machine.Leads realm (machine.define target name value) :=
  ⟨⟨obeys.governs.define has admits, obeys.globals.extend (Store.extends_define _ _ _ _)⟩,
    Store.extends_define _ _ _ _, rfl, rfl⟩

/-- Changing anything but the store and the scopes changes nothing for the realm. -/
theorem Obeys.leads_of_same (obeys : machine.Obeys realm) (store : later.store = machine.store)
    (scope : later.scope = machine.scope) (globals : later.globals = machine.globals) :
    machine.Leads realm later := by
  refine ⟨⟨?_, ?_⟩, ?_, scope, globals⟩
  · rw [store]
    exact obeys.governs
  · rw [store, globals]
    exact obeys.globals
  · rw [store]
    exact .refl _

theorem Obeys.admits_valueAt? (obeys : machine.Obeys realm)
    (has : realm.Has machine.store machine.scope) {node : NodeId} {name : String} {value : Value}
    (found : machine.valueAt? node name = some value) :
    realm.Admits machine.store value := by
  unfold valueAt? at found
  split at found
  · obtain ⟨target, isTarget, bound⟩ := Option.bind_eq_some_iff.mp found
    exact obeys.governs.stored target name value (obeys.governs.has_ancestor? has isTarget) bound
  · exact obeys.governs.admits_getWithin obeys.globals found

theorem Obeys.has_targetOf? (obeys : machine.Obeys realm)
    (has : realm.Has machine.store machine.scope) {node : NodeId} {name : String} {target : ScopeId}
    (found : machine.targetOf? node name = some target) :
    realm.Has machine.store target := by
  unfold targetOf? at found
  split at found
  · exact obeys.governs.has_ancestor? has found
  · exact obeys.governs.has_holderWithin obeys.globals found

/-! ### Blocks and bodies -/

theorem Obeys.inBlock (obeys : machine.Obeys realm) (has : realm.Has machine.store machine.scope) :
    machine.inBlock.Obeys realm ∧ realm.Has machine.inBlock.store machine.inBlock.scope :=
  ⟨⟨obeys.governs.add has, obeys.globals.extend (Store.extends_add _ _)⟩,
    obeys.governs.has_nextId _⟩

/-- A body is run in a scope of the realm, whatever scope the call comes from. -/
theorem Obeys.inBody (obeys : machine.Obeys realm) {closure : Closure} {arguments : List Value}
    (has : realm.Has machine.store closure.scope)
    (admits : ∀ value ∈ arguments, realm.Admits machine.store value) :
    (machine.inBody closure arguments).Obeys realm ∧
      realm.Has (machine.inBody closure arguments).store
        (machine.inBody closure arguments).scope := by
  have added := Store.extends_add machine.store (some closure.scope)
  have defined := Store.extends_defineAll (machine.store.add (some closure.scope))
    machine.store.nextId ((closure.body.parameters.map Token.lexeme).zip arguments)
  have isNew := obeys.governs.has_nextId (some closure.scope)
  refine ⟨⟨(obeys.governs.add has).defineAll isNew fun binding isBinding => ?_,
    obeys.globals.extend (added.trans defined)⟩, isNew.extend defined⟩
  exact (admits binding.2 (List.of_mem_zip isBinding).2).extend added

theorem extends_inBody (machine : Machine) (closure : Closure) (arguments : List Value) :
    machine.store.Extends (machine.inBody closure arguments).store :=
  (Store.extends_add _ _).trans (Store.extends_defineAll _ _ _)

theorem Leads.backTo (leads : machine.inBlock.Leads realm later) :
    machine.Leads realm (machine.backTo later) :=
  ⟨⟨leads.obeys.governs, leads.obeys.globals⟩, (Store.extends_add _ _).trans leads.store,
    rfl, leads.globals⟩

theorem Leads.backFrom {closure : Closure} {arguments : List Value}
    (leads : (machine.inBody closure arguments).Leads realm later) :
    machine.Leads realm (machine.backFrom later) :=
  ⟨⟨leads.obeys.governs, leads.obeys.globals⟩, (extends_inBody _ _ _).trans leads.store,
    rfl, leads.globals⟩

end Machine

/-! ### Outcomes in a realm -/

/-- The outcome leads to a machine that obeys, and its values are of the realm. -/
def Realm.Confines (realm : Realm) (machine : Machine) :
    Outcome Machine RuntimeError (List Value) → Prop
  | .done values later =>
    machine.Leads realm later ∧ ∀ value ∈ values, realm.Admits later.store value
  | .failed _ later => machine.Leads realm later
  | .outOfFuel => True

/-- The machines that obey, with the scopes of the realm. -/
def Realm.regime (realm : Realm) : Regime where
  holds machine := machine.Obeys realm
  has := realm.Has
  admits machine := realm.Admits machine.store
  leads machine later := machine.Leads realm later
  refl := .refl
  trans := .trans
  holds_of_leads leads := leads.obeys
  has_of_leads leads has := has.extend leads.store
  admits_of_leads leads := leads.admits
  admits_of_same admits store _ := store ▸ admits
  admits_constant := .of_constant
  scope_of_leads leads := leads.scope
  leads_of_same obeys store scope globals _ := obeys.leads_of_same store scope globals
  makeFunction _ _ obeys has := ⟨obeys.leads_of_same rfl rfl rfl, .of_made has⟩
  leads_define obeys := obeys.leads_define
  admits_valueAt? obeys has := obeys.admits_valueAt? has
  has_of_targetOf? obeys has found := obeys.has_targetOf? has found
  inBlock obeys has := obeys.inBlock has
  leads_backTo _ leads := leads.backTo
  inBody obeys calleeAdmits := obeys.inBody (calleeAdmits _ .function)
  leads_backFrom _ leads := leads.backFrom

theorem Realm.confines_iff (realm : Realm) (machine : Machine)
    (outcome : Outcome Machine RuntimeError (List Value)) :
    realm.Confines machine outcome ↔ realm.regime.Confines machine outcome := by
  cases outcome <;> exact Iff.rfl

end Lox
