/-
**Evaluation touches only what it can get at.**

* `Moment.realm` — the realm of all that can be got at from what the errand of a moment starts from.
* `Moment.Belongs` — the realm governs the machine of a moment and has all that its errand starts
  from.
* `confined`, `belongs_of_reaches` — where a moment belongs to a realm, its outcome is confined to
  it, and so do all moments that it reaches.
* `touches_only_reachable` — all that comes out of a moment is confined to the realm of that moment.
-/

import Lox.Proofs.Evaluation.Demands
import Lox.Proofs.Evaluation.Realms

namespace Lox

/-! ### Moments and their realms -/

/-- The scopes that a moment starts from. -/
def Moment.Root (moment : Moment) (scope : ScopeId) : Prop :=
  scope = moment.machine.globals ∨ moment.errand.Root moment.machine scope

/-- The scopes that can be got at at a moment. -/
def Moment.realm (moment : Moment) : Realm :=
  ⟨moment.machine.store, moment.machine.store.Reachable moment.Root⟩

/-- The realm governs the machine of a moment and has all that its errand starts from. -/
structure Moment.Belongs (realm : Realm) (moment : Moment) : Prop where
  obeys : moment.machine.Obeys realm
  errand : ∀ scope, moment.errand.Root moment.machine scope → realm.Has moment.machine.store scope

/-- The outcome of a moment is confined to a realm. -/
def Moment.Confined (realm : Realm) (moment : Moment) : Prop :=
  realm.Confines moment.machine moment.outcome

/-- A moment belongs to its own realm. -/
theorem Moment.belongs_realm (moment : Moment) : moment.Belongs moment.realm := by
  have known : ∀ scope, moment.realm.Has moment.machine.store scope →
      moment.machine.store.Reachable moment.Root scope := by
    rintro scope (known | ⟨absent, there⟩)
    · exact known
    · rw [show moment.machine.store.scope? scope = none from absent] at there
      cases there
  refine ⟨⟨⟨.refl _, fun scope outer has enclosing => ?_,
    fun scope name value has bound inner captures => ?_, fun _ _ _ => rfl⟩,
    .inl (.root (.inl rfl))⟩, fun scope isRoot => .inl (.root (.inr isRoot))⟩
  · exact .inl ((known scope has).outward enclosing)
  · exact .inl ((known scope has).captured bound captures)

/-- A moment belongs to a realm when its regime governs it. -/
theorem Moment.belongs_iff {realm : Realm} {moment : Moment} :
    moment.Belongs realm ↔ realm.regime.Governs moment :=
  ⟨fun belongs => ⟨belongs.obeys, (Errand.forall_root_iff.mp belongs.errand).1,
    (Errand.forall_root_iff.mp belongs.errand).2⟩,
    fun governs => ⟨governs.holds, Errand.forall_root_iff.mpr ⟨governs.here, governs.given⟩⟩⟩

section

variable {realm : Realm}

/-- **Where a moment belongs to a realm, its outcome is confined to it.** -/
theorem confined (moment : Moment) (belongs : moment.Belongs realm) : moment.Confined realm :=
  (realm.confines_iff _ _).mpr (Regime.confined moment (Moment.belongs_iff.mp belongs))

/-- **Where a moment belongs to a realm, so do all moments that it reaches.** -/
theorem belongs_of_reaches {first last : Moment} (reaches : Reaches first last)
    (belongs : first.Belongs realm) :
    last.Belongs realm :=
  Moment.belongs_iff.mpr (Regime.governs_of_reaches reaches (Moment.belongs_iff.mp belongs))

/-- The machine that a moment leaves, with a value or with an error. -/
theorem leads_of_outcome {moment : Moment} {later : Machine}
    (left : moment.outcome.state? = some later) (belongs : moment.Belongs realm) :
    moment.machine.Leads realm later :=
  Regime.leads_of_outcome (Moment.belongs_iff.mp belongs) left

end

/-! ### The footprint of a moment -/

/-- The errand is one for which a scope is opened. -/
def Errand.opensScope : Errand → Bool
  | .call .. => true
  | .statement (.block _) => true
  | _ => false

/-- Each call and each block has a scope that was not there before. -/
theorem opens_of_enters {outer inner : Moment} (enters : Enters outer inner)
    (opens : outer.errand.opensScope = true) :
    outer.machine.store.Opens inner.machine.store inner.machine.scope := by
  cases enters with
  | block => exact Store.opens_add _ _
  | body => exact (Store.opens_add _ _).extend (Store.extends_defineAll _ _ _)
  | _ => cases opens

/-- **Evaluation touches only what it can get at.** Whatever the machine at a moment and whatever
its errand, consider any moment that comes out of it, itself included. The realm of the first moment
governs the store that the other finds, and the store that it leaves, with a value, with a `return`
or with an error: all scopes there were before and that could not be got at are as they were, and
what is bound in any other scope captures only scopes that could be got at or that were opened
since. So do all values that come out of the other moment. And if that is a call or a block, its
statements are run in a scope that was not there before: that is the current scope of the moment
that is entered, and of every machine in which evaluation asks for statements to be run. -/
theorem touches_only_reachable {start moment : Moment} (reaches : Reaches start moment) :
    start.realm.Governs moment.machine.store ∧
      (∀ values later, moment.outcome = .done values later →
        start.realm.Governs later.store ∧ ∀ value ∈ values, start.realm.Admits later.store value) ∧
      (∀ error later, moment.outcome = .failed error later → start.realm.Governs later.store) ∧
      (∀ inner, Enters moment inner → moment.errand.opensScope = true →
        moment.machine.store.Opens inner.machine.store inner.machine.scope ∧
          start.machine.store.Opens inner.machine.store inner.machine.scope) ∧
      ∀ asked machine, moment.Asks (.errand asked) machine → moment.errand.opensScope = true →
        moment.machine.store.Opens machine.store machine.scope ∧
          start.machine.store.Opens machine.store machine.scope := by
  have belongs := belongs_of_reaches reaches start.belongs_realm
  have outcome := confined moment belongs
  unfold Moment.Confined at outcome
  have opens (inner : Moment) (enters : Enters moment inner)
      (opens : moment.errand.opensScope = true) :
      moment.machine.store.Opens inner.machine.store inner.machine.scope ∧
        start.machine.store.Opens inner.machine.store inner.machine.scope :=
    have opened := opens_of_enters enters opens
    ⟨opened, .since belongs.obeys.governs.extension opened⟩
  refine ⟨belongs.obeys.governs, fun values later done => ?_, fun error later failed => ?_, opens,
    fun asked machine asks => ?_⟩
  · rw [done] at outcome
    exact ⟨outcome.1.obeys.governs, outcome.2⟩
  · rw [failed] at outcome
    exact outcome.obeys.governs
  · obtain ⟨inner, enters, -, rfl⟩ := asks.exists_enters
    exact opens inner enters

/-- The global scope, and two scopes in it. -/
def twoBlocks : Store :=
  ⟨#[⟨[], none⟩, ⟨[("a", .nil)], some ⟨0⟩⟩, ⟨[("b", .nil)], some ⟨0⟩⟩]⟩

/-- A call, in the scope of `a`, of a function that was made in the scope of `b` and assigns to
`b`. -/
def callAcross : Moment where
  fuel := 5
  errand :=
    .call (.function ⟨0, none,
      ⟨[], [.expression (.assign ⟨0⟩ ⟨.identifier, "b", 1⟩ (.literal .true))]⟩, ⟨2⟩⟩)
    ⟨.symbol .rightParen, ")", 1⟩ []
  machine :=
    { Machine.start fun _ => 0 with store := twoBlocks, scope := ⟨1⟩, distances := [(⟨0⟩, 1)] }

/-- The scope that a call comes from cannot be got at, and is left alone. -/
theorem call_spares_current_scope :
    ∃ values later, callAcross.outcome = .done values later ∧
      later.store.local? ⟨2⟩ "b" = some (.boolean true) ∧
      ¬ callAcross.realm.known callAcross.machine.scope ∧
      later.store.scope? callAcross.machine.scope =
        callAcross.machine.store.scope? callAcross.machine.scope := by
  have known : ∀ scope, callAcross.realm.known scope → scope = ⟨0⟩ ∨ scope = ⟨2⟩ := by
    intro scope reachable
    induction reachable with
    | root isRoot =>
      rcases isRoot with isGlobals | ⟨value, isValue, captures⟩
      · exact .inl isGlobals
      · obtain rfl := List.mem_singleton.mp isValue
        cases captures
        exact .inr rfl
    | outward _ enclosing ih =>
      rcases ih with rfl | rfl
      · cases enclosing
      · exact .inl (Option.some.inj enclosing).symm
    | @captured _ _ name value _ bound captures ih =>
      rcases ih with rfl | rfl
      · cases bound
      · have holds : (if name = "b" then some Value.nil else none) = some value := bound
        split at holds
        · cases holds
          cases captures
        · cases holds
  have unknown : ¬ callAcross.realm.known ⟨1⟩ := fun isKnown => by
    rcases known _ isKnown with same | same <;> cases same
  obtain ⟨later, done, assigned⟩ : ∃ later, callAcross.outcome = .done [.nil] later ∧
      later.store.local? ⟨2⟩ "b" = some (.boolean true) := ⟨_, rfl, rfl⟩
  refine ⟨_, later, done, assigned, unknown, ?_⟩
  exact ((touches_only_reachable .refl).2.1 _ later done).1.untouched ⟨1⟩ rfl unknown

end Lox
