/-
**A variable keeps its value until it is bound again.**

* `Moment.Binds` — at this moment a name is bound in a scope: it is assigned, or declared there.
* `Moment.Spares` — nothing that comes out of a moment binds the name in the scope.
* `Store.Preserves` — what the name is bound to in the scope is the same in a later store.
* `Outcome.Preserves` — whatever machine an outcome leaves is in the same scope and preserves the
  binding. There is one rule for each way in which computations are put together, so that this is a
  law (`Moment.law_preserves`).
* `Moment.preserves` — what is spared is preserved.
-/

import Lox.Proofs.Evaluation.Origins
import Lox.Proofs.Evaluation.Realms

namespace Lox

/-! ### What is bound at a moment -/

/-- At this moment the name is bound in the scope. -/
inductive Moment.Binds : Moment → ScopeId → String → Prop
  | assignment {fuel : Nat} {node : NodeId} {name : Token} {value : Value}
      {machine : Machine} {target : ScopeId} :
      machine.targetOf? node name.lexeme = some target →
      Binds ⟨fuel, .assignment node name value, machine⟩ target name.lexeme
  | «variable» {fuel : Nat} {name : Token} {initializer : Option Expr} {machine : Machine} :
      Binds ⟨fuel, .statement (.var name initializer), machine⟩ machine.scope name.lexeme
  | function {fuel : Nat} {name : Token} {body : FunctionBody} {machine : Machine} :
      Binds ⟨fuel, .statement (.function name body), machine⟩ machine.scope name.lexeme

/-- Nothing that comes out of the moment binds the name in the scope. -/
def Moment.Spares (moment : Moment) (scope : ScopeId) (name : String) : Prop :=
  ∀ last, Reaches moment last → ¬ last.Binds scope name

theorem Moment.Spares.of_enters {moment inner : Moment} {scope : ScopeId} {name : String}
    (spares : moment.Spares scope name) (enters : Enters moment inner) : inner.Spares scope name :=
  fun last reaches => spares last (.head enters reaches)

/-! ### Stores in which a binding is preserved -/

/-- If the scope is there, it is there later as well, with the same value of the name. -/
def Store.Preserves (scope : ScopeId) (name : String) (store later : Store) : Prop :=
  (store.scope? scope).isSome → (later.scope? scope).isSome ∧
    later.local? scope name = store.local? scope name

namespace Store.Preserves

variable {scope : ScopeId} {name : String} {store middle later : Store}

theorem refl (store : Store) : store.Preserves scope name store :=
  fun there => ⟨there, rfl⟩

theorem trans (first : store.Preserves scope name middle)
    (second : middle.Preserves scope name later) :
    store.Preserves scope name later := by
  intro there
  obtain ⟨thereMiddle, sameMiddle⟩ := first there
  obtain ⟨thereLater, sameLater⟩ := second thereMiddle
  exact ⟨thereLater, sameLater.trans sameMiddle⟩

/-- Another name, or a name in another scope, may be bound. -/
theorem define {target : ScopeId} {other : String} {value : Value}
    (isOther : ¬ (scope = target ∧ name = other)) :
    store.Preserves scope name (store.define target other value) := by
  refine fun there => ⟨(isSome_scope?_define _ _ _ _ _).trans there, ?_⟩
  rw [local?_define, if_neg fun same => isOther ⟨same.1, same.2.1⟩]

theorem defineAll {target : ScopeId} (isOther : scope ≠ target) (bindings : List (String × Value)) :
    store.Preserves scope name (store.defineAll target bindings) := by
  unfold Store.defineAll
  induction bindings generalizing store with
  | nil => exact .refl store
  | cons binding rest ih => exact .trans (.define fun same => isOther same.1) ih

/-- A scope that is there is not opened again. -/
theorem ne_nextId (there : (store.scope? scope).isSome) : scope ≠ store.nextId := by
  rintro rfl
  rw [scope?_nextId] at there
  cases there

theorem add (enclosing : Option ScopeId) : store.Preserves scope name (store.add enclosing) := by
  intro there
  rw [scope?_add, if_neg (ne_nextId there), local?_add, if_neg (ne_nextId there)]
  exact ⟨there, rfl⟩

/-- The scope that a call is run in is a new one. -/
theorem inBody (machine : Machine) (closure : Closure) (arguments : List Value) :
    machine.store.Preserves scope name (machine.inBody closure arguments).store :=
  fun there => (Preserves.add (some closure.scope)).trans (.defineAll (ne_nextId there) _) there

end Store.Preserves

/-! ### Outcomes in which a binding is preserved -/

/-- Whatever machine the outcome leaves is in the same scope and preserves the binding. -/
def Outcome.Preserves {α : Type} (scope : ScopeId) (name : String) (machine : Machine)
    (outcome : Outcome Machine RuntimeError α) : Prop :=
  ∀ later, outcome.state? = some later →
    later.scope = machine.scope ∧ machine.store.Preserves scope name later.store

namespace Outcome.Preserves

variable {scope : ScopeId} {name : String} {machine : Machine} {α β : Type}
  {outcome : Outcome Machine RuntimeError α}

theorem map_iff {change : α → β} :
    (outcome.map change).Preserves scope name machine ↔ outcome.Preserves scope name machine := by
  unfold Outcome.Preserves
  rw [state?_map]

theorem of_same {later : Machine} (left : outcome.state? = some later)
    (same : later.scope = machine.scope) (store : later.store = machine.store) :
    outcome.Preserves scope name machine := by
  intro last isLast
  obtain rfl := Option.some.inj (left.symm.trans isLast)
  exact ⟨same, store ▸ .refl _⟩

theorem bind {first : Run α} {next : α → Run β}
    (preserves : (first machine).Preserves scope name machine)
    (rest : ∀ value later, first machine = .done value later → later.scope = machine.scope →
      (next value later).Preserves scope name later) :
    ((first >>= next) machine).Preserves scope name machine := by
  intro later left
  rw [Step.bind_apply] at left
  cases ran : first machine with
  | done value between =>
    rw [ran] at left
    obtain ⟨same, preserved⟩ := preserves between (by rw [ran]; rfl)
    obtain ⟨sameLater, keptLater⟩ := rest value between ran same later left
    exact ⟨sameLater.trans same, preserved.trans keptLater⟩
  | failed error between =>
    rw [ran] at left
    exact preserves later (by rw [ran]; exact left)
  | outOfFuel =>
    rw [ran] at left
    cases left

theorem pure (value : α) : ((Pure.pure value : Run α) machine).Preserves scope name machine :=
  .of_same rfl rfl rfl

theorem outOfFuel :
    (Outcome.outOfFuel : Outcome Machine RuntimeError α).Preserves scope name machine :=
  fun _ => nofun

theorem orRaise {token : Token} {result : Except Fault α} :
    (Run.orRaise token result machine).Preserves scope name machine := by
  cases result <;> exact .of_same rfl rfl rfl

theorem readVariable {node : NodeId} {other : Token} :
    (Run.readVariable node other machine).Preserves scope name machine := by
  unfold Run.readVariable
  split <;> exact .of_same rfl rfl rfl

theorem print {keyword : Token} {value : Value} :
    (Run.print keyword value machine).Preserves scope name machine := by
  unfold Run.print
  split <;> exact .of_same rfl rfl rfl

theorem checkCall {closing : Token} {arity arguments : Nat} :
    (Run.checkCall closing arity arguments machine).Preserves scope name machine := by
  unfold Run.checkCall
  split
  · exact .of_same rfl rfl rfl
  · split <;> exact .of_same rfl rfl rfl

theorem makeFunction {other : Option String} {body : FunctionBody} :
    (Run.makeFunction other body machine).Preserves scope name machine :=
  .of_same rfl rfl rfl

/-- Declaring a variable binds its name in the current scope. -/
theorem declare {other : Token} {value : Value}
    (spared : ¬ (scope = machine.scope ∧ name = other.lexeme)) :
    (Run.declare other value machine).Preserves scope name machine := by
  rintro later ⟨⟩
  exact ⟨rfl, .define spared⟩

theorem assignVariable {fuel : Nat} {node : NodeId} {other : Token} {value : Value}
    (spares : Moment.Spares ⟨fuel, .assignment node other value, machine⟩ scope name) :
    (Run.assignVariable node other value machine).Preserves scope name machine := by
  unfold Run.assignVariable
  cases found : machine.targetOf? node other.lexeme with
  | none => exact .of_same rfl rfl rfl
  | some target =>
    rintro later ⟨⟩
    refine ⟨rfl, .define ?_⟩
    rintro ⟨rfl, rfl⟩
    exact spares _ .refl (.assignment found)

/-- Coming back from a block. -/
theorem backTo (preserves : outcome.Preserves scope name machine.inBlock) :
    (outcome.onState machine.backTo).Preserves scope name machine := by
  intro later left
  rw [state?_onState] at left
  obtain ⟨last, isLast, rfl⟩ := Option.map_eq_some_iff.mp left
  exact ⟨rfl, .trans (.add _) (preserves last isLast).2⟩

/-- Coming back from the body of a function. -/
theorem ofBody {closure : Closure} {arguments : List Value}
    {outcome : Outcome Machine RuntimeError Flow}
    (preserves : outcome.Preserves scope name (machine.inBody closure arguments)) :
    (outcome.onState machine.backFrom).ofBody.Preserves scope name machine := by
  intro later left
  cases outcome with
  | done flow last | failed error last =>
    cases left
    exact ⟨rfl, .trans (.inBody machine closure arguments) (preserves last rfl).2⟩
  | outOfFuel => cases left

end Outcome.Preserves

/-! ### All moments -/

/-- If the moment spares the binding, its outcome preserves it. -/
def Moment.Preserves (scope : ScopeId) (name : String) (moment : Moment) : Prop :=
  moment.Spares scope name → moment.outcome.Preserves scope name moment.machine

/-- The computations of a moment that spares the binding preserve it. They begin in the scope of the
moment, which is the one that its declarations bind names in. -/
theorem Moment.law_preserves (scope : ScopeId) (name : String) :
    Law fun moment machine _ outcome =>
      moment.Spares scope name → machine.scope = moment.machine.scope →
        outcome.Preserves scope name machine where
  map_iff := by
    simp only [Outcome.Preserves.map_iff, implies_true]
  outOfFuel _ _ := .outOfFuel
  pure value _ _ := .pure value
  bind preserves rest spares here := by
    refine .bind (preserves spares here) fun value later done same => ?_
    exact rest value later done spares (same.trans here)
  enters enters preserves spares _ := preserves (spares.of_enters enters) rfl
  block preserves spares _ := .backTo (preserves (spares.of_enters .block) rfl)
  body checked preserves spares _ := .ofBody (preserves (spares.of_enters (.body checked)) rfl)
  unary _ _ := .orRaise
  binary _ _ := .orRaise
  readVariable _ _ := .readVariable
  assignVariable spares _ := .assignVariable spares
  declareVariable spares here := by
    refine .declare ?_
    rintro ⟨rfl, rfl⟩
    exact spares _ .refl (here ▸ .variable)
  declareFunction spares here := by
    refine .declare ?_
    rintro ⟨rfl, rfl⟩
    exact spares _ .refl (here ▸ .function)
  makeFunction _ _ := .makeFunction
  print _ _ := .print
  checkCall _ _ := .checkCall
  native {_ known closing arguments _ machine} _ _ := by
    rcases known.inCall_run closing arguments machine with ⟨value, -, ran⟩ | ⟨message, time, -, ran⟩
    · rw [ran]
      exact .of_same rfl rfl rfl
    · rw [ran]
      exact .of_same rfl rfl rfl
  notCallable _ _ := .of_same rfl rfl rfl

/-- **A binding that is spared is preserved.** -/
theorem Moment.preserves (moment : Moment) (scope : ScopeId) (name : String) :
    moment.Preserves scope name :=
  fun spares => (law_preserves scope name).holds moment spares rfl

end Lox
