/-
**Regimes: what evaluation keeps up.**

* `Moment.outcome` — how the errand of a moment ends, with the values that come out of it.
* `Errand.Root` — what the errand of a moment starts from. A call starts from what it is given, not
  from the scope that it stands in.
* `Regime` — which machines are in order, which scopes and values may be used in them, and which
  machines they may turn into. All that evaluation does to a machine in order turns it into another
  one, as long as it keeps to scopes and values that may be used.
* `Regime.Governs` — the machine of a moment is in order, and all that its errand
  starts from may be used.
* `Regime.Confines` — an outcome leaves a machine that the one before may turn into, and the values
  that come out of it may be used there.
* `Regime.confined`, `Regime.governs_of_reaches` — where a regime governs a moment, it confines its
  outcome, and governs all that comes out of the moment. The induction over evaluation is made here,
  once for all regimes.
-/

import Lox.Proofs.Evaluation.Upkeep
import Lox.Proofs.Grammar.Numbering

namespace Lox

/-! ### What moments start from and what comes out of them -/

/-- A function captures the scope that it was made in. -/
inductive Value.Captures : Value → ScopeId → Prop
  | function {closure : Closure} : Captures (.function closure) closure.scope

/-- Constants capture no scope. -/
theorem Value.IsConstant.not_captures {value : Value} (isConstant : value.IsConstant)
    (scope : ScopeId) :
    ¬ value.Captures scope := by
  rintro ⟨⟩
  exact isConstant.ne_function _ rfl

/-- An outcome whose value is changed. -/
def Outcome.map {σ ε α β : Type} (change : α → β) : Outcome σ ε α → Outcome σ ε β
  | .done value state => .done (change value) state
  | .failed error state => .failed error state
  | .outOfFuel => .outOfFuel

theorem Outcome.state?_map {σ ε α β : Type} (change : α → β) (outcome : Outcome σ ε α) :
    (outcome.map change).state? = outcome.state? := by
  cases outcome <;> rfl

theorem Outcome.state?_onState {σ ε α : Type} (change : σ → σ) (outcome : Outcome σ ε α) :
    (outcome.onState change).state? = outcome.state?.map change := by
  cases outcome <;> rfl

/-- The values that come out of a statement. -/
def Flow.values : Flow → List Value
  | .normal => []
  | .returned value => [value]

/-- How the errand of a moment ends, with the values that come out of it. -/
def Moment.outcome : Moment → Outcome Machine RuntimeError (List Value)
  | ⟨fuel, .expression value, machine⟩ => (evaluate fuel value machine).map ([·])
  | ⟨fuel, .arguments values, machine⟩ => (evaluateAll fuel values machine).map id
  | ⟨fuel, .call callee closing arguments, machine⟩ =>
    (callValue fuel callee closing arguments machine).map ([·])
  | ⟨_, .assignment node name value, machine⟩ =>
    (Run.assignVariable node name value machine).map fun _ => []
  | ⟨fuel, .statement form, machine⟩ => (execute fuel form machine).map Flow.values
  | ⟨fuel, .optional value, machine⟩ => (evaluateOr fuel value machine).map ([·])
  | ⟨fuel, .statements forms, machine⟩ => (executeAll fuel forms machine).map Flow.values
  | ⟨fuel, .loop condition body, machine⟩ =>
    (repeatWhile fuel condition body machine).map Flow.values
  | ⟨fuel, .program forms, machine⟩ => (interpret fuel forms machine).map fun _ => []

theorem Moment.state?_expression (fuel : Nat) (value : Expr) (machine : Machine) :
    (Moment.outcome ⟨fuel, .expression value, machine⟩).state? =
      (evaluate fuel value machine).state? :=
  Outcome.state?_map _ _

theorem Moment.state?_program (fuel : Nat) (forms : List Stmt) (machine : Machine) :
    (Moment.outcome ⟨fuel, .program forms, machine⟩).state? =
      (interpret fuel forms machine).state? :=
  Outcome.state?_map _ _

/-- The scopes that the errand of a moment starts from, besides that of the global variables: the
current one, but for a call those that what is called and the arguments capture. -/
def Errand.Root (machine : Machine) (scope : ScopeId) : Errand → Prop
  | .call callee _ values => ∃ value ∈ callee :: values, value.Captures scope
  | .assignment _ _ value => scope = machine.scope ∨ value.Captures scope
  | _ => scope = machine.scope

/-- The values that the errand of a moment is given. -/
def Errand.given : Errand → List Value
  | .call callee _ values => callee :: values
  | .assignment _ _ value => [value]
  | _ => []

/-- Only a call does not start from the scope that it stands in. -/
def Errand.startsHere : Errand → Bool
  | .call .. => false
  | _ => true

/-- An errand starts from the current scope and from what the values that it is given capture. -/
theorem Errand.forall_root_iff {errand : Errand} {machine : Machine} {holds : ScopeId → Prop} :
    (∀ scope, errand.Root machine scope → holds scope) ↔
      (errand.startsHere = true → holds machine.scope) ∧
        ∀ value ∈ errand.given, ∀ scope, value.Captures scope → holds scope := by
  cases errand with
  | call =>
    refine ⟨fun all => ⟨nofun, fun value isGiven scope captures =>
      all scope ⟨value, isGiven, captures⟩⟩, ?_⟩
    rintro ⟨-, all⟩ scope ⟨value, isGiven, captures⟩
    exact all value isGiven scope captures
  | assignment =>
    refine ⟨fun all => ⟨fun _ => all _ (.inl rfl),
      fun value isGiven scope captures => all scope (.inr ?_)⟩, ?_⟩
    · rwa [List.mem_singleton.mp isGiven] at captures
    · rintro ⟨here, all⟩ scope (rfl | captures)
      · exact here rfl
      · exact all _ List.mem_cons_self scope captures
  | _ => exact ⟨fun all => ⟨fun _ => all _ rfl, nofun⟩,
      fun all scope isCurrent => isCurrent ▸ all.1 rfl⟩

/-! ### Regimes -/

/-- Which machines are in order, which scopes and values may be used in them, and which machines
they may turn into. -/
structure Regime where
  holds : Machine → Prop
  has : Store → ScopeId → Prop
  admits : Machine → Value → Prop
  leads : Machine → Machine → Prop
  refl {machine : Machine} : holds machine → leads machine machine
  trans {machine middle later : Machine} : leads machine middle → leads middle later →
    leads machine later
  holds_of_leads {machine later : Machine} : leads machine later → holds later
  has_of_leads {machine later : Machine} {scope : ScopeId} :
    leads machine later → has machine.store scope → has later.store scope
  admits_of_leads {machine later : Machine} {value : Value} :
    leads machine later → admits machine value → admits later value
  /-- Which values may be used depends on the store and the next function only. -/
  admits_of_same {machine later : Machine} {value : Value} : admits machine value →
    later.store = machine.store →
    later.nextFunction = machine.nextFunction → admits later value
  /-- Constants may be used. -/
  admits_constant {machine : Machine} {value : Value} : value.IsConstant → admits machine value
  scope_of_leads {machine later : Machine} : leads machine later → later.scope = machine.scope
  /-- Anything may change but the store, which scopes are current and global, and the next
  function. -/
  leads_of_same {machine later : Machine} : holds machine → later.store = machine.store →
    later.scope = machine.scope → later.globals = machine.globals →
    later.nextFunction = machine.nextFunction →
    leads machine later
  /-- Functions may be made in the current scope, if that may be used. -/
  makeFunction {machine : Machine} (name : Option String) (body : FunctionBody) :
    holds machine → has machine.store machine.scope →
    leads machine { machine with nextFunction := machine.nextFunction + 1 } ∧
      admits { machine with nextFunction := machine.nextFunction + 1 }
        (.function ⟨machine.nextFunction, name, body, machine.scope⟩)
  /-- Names may be bound in scopes that may be used, to values that may be used. -/
  leads_define {machine : Machine} {target : ScopeId} {name : String} {value : Value} :
    holds machine → has machine.store target → admits machine value →
    leads machine (machine.define target name value)
  admits_valueAt? {machine : Machine} {node : NodeId} {name : String} {value : Value} :
    holds machine → has machine.store machine.scope → machine.valueAt? node name = some value →
      admits machine value
  has_of_targetOf? {machine : Machine} {node : NodeId} {name : String} {target : ScopeId} :
    holds machine → has machine.store machine.scope → machine.targetOf? node name = some target →
    has machine.store target
  inBlock {machine : Machine} : holds machine → has machine.store machine.scope →
    holds machine.inBlock ∧ has machine.inBlock.store machine.inBlock.scope
  leads_backTo {machine later : Machine} :
    holds machine → leads machine.inBlock later → leads machine (machine.backTo later)
  /-- The scope that a call comes from need not be one that may be used. -/
  inBody {machine : Machine} {closure : Closure} {arguments : List Value} :
    holds machine → admits machine (.function closure) →
    (∀ value ∈ arguments, admits machine value) →
    holds (machine.inBody closure arguments) ∧
      has (machine.inBody closure arguments).store (machine.inBody closure arguments).scope
  leads_backFrom {machine later : Machine} {closure : Closure} {arguments : List Value} :
    holds machine → leads (machine.inBody closure arguments) later →
      leads machine (machine.backFrom later)

namespace Regime

/-- The machine of a moment is in order, and all that its errand starts from may be used. -/
structure Governs (regime : Regime) (moment : Moment) : Prop where
  holds : regime.holds moment.machine
  here : moment.errand.startsHere = true → regime.has moment.machine.store moment.machine.scope
  given : ∀ value ∈ moment.errand.given, regime.admits moment.machine value

/-- The outcome leaves a machine that this one may turn into, and its values may be used there. -/
def Confines (regime : Regime) (machine : Machine) :
    Outcome Machine RuntimeError (List Value) → Prop
  | .done values later => regime.leads machine later ∧ ∀ value ∈ values, regime.admits later value
  | .failed _ later => regime.leads machine later
  | .outOfFuel => True

/-- The outcome of a moment is confined. -/
def Confined (regime : Regime) (moment : Moment) : Prop :=
  regime.Confines moment.machine moment.outcome

variable {regime : Regime} {machine later : Machine}

/-- The current scope stays the same, and may still be used. -/
theorem has_scope (leads : regime.leads machine later)
    (has : regime.has machine.store machine.scope) :
    regime.has later.store later.scope := by
  rw [regime.scope_of_leads leads]
  exact regime.has_of_leads leads has

/-! ### Outcomes -/

namespace Confines

variable {α β : Type} {values : α → List Value} {results : β → List Value}

theorem bind {first : Run α} {next : α → Run β}
    (confines : regime.Confines machine ((first machine).map values))
    (rest : ∀ value later, first machine = .done value later → regime.leads machine later →
      (∀ one ∈ values value, regime.admits later one) →
      regime.Confines later ((next value later).map results)) :
    regime.Confines machine (((first >>= next) machine).map results) := by
  rw [Step.bind_apply]
  cases ran : first machine with
  | done value later =>
    rw [ran] at confines
    have after := rest value later ran confines.1 confines.2
    dsimp only
    cases continued : next value later with
    | done result last =>
      rw [continued] at after
      exact ⟨regime.trans confines.1 after.1, after.2⟩
    | failed error last =>
      rw [continued] at after
      exact regime.trans confines.1 after
    | outOfFuel => trivial
  | failed error later =>
    rw [ran] at confines
    exact confines
  | outOfFuel => trivial

theorem pure {value : α} (holds : regime.holds machine)
    (admits : ∀ one ∈ values value, regime.admits machine one) :
    regime.Confines machine (((pure value : Run α) machine).map values) :=
  ⟨regime.refl holds, admits⟩

theorem constant {value : Value} (holds : regime.holds machine) (isConstant : value.IsConstant) :
    regime.Confines machine (((Pure.pure value : Run Value) machine).map ([·])) :=
  ⟨regime.refl holds, List.forall_mem_singleton.mpr (regime.admits_constant isConstant)⟩

/-- Raising a fault leaves the machine as it is. -/
theorem raise {token : Token} {fault : Fault} (holds : regime.holds machine) :
    regime.Confines machine ((Run.raise token fault machine).map values) :=
  regime.refl holds

theorem orRaise {token : Token} {result : Except Fault α} (holds : regime.holds machine)
    (admits : ∀ value, result = .ok value → ∀ one ∈ values value, regime.admits machine one) :
    regime.Confines machine ((Run.orRaise token result machine).map values) := by
  cases result with
  | error => exact raise holds
  | ok value => exact ⟨regime.refl holds, admits value rfl⟩

theorem readVariable {node : NodeId} {name : Token} (holds : regime.holds machine)
    (has : regime.has machine.store machine.scope) :
    regime.Confines machine ((Run.readVariable node name machine).map ([·])) := by
  unfold Run.readVariable
  cases found : machine.valueAt? node name.lexeme with
  | none => exact regime.refl holds
  | some value =>
    exact ⟨regime.refl holds,
      List.forall_mem_singleton.mpr (regime.admits_valueAt? holds has found)⟩

theorem assignVariable {node : NodeId} {name : Token} {value : Value} (holds : regime.holds machine)
    (has : regime.has machine.store machine.scope) (admits : regime.admits machine value) :
    regime.Confines machine ((Run.assignVariable node name value machine).map fun _ => []) := by
  unfold Run.assignVariable
  cases found : machine.targetOf? node name.lexeme with
  | none => exact regime.refl holds
  | some target =>
    exact ⟨regime.leads_define holds (regime.has_of_targetOf? holds has found) admits, nofun⟩

theorem declare {name : Token} {value : Value} (holds : regime.holds machine)
    (has : regime.has machine.store machine.scope) (admits : regime.admits machine value) :
    regime.Confines machine ((Run.declare name value machine).map fun _ => []) :=
  ⟨regime.leads_define holds has admits, nofun⟩

theorem makeFunction {name : Option String} {body : FunctionBody} (holds : regime.holds machine)
    (has : regime.has machine.store machine.scope) :
    regime.Confines machine ((Run.makeFunction name body machine).map ([·])) :=
  have ⟨leads, admits⟩ := regime.makeFunction name body holds has
  ⟨leads, List.forall_mem_singleton.mpr admits⟩

theorem print {keyword : Token} {value : Value} (holds : regime.holds machine) :
    regime.Confines machine ((Run.print keyword value machine).map fun _ => []) := by
  unfold Run.print
  cases machine.sink with
  | «open» => exact ⟨regime.leads_of_same holds rfl rfl rfl rfl, nofun⟩
  | closed => exact regime.refl holds

theorem checkCall {closing : Token} {arity arguments : Nat} (holds : regime.holds machine) :
    regime.Confines machine ((Run.checkCall closing arity arguments machine).map fun _ => []) := by
  unfold Run.checkCall
  split
  · exact regime.refl holds
  · split
    · exact regime.refl holds
    · exact ⟨regime.refl holds, nofun⟩

/-- Coming back from the statements of a block. -/
theorem backTo {outcome : Outcome Machine RuntimeError Flow} {values : Flow → List Value}
    (holds : regime.holds machine)
      (confines : regime.Confines machine.inBlock (outcome.map values)) :
    regime.Confines machine ((outcome.onState machine.backTo).map values) := by
  cases outcome with
  | done flow later =>
    exact ⟨regime.leads_backTo holds confines.1, fun value isValue =>
      regime.admits_of_same (confines.2 value isValue) rfl rfl⟩
  | failed error later => exact regime.leads_backTo holds confines
  | outOfFuel => trivial

/-- Coming back from the body of a function with the value of the call. -/
theorem ofBody {closure : Closure} {arguments : List Value}
    {outcome : Outcome Machine RuntimeError Flow} (holds : regime.holds machine)
    (confines : regime.Confines (machine.inBody closure arguments) (outcome.map Flow.values)) :
    regime.Confines machine ((outcome.onState machine.backFrom).ofBody.map ([·])) := by
  cases outcome with
  | done flow later =>
    refine ⟨regime.leads_backFrom holds confines.1, List.forall_mem_singleton.mpr ?_⟩
    cases flow with
    | normal => exact regime.admits_constant .nil
    | returned value => exact regime.admits_of_same (confines.2 value
        (List.mem_singleton_self value)) rfl rfl
  | failed error later => exact regime.leads_backFrom holds confines
  | outOfFuel => trivial

end Confines

/-! ### From one moment to the next -/

section

variable {fuel : Nat}

/-- A later machine, if the errand is given no values. -/
theorem governs_of_leads {errand : Errand} (leads : regime.leads machine later)
    (has : regime.has machine.store machine.scope) (nothing : errand.given = []) :
    regime.Governs ⟨fuel, errand, later⟩ :=
  ⟨regime.holds_of_leads leads, fun _ => has_scope leads has, nothing ▸ List.forall_mem_nil _⟩

variable (confined : ∀ moment : Moment, moment.fuel = fuel → regime.Governs moment →
  regime.Confined moment)

include confined

/-- After an expression was evaluated, the machine is in order, and its value may be used. -/
theorem leads_of_evaluate {value : Expr} {result : Value}
    (done : evaluate fuel value machine = .done result later) (holds : regime.holds machine)
    (has : regime.has machine.store machine.scope) :
    regime.leads machine later ∧ regime.admits later result := by
  have outcome : regime.Confines machine ((evaluate fuel value machine).map ([·])) :=
    confined ⟨fuel, .expression value, machine⟩ rfl
      (governs_of_leads (regime.refl holds) has rfl)
  rw [done] at outcome
  exact ⟨outcome.1, outcome.2 result (List.mem_singleton_self result)⟩

/-- After expressions were evaluated, the machine is in order, and their values may be used. -/
theorem leads_of_evaluateAll {values : List Expr} {results : List Value}
    (done : evaluateAll fuel values machine = .done results later) (holds : regime.holds machine)
    (has : regime.has machine.store machine.scope) :
    regime.leads machine later ∧ ∀ value ∈ results, regime.admits later value := by
  have outcome : regime.Confines machine ((evaluateAll fuel values machine).map id) :=
    confined ⟨fuel, .arguments values, machine⟩ rfl
      (governs_of_leads (regime.refl holds) has rfl)
  rw [done] at outcome
  exact outcome

/-- After a statement was run, the machine is in order. -/
theorem leads_of_execute {form : Stmt} {flow : Flow}
    (done : execute fuel form machine = .done flow later) (holds : regime.holds machine)
    (has : regime.has machine.store machine.scope) : regime.leads machine later := by
  have outcome : regime.Confines machine ((execute fuel form machine).map Flow.values) :=
    confined ⟨fuel, .statement form, machine⟩ rfl (governs_of_leads (regime.refl holds) has rfl)
  rw [done] at outcome
  exact outcome.1

/-- **Where a regime governs a moment, it governs each moment that this one enters.** -/
theorem governs_of_enters {before after : Moment} (enters : Enters before after)
    (isFuel : after.fuel = fuel) (governs : regime.Governs before) : regime.Governs after := by
  subst isFuel
  obtain ⟨holds, here, given⟩ := governs
  cases enters with
  | grouping | unary | binaryLeft | logicalLeft | ternaryCondition | assigned
  | callee | firstArgument
  | expressionStatement | print | «variable» | ifCondition | whileLoop | returning | optional
  | firstStatement | loopCondition | programStatement =>
    exact ⟨holds, here, given⟩
  | binaryRight done | arguments done | otherArguments done =>
    obtain ⟨leads, -⟩ := leads_of_evaluate confined done holds (here rfl)
    exact governs_of_leads leads (here rfl) rfl
  | logicalRight done _ | ternaryYes done _ | ternaryNo done _ | ifYes done _
  | ifNo done _ | loopBody done _ =>
    obtain ⟨leads, -⟩ := leads_of_evaluate confined done holds (here rfl)
    exact governs_of_leads leads (here rfl) rfl
  | otherStatements done | restOfProgram done =>
    exact governs_of_leads (leads_of_execute confined done holds (here rfl)) (here rfl) rfl
  | assignment done =>
    obtain ⟨leads, admits⟩ := leads_of_evaluate confined done holds (here rfl)
    exact ⟨regime.holds_of_leads leads, fun _ => has_scope leads (here rfl),
      List.forall_mem_singleton.mpr admits⟩
  | call done doneAll =>
    obtain ⟨leads, calleeAdmits⟩ := leads_of_evaluate confined done holds (here rfl)
    obtain ⟨leadsAll, valuesAdmit⟩ :=
      leads_of_evaluateAll confined doneAll (regime.holds_of_leads leads)
        (has_scope leads (here rfl))
    exact ⟨regime.holds_of_leads leadsAll, nofun,
      List.forall_mem_cons.mpr ⟨regime.admits_of_leads leadsAll calleeAdmits, valuesAdmit⟩⟩
  | loopAgain done truthy doneBody =>
    obtain ⟨leads, -⟩ := leads_of_evaluate confined done holds (here rfl)
    have leadsBody :=
      leads_of_execute confined doneBody (regime.holds_of_leads leads) (has_scope leads (here rfl))
    exact governs_of_leads leadsBody (has_scope leads (here rfl)) rfl
  | block =>
    obtain ⟨holdsInside, has⟩ := regime.inBlock holds (here rfl)
    exact ⟨holdsInside, fun _ => has, List.forall_mem_nil _⟩
  | @body _ closure _ arguments machine checked =>
    obtain ⟨calleeAdmits, valuesAdmit⟩ := List.forall_mem_cons.mp given
    obtain ⟨holdsInside, has⟩ := regime.inBody holds calleeAdmits valuesAdmit
    exact ⟨holdsInside, fun _ => has, List.forall_mem_nil _⟩

/-- What is entered from a moment that is governed is confined. -/
theorem confined_of_enters {before : Moment} (governs : regime.Governs before) {after : Moment}
    (enters : Enters before after) (isFuel : after.fuel = fuel) : regime.Confined after :=
  confined after isFuel (governs_of_enters (isFuel ▸ confined) enters rfl governs)

/-! ### One step of evaluation -/

/-- **An expression is confined, if all that it sets about is.** -/
theorem confined_expression {value : Expr}
    (governs : regime.Governs ⟨fuel + 1, .expression value, machine⟩) :
    regime.Confined ⟨fuel + 1, .expression value, machine⟩ := by
  have inner := @confined_of_enters regime fuel confined _ governs
  have holds : regime.holds machine := governs.holds
  have has : regime.has machine.store machine.scope := governs.here rfl
  show regime.Confines machine ((evaluate (fuel + 1) value machine).map _)
  cases value with
  | literal value =>
    rw [evaluate]
    exact .constant holds (.literal value)
  | grouping => exact inner .grouping rfl
  | unary operator right =>
    rw [evaluate]
    refine .bind (inner .unary rfl) fun operand later _ leads _ => ?_
    exact .orRaise (regime.holds_of_leads leads) fun result isResult =>
      List.forall_mem_singleton.mpr (regime.admits_constant (applyUnary_isConstant isResult))
  | binary left operator right =>
    rw [evaluate]
    refine .bind (inner .binaryLeft rfl) fun first middle done leads _ => ?_
    refine .bind (inner (.binaryRight done) rfl) fun second later _ leads _ => ?_
    exact .orRaise (regime.holds_of_leads leads) fun result isResult =>
      List.forall_mem_singleton.mpr (regime.admits_constant (applyBinary_isConstant isResult))
  | logical left operator right =>
    rw [evaluate]
    refine .bind (inner .logicalLeft rfl) fun first middle done leads admits => ?_
    cases decides : decidesLogical operator.kind first with
    | true => exact .pure (regime.holds_of_leads leads) admits
    | false =>
      refine .bind (inner (.logicalRight done decides) rfl) fun second later _ leads _ => ?_
      exact .constant (regime.holds_of_leads leads) (.boolean _)
  | ternary condition question yes no =>
    rw [evaluate]
    refine .bind (inner .ternaryCondition rfl) fun decision middle done leads _ => ?_
    cases truthy : decision.truthy with
    | true => exact inner (.ternaryYes done truthy) rfl
    | false => exact inner (.ternaryNo done truthy) rfl
  | «variable» node name =>
    rw [evaluate]
    exact .readVariable holds has
  | assign node name value =>
    rw [evaluate]
    refine .bind (inner .assigned rfl) fun assigned middle done leads admits => ?_
    refine .bind (inner (.assignment done) rfl) fun _ later _ leads _ => ?_
    exact .pure (regime.holds_of_leads leads)
      fun one isOne => regime.admits_of_leads leads (admits one isOne)
  | call callee arguments closing =>
    rw [evaluate]
    refine .bind (inner .callee rfl) fun function middle done leads _ => ?_
    refine .bind (inner (.arguments done) rfl) fun values later doneAll leads _ => ?_
    exact inner (.call done doneAll) rfl
  | lambda keyword body =>
    rw [evaluate]
    exact .makeFunction holds has

theorem confined_arguments {values : List Expr}
    (governs : regime.Governs ⟨fuel + 1, .arguments values, machine⟩) :
    regime.Confined ⟨fuel + 1, .arguments values, machine⟩ := by
  have inner := @confined_of_enters regime fuel confined _ governs
  show regime.Confines machine ((evaluateAll (fuel + 1) values machine).map _)
  cases values with
  | nil =>
    rw [evaluateAll]
    exact .pure governs.holds (List.forall_mem_nil _)
  | cons first rest =>
    rw [evaluateAll]
    refine .bind (inner .firstArgument rfl) fun value middle done leads admits => ?_
    refine .bind (inner (.otherArguments done) rfl) fun others later _ leads othersAdmit => ?_
    exact .pure (regime.holds_of_leads leads) (List.forall_mem_cons.mpr
      ⟨regime.admits_of_leads leads (admits value (List.mem_singleton_self value)), othersAdmit⟩)

/-- **A call is confined, if the body of what is called is.** -/
theorem confined_call {callee : Value} {closing : Token} {arguments : List Value}
    (governs : regime.Governs ⟨fuel + 1, .call callee closing arguments, machine⟩) :
    regime.Confined ⟨fuel + 1, .call callee closing arguments, machine⟩ := by
  have holds : regime.holds machine := governs.holds
  show regime.Confines machine ((callValue (fuel + 1) callee closing arguments machine).map _)
  cases callee with
  | nil | boolean | number | string => exact .raise holds
  | native known =>
    rw [callValue]
    refine .bind (.checkCall holds) fun _ later _ leads _ => ?_
    have ticked : regime.leads later later.ticked :=
      regime.leads_of_same (regime.holds_of_leads leads) rfl rfl rfl rfl
    rcases known.inCall_run closing arguments later
      with ⟨value, isConstant, ran⟩ | ⟨message, time, -, ran⟩
    · rw [ran]
      exact ⟨ticked, List.forall_mem_singleton.mpr (regime.admits_constant isConstant)⟩
    · rw [ran]
      exact ticked
  | function closure =>
    rw [callValue_function]
    cases checked : Run.checkCall closing closure.body.arity arguments.length machine with
    | outOfFuel => trivial
    | failed error later =>
      have before : regime.Confines machine
          ((Run.checkCall closing closure.body.arity arguments.length machine).map fun _ => []) :=
        .checkCall holds
      rw [checked] at before
      exact before
    | done _ later =>
      obtain ⟨-, rfl⟩ := Run.of_checkCall_done checked
      have body : regime.Confined ⟨fuel, .statements _, later.inBody closure arguments⟩ :=
        confined_of_enters confined governs (.body checked) rfl
      exact .ofBody holds body

/-- **A statement is confined, if all that it sets about is.** -/
theorem confined_statement {form : Stmt}
    (governs : regime.Governs ⟨fuel + 1, .statement form, machine⟩) :
    regime.Confined ⟨fuel + 1, .statement form, machine⟩ := by
  have inner := @confined_of_enters regime fuel confined _ governs
  have holds : regime.holds machine := governs.holds
  have has : regime.has machine.store machine.scope := governs.here rfl
  show regime.Confines machine ((execute (fuel + 1) form machine).map _)
  cases form with
  | expression value =>
    rw [execute]
    exact .bind (inner .expressionStatement rfl) fun _ later _ leads _ =>
      .pure (regime.holds_of_leads leads) (List.forall_mem_nil _)
  | print keyword value =>
    rw [execute]
    refine .bind (inner .print rfl) fun _ later _ leads _ => ?_
    exact .bind (.print (regime.holds_of_leads leads)) fun _ last _ leads _ =>
      .pure (regime.holds_of_leads leads) (List.forall_mem_nil _)
  | var name initializer =>
    rw [execute]
    refine .bind (inner .variable rfl) fun value later _ leads admits => ?_
    refine .bind (.declare (regime.holds_of_leads leads) (has_scope leads has)
      (admits value (List.mem_singleton_self value))) fun _ last _ leads _ => ?_
    exact .pure (regime.holds_of_leads leads) (List.forall_mem_nil _)
  | block forms =>
    rw [execute_block]
    exact .backTo holds (inner .block rfl)
  | «if» condition yes no =>
    rw [execute.eq_def]
    refine .bind (inner .ifCondition rfl) fun decision later done leads _ => ?_
    cases truthy : decision.truthy with
    | true => exact inner (.ifYes done truthy) rfl
    | false =>
      cases no with
      | none => exact .pure (regime.holds_of_leads leads) (List.forall_mem_nil _)
      | some no => exact inner (.ifNo done truthy) rfl
  | «while» condition body =>
    rw [execute]
    exact inner .whileLoop rfl
  | function name body =>
    rw [execute]
    refine .bind (.makeFunction holds has) fun value later _ leads admits => ?_
    refine .bind (.declare (regime.holds_of_leads leads) (has_scope leads has)
      (admits value (List.mem_singleton_self value))) fun _ last _ leads _ => ?_
    exact .pure (regime.holds_of_leads leads) (List.forall_mem_nil _)
  | «return» keyword value =>
    rw [execute.eq_def]
    exact .bind (inner .returning rfl) fun value later _ leads admits =>
      .pure (regime.holds_of_leads leads) admits

theorem confined_optional {value : Option Expr}
    (governs : regime.Governs ⟨fuel + 1, .optional value, machine⟩) :
    regime.Confined ⟨fuel + 1, .optional value, machine⟩ := by
  show regime.Confines machine ((evaluateOr (fuel + 1) value machine).map _)
  cases value with
  | none =>
    rw [evaluateOr]
    exact .constant governs.holds .nil
  | some value =>
    rw [evaluateOr]
    exact confined_of_enters confined governs .optional rfl

theorem confined_statements {forms : List Stmt}
    (governs : regime.Governs ⟨fuel + 1, .statements forms, machine⟩) :
    regime.Confined ⟨fuel + 1, .statements forms, machine⟩ := by
  have inner := @confined_of_enters regime fuel confined _ governs
  show regime.Confines machine ((executeAll (fuel + 1) forms machine).map _)
  cases forms with
  | nil =>
    rw [executeAll]
    exact .pure governs.holds (List.forall_mem_nil _)
  | cons first rest =>
    rw [executeAll]
    refine .bind (inner .firstStatement rfl) fun flow later done leads admits => ?_
    cases flow with
    | returned value => exact .pure (regime.holds_of_leads leads) admits
    | normal => exact inner (.otherStatements done) rfl

/-- **A round of a loop is confined, if its parts and the rounds after it are.** -/
theorem confined_loop {condition : Expr} {body : Stmt}
    (governs : regime.Governs ⟨fuel + 1, .loop condition body, machine⟩) :
    regime.Confined ⟨fuel + 1, .loop condition body, machine⟩ := by
  have inner := @confined_of_enters regime fuel confined _ governs
  show regime.Confines machine ((repeatWhile (fuel + 1) condition body machine).map _)
  rw [repeatWhile]
  refine .bind (inner .loopCondition rfl) fun decision middle done leads _ => ?_
  cases truthy : decision.truthy with
  | false => exact .pure (regime.holds_of_leads leads) (List.forall_mem_nil _)
  | true =>
    refine .bind (inner (.loopBody done truthy) rfl) fun flow later doneBody leads admits => ?_
    cases flow with
    | returned value => exact .pure (regime.holds_of_leads leads) admits
    | normal => exact inner (.loopAgain done truthy doneBody) rfl

end

/-! ### All moments -/

theorem confined_assignment {fuel : Nat} {node : NodeId} {name : Token} {value : Value}
    (governs : regime.Governs ⟨fuel, .assignment node name value, machine⟩) :
    regime.Confined ⟨fuel, .assignment node name value, machine⟩ :=
  .assignVariable governs.holds (governs.here rfl)
    (governs.given value (List.mem_singleton_self value))

/-- **A program is confined, wherever it ends, if its statements are.** -/
theorem confined_program {fuel : Nat} {forms : List Stmt}
    (statements : ∀ form machine, regime.Governs ⟨fuel, .statement form, machine⟩ →
      regime.Confined ⟨fuel, .statement form, machine⟩)
    (governs : regime.Governs ⟨fuel, .program forms, machine⟩) :
    regime.Confined ⟨fuel, .program forms, machine⟩ := by
  show regime.Confines machine ((interpret fuel forms machine).map _)
  induction forms generalizing machine with
  | nil => exact .pure governs.holds (List.forall_mem_nil _)
  | cons first rest ih =>
    rw [interpret]
    refine .bind (statements first machine ⟨governs.holds, governs.here, governs.given⟩)
      fun flow later _ leads _ => ?_
    cases flow with
    | returned => exact .pure (regime.holds_of_leads leads) (List.forall_mem_nil _)
    | normal => exact ih (governs_of_leads leads (governs.here rfl) rfl)

/-- **Where a regime governs a moment, it confines its outcome.** -/
theorem confined (moment : Moment) (governs : regime.Governs moment) : regime.Confined moment := by
  obtain ⟨fuel, errand, machine⟩ := moment
  -- the fuel bounds the depth of the recursion, which is what the induction is on
  induction fuel generalizing errand machine with
  | zero =>
    cases errand with
    | assignment => exact confined_assignment governs
    | program => exact confined_program (fun _ _ _ => trivial) governs
    | _ => trivial
  | succ fuel ih =>
    have inner : ∀ moment : Moment, moment.fuel = fuel → regime.Governs moment →
        regime.Confined moment := by
      rintro ⟨_, errand, machine⟩ rfl governs
      exact ih errand machine governs
    cases errand with
    | expression => exact confined_expression inner governs
    | arguments => exact confined_arguments inner governs
    | call => exact confined_call inner governs
    | assignment => exact confined_assignment governs
    | statement => exact confined_statement inner governs
    | optional => exact confined_optional inner governs
    | statements => exact confined_statements inner governs
    | loop => exact confined_loop inner governs
    -- the statements of a program have the fuel of the program
    | program => exact confined_program (fun _ _ => confined_statement inner) governs

/-- The machine that a moment leaves, with a value or with an error. -/
theorem leads_of_outcome {moment : Moment} (governs : regime.Governs moment)
    (left : moment.outcome.state? = some later) : regime.leads moment.machine later := by
  have outcome := confined moment governs
  unfold Confined at outcome
  cases ended : moment.outcome with
  | done values last =>
    rw [ended] at outcome left
    obtain rfl := Option.some.inj left
    exact outcome.1
  | failed error last =>
    rw [ended] at outcome left
    obtain rfl := Option.some.inj left
    exact outcome
  | outOfFuel =>
    rw [ended] at left
    cases left

/-- **Where a regime governs a moment, it governs all moments that this one reaches.** -/
theorem governs_of_reaches {first last : Moment} (reaches : Reaches first last)
    (governs : regime.Governs first) :
    regime.Governs last := by
  induction reaches with
  | refl => exact governs
  | tail _ enters ih => exact governs_of_enters (fun moment _ => confined moment) enters rfl ih

end Regime

end Lox
