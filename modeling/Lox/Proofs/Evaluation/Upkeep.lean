/-
**Evaluation keeps a machine fit, and comes to each errand in scopes that mirror its frames.**

* `Moment.Stands` — the machine of a moment fits, the scopes mirror the frames of the errand, and
  the values that the errand is given fit.
* `Keeps` — what an outcome leaves follows the machine before it, and its value is good.
* `stands_of_enters` — where a moment stands, so does each moment that it enters, if what was
  evaluated in between has kept the machine fit.
* `keeps` — where a moment stands, its outcome keeps the machine fit. The proof is by induction on
  the fuel, with one step for each kind of errand.
* `stands_of_reaches` — where a moment stands, so do all moments that it reaches.
-/

import Lox.Proofs.Evaluation.Mirrors
import Lox.Proofs.Evaluation.Values

namespace Lox

/-! ### Leaving scopes and calls -/

/-- An outcome whose state is changed. -/
def Outcome.onState {σ ε α : Type} (change : σ → σ) : Outcome σ ε α → Outcome σ ε α
  | .done value state => .done value (change state)
  | .failed error state => .failed error (change state)
  | .outOfFuel => .outOfFuel

/-- A machine that comes back from a block to the scope around it. -/
def Machine.backTo (before later : Machine) : Machine :=
  { later with scope := before.scope }

/-- A machine that comes back from the body of a function. -/
def Machine.backFrom (before later : Machine) : Machine :=
  { later with scope := before.scope, depth := later.depth - 1 }

theorem Run.inScope_apply {α : Type} (scope : ScopeId) (body : Run α) (machine : Machine) :
    Run.inScope scope body machine =
      (body { machine with scope := scope }).onState machine.backTo := by
  unfold Run.inScope
  cases body { machine with scope := scope } <;> rfl

theorem Run.inCall_apply {α : Type} (body : Run α) (machine : Machine) :
    Run.inCall body machine =
      (body { machine with depth := machine.depth + 1 }).onState
        fun later => { later with depth := later.depth - 1 } := by
  unfold Run.inCall
  cases body { machine with depth := machine.depth + 1 } <;> rfl

theorem execute_block (fuel : Nat) (forms : List Stmt) (machine : Machine) :
    execute (fuel + 1) (.block forms) machine =
      (executeAll fuel forms machine.inBlock).onState machine.backTo := by
  rw [execute, Step.bind_apply]
  dsimp only [Step.view]
  rw [Step.bind_apply]
  dsimp only [Run.openScope, Run.inScope]
  unfold Machine.inBlock
  cases executeAll fuel forms _ <;> rfl

/-- The outcome of a call whose body has this outcome. -/
def Outcome.ofBody (outcome : Outcome Machine RuntimeError Flow) :
    Outcome Machine RuntimeError Value :=
  match outcome with
  | .done flow later => .done flow.value later
  | .failed error later => .failed error later
  | .outOfFuel => .outOfFuel

theorem callValue_function (fuel : Nat) (closure : Closure) (closing : Token)
    (arguments : List Value) (machine : Machine) :
    callValue (fuel + 1) (.function closure) closing arguments machine =
      match Run.checkCall closing closure.body.arity arguments.length machine with
      | .done _ later =>
        ((executeAll fuel closure.body.statements (later.inBody closure arguments)).onState
          later.backFrom).ofBody
      | .failed error later => .failed error later
      | .outOfFuel => .outOfFuel := by
  rw [callValue, Step.bind_apply]
  cases Run.checkCall closing closure.body.arity arguments.length machine with
  | failed | outOfFuel => rfl
  | done _ later =>
    show Run.inCall _ later = _
    unfold Run.inCall
    have body : (do
        let scope ← Run.openScope closure.scope
        Run.defineAll scope ((closure.body.parameters.map Token.lexeme).zip arguments)
        let flow ← Run.inScope scope (executeAll fuel closure.body.statements)
        return flow.value : Run Value) { later with depth := later.depth + 1 } =
        ((executeAll fuel closure.body.statements (later.inBody closure arguments)).onState
          later.backTo).ofBody := by
      rw [Step.bind_apply]
      dsimp only [Run.openScope]
      rw [Step.bind_apply]
      dsimp only [Run.defineAll, Step.update]
      rw [Step.bind_apply]
      dsimp only [Run.inScope]
      unfold Machine.inBody
      cases executeAll fuel closure.body.statements _ <;> rfl
    rw [body]
    dsimp only
    cases executeAll fuel closure.body.statements (later.inBody closure arguments) <;> rfl

theorem callValue_native (fuel : Nat) (known : Native) (closing : Token) (arguments : List Value)
    (machine : Machine) :
    callValue (fuel + 1) (.native known) closing arguments machine =
      match Run.checkCall closing known.arity arguments.length machine with
      | .done _ later =>
        (known.run closing arguments { later with depth := later.depth + 1 }).onState
          fun last => { last with depth := last.depth - 1 }
      | .failed error later => .failed error later
      | .outOfFuel => .outOfFuel := by
  rw [callValue, Step.bind_apply]
  cases Run.checkCall closing known.arity arguments.length machine with
  | failed | outOfFuel => rfl
  | done _ later => exact Run.inCall_apply _ later

/-! ### Outcomes that keep a machine fit -/

section

variable {past : Past} {machine : Machine}

/-- The outcome leaves a machine that follows this one, and its value is good there. -/
def Keeps (past : Past) (machine : Machine) {α : Type} (good : α → Machine → Prop) :
    Outcome Machine RuntimeError α → Prop
  | .done value later => machine.Follows past later ∧ good value later
  | .failed _ later => machine.Follows past later
  | .outOfFuel => True

namespace Keeps

variable {α β : Type} {good : α → Machine → Prop} {better : β → Machine → Prop}

theorem bind {first : Run α} {next : α → Run β} (kept : Keeps past machine good (first machine))
    (rest : ∀ value later, first machine = .done value later → machine.Follows past later →
      good value later → Keeps past later better (next value later)) :
    Keeps past machine better ((first >>= next) machine) := by
  rw [Step.bind_apply]
  cases ran : first machine with
  | done value later =>
    rw [ran] at kept
    have after := rest value later ran kept.1 kept.2
    dsimp only
    cases continued : next value later with
    | done result last =>
      rw [continued] at after
      exact ⟨kept.1.trans after.1, after.2⟩
    | failed error last =>
      rw [continued] at after
      exact kept.1.trans after
    | outOfFuel => trivial
  | failed error later =>
    rw [ran] at kept
    exact kept
  | outOfFuel => trivial

theorem pure {value : α} (fits : machine.Fits past) (isGood : good value machine) :
    Keeps past machine good ((pure value : Run α) machine) :=
  ⟨.refl fits, isGood⟩

theorem mono {outcome : Outcome Machine RuntimeError α} {weaker : α → Machine → Prop}
    (kept : Keeps past machine good outcome)
    (implies : ∀ value later, machine.Follows past later → good value later → weaker value later) :
    Keeps past machine weaker outcome := by
  cases outcome with
  | done value later => exact ⟨kept.1, implies value later kept.1 kept.2⟩
  | failed => exact kept
  | outOfFuel => trivial

/-- Raising a fault leaves the machine as it is. -/
theorem raise {token : Token} {fault : Fault} (fits : machine.Fits past) :
    Keeps past machine good (Run.raise token fault machine) :=
  Machine.Follows.refl fits

theorem orRaise {token : Token} {result : Except Fault α} (fits : machine.Fits past)
    (isGood : ∀ value, result = .ok value → good value machine) :
    Keeps past machine good (Run.orRaise token result machine) := by
  cases result with
  | error => exact raise fits
  | ok value => exact ⟨.refl fits, isGood value rfl⟩

end Keeps

end

/-! ### What has to hold at a moment -/

/-- If the flow is a `return`, its value fits. -/
def Past.FlowFits (past : Past) (machine : Machine) (flow : Flow) : Prop :=
  ∀ value, flow = .returned value → past.ValueFits machine.store machine.globals value

/-- All values fit. -/
def Past.ValuesFit (past : Past) (machine : Machine) (values : List Value) : Prop :=
  ∀ value ∈ values, past.ValueFits machine.store machine.globals value

/-- The scopes mirror the frames of the errand, and the values it is given fit. -/
def Errand.Stands (past : Past) (machine : Machine) : Errand → Prop
  | .expression value => machine.At past (.expression value)
  | .arguments values => machine.At past (.arguments values)
  | .call callee _ values =>
    past.ValueFits machine.store machine.globals callee ∧ past.ValuesFit machine values
  | .assignment node name value =>
    machine.At past (.target node .write name) ∧ past.ValueFits machine.store machine.globals value
  | .statement form => machine.At past (.statement form)
  | .optional none => True
  | .optional (some value) => machine.At past (.expression value)
  | .statements forms => machine.At past (.statements forms)
  | .loop condition body => machine.At past (.statement (.while condition body))
  | .program forms => machine.At past (.statements forms)

/-- The machine fits, and the errand stands in it. -/
structure Moment.Stands (past : Past) (moment : Moment) : Prop where
  fits : moment.machine.Fits past
  errand : moment.errand.Stands past moment.machine

/-- The outcome of the errand keeps the machine fit; of a program nothing is asked yet. -/
def Moment.Keeps (past : Past) : Moment → Prop
  | ⟨fuel, .expression value, machine⟩ =>
    Lox.Keeps past machine (fun result later => past.ValueFits later.store later.globals result)
      (evaluate fuel value machine)
  | ⟨fuel, .arguments values, machine⟩ =>
    Lox.Keeps past machine (fun results later => past.ValuesFit later results)
      (evaluateAll fuel values machine)
  | ⟨fuel, .call callee closing arguments, machine⟩ =>
    Lox.Keeps past machine (fun result later => past.ValueFits later.store later.globals result)
      (callValue fuel callee closing arguments machine)
  | ⟨_, .assignment node name value, machine⟩ =>
    Lox.Keeps past machine (fun _ _ => True) (Run.assignVariable node name value machine)
  | ⟨fuel, .statement form, machine⟩ =>
    Lox.Keeps past machine (fun flow later => past.FlowFits later flow ∧
      (flow = .normal → ∀ name, form.declared? = some name →
        (later.store.local? later.scope name.lexeme).isSome)) (execute fuel form machine)
  | ⟨fuel, .optional value, machine⟩ =>
    Lox.Keeps past machine (fun result later => past.ValueFits later.store later.globals result)
      (evaluateOr fuel value machine)
  | ⟨fuel, .statements forms, machine⟩ =>
    Lox.Keeps past machine (fun flow later => past.FlowFits later flow)
      (executeAll fuel forms machine)
  | ⟨fuel, .loop condition body, machine⟩ =>
    Lox.Keeps past machine (fun flow later => past.FlowFits later flow)
      (repeatWhile fuel condition body machine)
  | ⟨_, .program _, _⟩ => True

/-! ### Coming to what stands within -/

namespace Machine.At

variable {past : Past} {machine : Machine} {part inner : Part}

/-- What stands right within a part, in the same frames and with the same marks, is
come to in the same scopes. -/
theorem inside (isAt : machine.At past part)
    (within : ∀ frames walk, past.Holds ⟨part, frames, walk⟩ → ∃ walk', walk'.scopes = walk.scopes ∧
      Site.mk inner frames walk' ∈ Site.children ⟨part, frames, walk⟩) : machine.At past inner := by
  obtain ⟨frames, walk, holds, mirrors⟩ := isAt
  obtain ⟨walk', same, isChild⟩ := within frames walk holds
  exact ⟨frames, walk', holds.of_child isChild, by rw [same]; exact mirrors⟩

/-- The part that the walk comes to first. -/
theorem first (isAt : machine.At past part)
    (isFirst : ∀ frames walk, Site.mk inner frames walk ∈ Site.children ⟨part, frames, walk⟩) :
    machine.At past inner :=
  isAt.inside fun frames walk _ => ⟨walk, rfl, isFirst frames walk⟩

/-- The part that the walk comes to after an expression. -/
theorem second (isAt : machine.At past part) (value : Expr)
    (isSecond : ∀ frames walk,
      Site.mk inner frames (value.walk walk) ∈ Site.children ⟨part, frames, walk⟩) :
    machine.At past inner :=
  isAt.inside fun frames walk _ => ⟨value.walk walk, value.scopes_walk walk, isSecond frames walk⟩

/-- The statements of a block are come to in the scope that is opened for it. -/
theorem inBlock {forms : List Stmt} (isAt : machine.At past (.statement (.block forms)))
    (opened : past.Opened (.block forms) machine.store.nextId) :
    machine.inBlock.At past (.statements forms) := by
  obtain ⟨frames, walk, holds, mirrors⟩ := isAt
  refine ⟨.block forms :: frames, walk.openScope,
    holds.of_child (by simp [Site.children, Stmt.sites]), ?_⟩
  refine .scope opened ?_ (fun _ readable => by cases readable)
    (mirrors.extend (Store.extends_add _ _))
  unfold Machine.inBlock Store.enclosing?
  dsimp only
  rw [Store.scope?_add, if_pos rfl]
  rfl

/-- The statements of a function are come to in the scope that is opened for the call, where its
parameters are bound. -/
theorem inBody {closure : Closure} {arguments : List Value}
    (fits : past.ClosureFits machine.store machine.globals closure)
    (opened : past.Opened (.function (.ofName closure.name) closure.body) machine.store.nextId)
    (arity : arguments.length = closure.body.arity) :
    (machine.inBody closure arguments).At past (.statements closure.body.statements) := by
  obtain ⟨-, frames, walk, holds, mirrors⟩ := fits
  have isChild : Site.mk (.statements closure.body.statements)
      (.function (.ofName closure.name) closure.body :: frames)
      (walk.enterFunction (.ofName closure.name) closure.body.parameters) ∈
        Site.children ⟨.function (.ofName closure.name) closure.body, frames, walk⟩ := by
    cases closure.body
    simp [Site.children]
  refine ⟨_, _, holds.of_child isChild, ?_⟩
  rw [Walk.scopes_enterFunction]
  have added := Store.extends_add machine.store (some closure.scope)
  have defined := Store.extends_defineAll (machine.store.add (some closure.scope))
    machine.store.nextId ((closure.body.parameters.map Token.lexeme).zip arguments)
  have isNew : (machine.store.add (some closure.scope)).scope? machine.store.nextId =
      some ⟨[], some closure.scope⟩ := by
    rw [Store.scope?_add, if_pos rfl]
  have isThere : ((machine.store.add (some closure.scope)).scope? machine.store.nextId).isSome := by
    rw [isNew]
    rfl
  have enclosing : ((machine.store.add (some closure.scope)).defineAll machine.store.nextId
      ((closure.body.parameters.map Token.lexeme).zip arguments)).enclosing? machine.store.nextId =
      some closure.scope := by
    refine (defined.enclosing? isThere).trans ?_
    unfold Store.enclosing?
    rw [isNew]
    rfl
  refine .scope opened enclosing (fun name readable => ?_) (mirrors.extend (added.trans defined))
  refine Store.isSome_local?_defineAll isThere ?_
  rw [Names.get?_parameters] at readable
  rw [List.map_fst_zip (by rw [List.length_map, arity]; exact Nat.le_refl _)]
  by_contra unknown
  rw [if_neg unknown] at readable
  cases readable

end Machine.At

/-! ### The machines in which bodies and blocks are run -/

namespace Machine

variable {past : Past} {machine : Machine}

theorem Fits.inBlock (fits : machine.Fits past) : machine.inBlock.Fits past :=
  (fits.add (some machine.scope)).of_same rfl rfl rfl

theorem Fits.inBody (fits : machine.Fits past) (closure : Closure) {arguments : List Value}
    (valuesFit : past.ValuesFit machine arguments) :
    (machine.inBody closure arguments).Fits past := by
  have added := fits.add (some closure.scope)
  refine Fits.of_same (added.defineAll machine.store.nextId
    ((closure.body.parameters.map Token.lexeme).zip arguments) fun binding isBinding => ?_)
      rfl rfl rfl
  exact (valuesFit binding.2 (List.of_mem_zip isBinding).2).extend (Store.extends_add _ _)

/-- Coming back from a block, the machine follows the one before it. -/
theorem Follows.backTo {later : Machine} (follows : machine.inBlock.Follows past later) :
    machine.Follows past (machine.backTo later) :=
  ⟨follows.fits.of_same rfl rfl rfl, (Store.extends_add _ _).trans follows.store, rfl,
    follows.globals, follows.distances⟩

/-- Coming back from a function, the machine follows the one before it. -/
theorem Follows.backFrom {closure : Closure} {arguments : List Value} {later : Machine}
    (follows : (machine.inBody closure arguments).Follows past later) :
    machine.Follows past (machine.backFrom later) :=
  ⟨follows.fits.of_same rfl rfl rfl,
    ((Store.extends_add _ _).trans (Store.extends_defineAll _ _ _)).trans follows.store, rfl,
    follows.globals, follows.distances⟩

end Machine

/-- A call that may be made has as many arguments as parameters, and leaves the machine as it is. -/
theorem Run.of_checkCall_done {closing : Token} {arity arguments : Nat} {machine later : Machine}
    (done : Run.checkCall closing arity arguments machine = .done () later) :
    arguments = arity ∧ later = machine := by
  unfold Run.checkCall at done
  split at done
  · cases done
  · rename_i same
    split at done
    · cases done
    · cases done
      exact ⟨Decidable.not_not.mp same, rfl⟩

/-! ### Reading and writing -/

/-- Of all values only functions have to fit. -/
theorem Past.ValueFits.of_plain {past : Past} {store : Store} {globals : ScopeId} {value : Value}
    (plain : ∀ closure, value ≠ .function closure) : past.ValueFits store globals value := by
  cases value with
  | function closure => exact absurd rfl (plain closure)
  | _ => trivial

/-- What is found going outward is bound in some scope. -/
theorem Store.local?_of_getWithin {store : Store} {name : String} {steps : Nat} {scope : ScopeId}
    {value : Value} (found : store.getWithin name steps scope = some value) :
    ∃ holder, store.local? holder name = some value := by
  induction steps generalizing scope with
  | zero => cases found
  | succ steps ih =>
    unfold getWithin at found
    cases bound : store.local? scope name with
    | some here =>
      rw [bound] at found
      obtain rfl := Option.some.inj found
      exact ⟨scope, bound⟩
    | none =>
      rw [bound] at found
      obtain ⟨outer, -, found⟩ := Option.bind_eq_some_iff.mp found
      exact ih found

theorem Machine.local?_of_valueAt? {machine : Machine} {node : NodeId} {name : String}
    {value : Value} (found : machine.valueAt? node name = some value) :
    ∃ holder, machine.store.local? holder name = some value := by
  unfold Machine.valueAt? at found
  split at found
  · obtain ⟨target, -, bound⟩ := Option.bind_eq_some_iff.mp found
    exact ⟨target, bound⟩
  · exact Store.local?_of_getWithin found

section

variable {past : Past} {machine : Machine}

theorem keeps_readVariable {node : NodeId} {name : Token} (fits : machine.Fits past) :
    Keeps past machine (fun result later => past.ValueFits later.store later.globals result)
      (Run.readVariable node name machine) := by
  unfold Run.readVariable
  cases found : machine.valueAt? node name.lexeme with
  | none => exact Machine.Follows.refl fits
  | some value =>
    obtain ⟨holder, bound⟩ := Machine.local?_of_valueAt? found
    exact ⟨.refl fits, fits.values holder name.lexeme value bound⟩

theorem keeps_checkCall {closing : Token} {arity arguments : Nat} (fits : machine.Fits past) :
    Keeps past machine (fun _ _ => True) (Run.checkCall closing arity arguments machine) := by
  unfold Run.checkCall
  split
  · exact Machine.Follows.refl fits
  · split
    · exact Machine.Follows.refl fits
    · exact ⟨.refl fits, trivial⟩

theorem keeps_print {keyword : Token} {value : Value} (fits : machine.Fits past) :
    Keeps past machine (fun _ _ => True) (Run.print keyword value machine) := by
  unfold Run.print
  cases machine.sink with
  | «open» => exact ⟨⟨fits.of_same rfl rfl rfl, .refl _, rfl, rfl, rfl⟩, trivial⟩
  | closed => exact Machine.Follows.refl fits

theorem Store.isSome_local?_define {store : Store} {scope : ScopeId} {name : String} {value : Value}
    (found : (store.scope? scope).isSome) :
    ((store.define scope name value).local? scope name).isSome := by
  rw [local?_define, if_pos ⟨rfl, rfl, found⟩]
  rfl

/-- A declared function fits once its own name is bound, whatever to. -/
theorem Machine.Fits.of_declaration {fuel : Nat} {name : Token} {body : FunctionBody}
    {value : Value} (fits : machine.Fits past)
    (reached : past.moments ⟨fuel + 1, .statement (.function name body), machine⟩)
    (isAt : machine.At past (.statement (.function name body))) :
    past.ClosureFits (machine.store.define machine.scope name.lexeme value) machine.globals
      ⟨machine.nextFunction, some name.lexeme, body, machine.scope⟩ := by
  obtain ⟨frames, walk, holds, mirrors⟩ := isAt
  have bound : ((machine.store.define machine.scope name.lexeme value).local? machine.scope
      name.lexeme).isSome :=
    Store.isSome_local?_define (mirrors.isSome_scope? fits.isSome_globals)
  refine ⟨⟨_, reached, .declaration⟩, frames, (walk.declare name).define name,
    holds.of_child Site.function_child, ?_⟩
  rw [Walk.scopes_define_of_declare rfl]
  exact (mirrors.extend (Store.extends_define _ _ _ _)).define name bound

/-- Binding a name to a value that fits. -/
theorem Machine.Fits.follows_define {target : ScopeId} {name : String} {value : Value}
    (fits : machine.Fits past) (valueFits : past.ValueFits machine.store machine.globals value) :
    machine.Follows past (machine.define target name value) :=
  ⟨fits.define (valueFits.extend (Store.extends_define _ _ _ _)), Store.extends_define _ _ _ _,
    rfl, rfl, rfl⟩

theorem keeps_assignVariable {node : NodeId} {name : Token} {value : Value}
    (fits : machine.Fits past) (valueFits : past.ValueFits machine.store machine.globals value) :
    Keeps past machine (fun _ _ => True) (Run.assignVariable node name value machine) := by
  unfold Run.assignVariable
  cases machine.targetOf? node name.lexeme with
  | none => exact Machine.Follows.refl fits
  | some target => exact ⟨fits.follows_define valueFits, trivial⟩

end

/-! ### From one moment to the next -/

section

variable {past : Past} (proper : past.Proper) {fuel : Nat}
  (kept : ∀ moment : Moment, moment.fuel = fuel → past.moments moment → moment.Stands past →
    moment.Keeps past)

include proper kept

/-- After an expression was evaluated in between, the machine follows the one
before, and the value fits. -/
theorem follows_of_evaluate {before : Moment} {value : Expr} {machine later : Machine}
    {result : Value} (reached : past.moments before)
    (enters : Enters before ⟨fuel, .expression value, machine⟩) (fits : machine.Fits past)
    (isAt : machine.At past (.expression value))
    (done : evaluate fuel value machine = .done result later) :
    machine.Follows past later ∧ past.ValueFits later.store later.globals result := by
  have outcome : Keeps past machine
      (fun result later => past.ValueFits later.store later.globals result)
      (evaluate fuel value machine) :=
    kept ⟨fuel, .expression value, machine⟩ rfl (proper.closed reached enters) ⟨fits, isAt⟩
  rw [done] at outcome
  exact outcome

/-- After expressions were evaluated in between, the machine follows the one
before, and the values fit. -/
theorem follows_of_evaluateAll {before : Moment} {values : List Expr} {machine later : Machine}
    {results : List Value} (reached : past.moments before)
    (enters : Enters before ⟨fuel, .arguments values, machine⟩) (fits : machine.Fits past)
    (isAt : machine.At past (.arguments values))
    (done : evaluateAll fuel values machine = .done results later) :
    machine.Follows past later ∧ past.ValuesFit later results := by
  have outcome : Keeps past machine (fun results later => past.ValuesFit later results)
      (evaluateAll fuel values machine) :=
    kept ⟨fuel, .arguments values, machine⟩ rfl (proper.closed reached enters) ⟨fits, isAt⟩
  rw [done] at outcome
  exact outcome

/-- After the expression that comes first in a part was evaluated, the walk comes to what is second
there, in the machine that is left. -/
theorem second_of_evaluate {before : Moment} {part : Part} (inner : Part) {value : Expr}
    {machine later : Machine} {result : Value} (reached : past.moments before)
    (enters : Enters before ⟨fuel, .expression value, machine⟩) (fits : machine.Fits past)
    (isAt : machine.At past part)
    (isFirst : ∀ frames walk, Site.mk (.expression value) frames walk ∈ Site.children
      ⟨part, frames, walk⟩)
    (isSecond : ∀ frames walk,
      Site.mk inner frames (value.walk walk) ∈ Site.children ⟨part, frames, walk⟩)
    (done : evaluate fuel value machine = .done result later) :
    machine.Follows past later ∧ past.ValueFits later.store later.globals result ∧
      later.At past inner := by
  obtain ⟨follows, resultFits⟩ :=
    follows_of_evaluate proper kept reached enters fits (isAt.first isFirst) done
  exact ⟨follows, resultFits, (isAt.second value isSecond).follow follows⟩

/-- After a statement was run in between, the machine follows the one before, and what the statement
declares is bound. -/
theorem follows_of_execute {before : Moment} {form : Stmt} {machine later : Machine}
    (reached : past.moments before) (enters : Enters before ⟨fuel, .statement form, machine⟩)
    (fits : machine.Fits past) (isAt : machine.At past (.statement form))
    (done : execute fuel form machine = .done .normal later) :
    machine.Follows past later ∧ ∀ name, form.declared? = some name →
      (later.store.local? later.scope name.lexeme).isSome := by
  have outcome : Keeps past machine (fun flow later => past.FlowFits later flow ∧
      (flow = .normal → ∀ name, form.declared? = some name →
        (later.store.local? later.scope name.lexeme).isSome)) (execute fuel form machine) :=
    kept ⟨fuel, .statement form, machine⟩ rfl (proper.closed reached enters) ⟨fits, isAt⟩
  rw [done] at outcome
  exact ⟨outcome.1, outcome.2.2 rfl⟩

omit kept in
/-- After a statement was run, the statements after it are come to in scopes that mirror their
frames. -/
theorem at_rest {first : Stmt} {rest : List Stmt} {machine later : Machine}
    (isAt : machine.At past (.statements (first :: rest))) (follows : machine.Follows past later)
    (bound : ∀ name, first.declared? = some name →
      (later.store.local? later.scope name.lexeme).isSome) :
    later.At past (.statements rest) := by
  obtain ⟨frames, walk, holds, mirrors⟩ := isAt
  have isFirst : Site.mk (.statement first) frames walk ∈
      Site.children ⟨.statements (first :: rest), frames, walk⟩ := by simp [Site.children]
  have marks := Site.scopes_after (proper.wellFormed_of_holds (holds.of_child isFirst))
  refine ⟨frames, first.walk walk, holds.of_child (by simp [Site.children]), ?_⟩
  have extended := mirrors.extend follows.store
  rw [← follows.scope, ← follows.globals] at extended
  rw [marks]
  cases declares : first.declared? with
  | none => exact extended
  | some name => exact extended.define name (bound name declares)

/-- **Where a moment stands, so does each moment that it enters.** -/
theorem stands_of_enters {before after : Moment} (enters : Enters before after)
    (isFuel : after.fuel = fuel) (reached : past.moments before) (stands : before.Stands past) :
    after.Stands past := by
  subst isFuel
  obtain ⟨fits, errand⟩ := stands
  cases enters with
  | grouping | unary | binaryLeft | logicalLeft | ternaryCondition | assigned | callee =>
    exact ⟨fits, errand.first fun _ _ => by simp [Site.children, Expr.sites]⟩
  | firstArgument | firstStatement | programStatement =>
    exact ⟨fits, errand.first fun _ _ => by simp [Site.children]⟩
  | expressionStatement | print | loopCondition =>
    exact ⟨fits, errand.first fun _ _ => by simp [Site.children, Stmt.sites]⟩
  | @ifCondition _ _ _ no =>
    exact ⟨fits, errand.first fun _ _ => by cases no <;> simp [Site.children, Stmt.sites]⟩
  | whileLoop | optional => exact ⟨fits, errand⟩
  | @binaryRight _ _ _ right _ _ _ done =>
    obtain ⟨follows, -, isAt⟩ :=
      second_of_evaluate proper kept (.expression right) reached .binaryLeft fits errand
      (by simp [Site.children, Expr.sites]) (by simp [Site.children, Expr.sites]) done
    exact ⟨follows.fits, isAt⟩
  | @logicalRight _ _ _ right _ _ _ done =>
    obtain ⟨follows, -, isAt⟩ :=
      second_of_evaluate proper kept (.expression right) reached .logicalLeft fits errand
      (by simp [Site.children, Expr.sites]) (by simp [Site.children, Expr.sites]) done
    exact ⟨follows.fits, isAt⟩
  | @ternaryYes _ _ _ yes _ _ _ _ done =>
    obtain ⟨follows, -, isAt⟩ :=
      second_of_evaluate proper kept (.expression yes) reached .ternaryCondition fits errand
      (by simp [Site.children, Expr.sites]) (by simp [Site.children, Expr.sites]) done
    exact ⟨follows.fits, isAt⟩
  | @ternaryNo _ condition _ yes _ _ _ _ done =>
    obtain ⟨follows, -⟩ := follows_of_evaluate proper kept reached .ternaryCondition fits
      (errand.first fun _ _ => by simp [Site.children, Expr.sites]) done
    refine ⟨follows.fits, Machine.At.follow (errand.inside fun _ walk _ => ?_) follows⟩
    exact ⟨yes.walk (condition.walk walk), by simp, by simp [Site.children, Expr.sites]⟩
  | @assignment _ node name _ _ _ _ done =>
    obtain ⟨follows, resultFits, isAt⟩ :=
      second_of_evaluate proper kept (.target node .write name) reached .assigned
      fits errand (by simp [Site.children, Expr.sites]) (by simp [Site.children, Expr.sites]) done
    exact ⟨follows.fits, isAt, resultFits⟩
  | @arguments _ _ arguments _ _ _ _ done =>
    obtain ⟨follows, -, isAt⟩ :=
      second_of_evaluate proper kept (.arguments arguments) reached .callee fits errand
      (by simp [Site.children, Expr.sites]) (by simp [Site.children, Expr.sites]) done
    exact ⟨follows.fits, isAt⟩
  | @call _ _ arguments _ _ _ _ _ _ done doneAll =>
    obtain ⟨follows, calleeFits, isAt⟩ :=
      second_of_evaluate proper kept (.arguments arguments) reached .callee
      fits errand (by simp [Site.children, Expr.sites]) (by simp [Site.children, Expr.sites]) done
    obtain ⟨followsAll, valuesFit⟩ := follows_of_evaluateAll proper kept reached (.arguments done)
      follows.fits isAt doneAll
    exact ⟨followsAll.fits, followsAll.valueFits calleeFits, valuesFit⟩
  | @otherArguments _ _ rest _ _ _ done =>
    obtain ⟨follows, -, isAt⟩ :=
      second_of_evaluate proper kept (.arguments rest) reached .firstArgument fits errand
      (by simp [Site.children]) (by simp [Site.children]) done
    exact ⟨follows.fits, isAt⟩
  | @body _ closure _ _ _ checked =>
    obtain ⟨arity, -⟩ := Run.of_checkCall_done checked
    exact ⟨fits.inBody closure errand.2,
      .inBody errand.1 (.function reached checked errand.1.1) arity⟩
  | @«variable» _ name initializer =>
    refine ⟨fits, ?_⟩
    cases initializer with
    | none => trivial
    | some value =>
      obtain ⟨frames, walk, holds, mirrors⟩ := errand
      exact ⟨frames, walk.declare name, holds.of_child (by simp [Site.children, Stmt.sites]),
        mirrors.declare name⟩
  | block => exact ⟨fits.inBlock, errand.inBlock (.block reached)⟩
  | @ifYes _ _ yes no _ _ _ done =>
    obtain ⟨follows, -, isAt⟩ :=
      second_of_evaluate proper kept (.statement yes) reached .ifCondition fits errand
      (by cases no <;> simp [Site.children, Stmt.sites])
        (by cases no <;> simp [Site.children, Stmt.sites]) done
    exact ⟨follows.fits, isAt⟩
  | @ifNo _ condition yes no _ _ _ done =>
    obtain ⟨follows, -⟩ := follows_of_evaluate proper kept reached .ifCondition fits
      (errand.first fun _ _ => by simp [Site.children, Stmt.sites]) done
    refine ⟨follows.fits, Machine.At.follow (errand.inside fun frames walk holds => ?_) follows⟩
    refine ⟨yes.walk (condition.walk walk), ?_, by simp [Site.children, Stmt.sites]⟩
    -- the first branch declares nothing, so its marks are those of the condition
    have wellFormed := proper.wellFormed_of_holds holds
    have isYes : Site.WellFormed ⟨.statement yes, frames, condition.walk walk⟩ :=
      wellFormed.of_child (by simp [Site.children, Stmt.sites])
    rw [Site.scopes_after isYes, (Site.wellFormed_iff.mp wellFormed).1.1]
    exact condition.scopes_walk walk
  | @returning _ keyword value =>
    refine ⟨fits, ?_⟩
    cases value with
    | none => trivial
    | some value =>
      exact errand.inside fun _ walk _ =>
        ⟨walk.checkReturn keyword,
          Walk.scopes_checkReturn walk keyword, by simp [Site.children, Stmt.sites]⟩
  | otherStatements done =>
    obtain ⟨follows, bound⟩ := follows_of_execute proper kept reached .firstStatement fits
      (errand.first fun _ _ => by simp [Site.children]) done
    exact ⟨follows.fits, at_rest proper errand follows bound⟩
  | @loopBody _ _ body _ _ _ done =>
    obtain ⟨follows, -, isAt⟩ :=
      second_of_evaluate proper kept (.statement body) reached .loopCondition fits errand
      (by simp [Site.children, Stmt.sites]) (by simp [Site.children, Stmt.sites]) done
    exact ⟨follows.fits, isAt⟩
  | @loopAgain _ _ body _ _ _ _ done truthy doneBody =>
    obtain ⟨follows, -, isAt⟩ :=
      second_of_evaluate proper kept (.statement body) reached .loopCondition fits errand
      (by simp [Site.children, Stmt.sites]) (by simp [Site.children, Stmt.sites]) done
    obtain ⟨followsBody, -⟩ :=
      follows_of_execute proper kept reached (.loopBody done truthy) follows.fits isAt doneBody
    exact ⟨followsBody.fits, Machine.At.follow errand (follows.trans followsBody)⟩
  | restOfProgram done =>
    obtain ⟨follows, bound⟩ := follows_of_execute proper kept reached .programStatement fits
      (errand.first fun _ _ => by simp [Site.children]) done
    exact ⟨follows.fits, at_rest proper errand follows bound⟩

/-! ### One step of evaluation -/

/-- **An expression keeps the machine fit, if all that it sets about does.** -/
theorem keeps_expression {value : Expr} {machine : Machine}
    (reached : past.moments ⟨fuel + 1, .expression value, machine⟩)
    (stands : Moment.Stands past ⟨fuel + 1, .expression value, machine⟩) :
    Moment.Keeps past ⟨fuel + 1, .expression value, machine⟩ := by
  have inner : ∀ {after : Moment}, Enters ⟨fuel + 1, .expression value, machine⟩ after →
      after.fuel = fuel → after.Keeps past := fun enters isFuel =>
    kept _ isFuel (proper.closed reached enters)
      (stands_of_enters proper (isFuel ▸ kept) enters rfl reached stands)
  have fits : machine.Fits past := stands.fits
  show Keeps past machine _ (evaluate (fuel + 1) value machine)
  cases value with
  | literal value =>
    rw [evaluate]
    exact .pure fits (by cases value <;> trivial)
  | grouping => exact inner .grouping rfl
  | unary operator right =>
    rw [evaluate]
    refine Keeps.bind (inner .unary rfl) fun operand later _ follows _ => ?_
    exact .orRaise follows.fits fun result isResult =>
      .of_plain (applyUnary_isConstant isResult).ne_function
  | binary left operator right =>
    rw [evaluate]
    refine Keeps.bind (inner .binaryLeft rfl) fun first middle done follows _ => ?_
    refine Keeps.bind (inner (.binaryRight done) rfl) fun second later _ follows _ => ?_
    exact .orRaise follows.fits fun result isResult =>
      .of_plain (applyBinary_isConstant isResult).ne_function
  | logical left operator right =>
    rw [evaluate]
    refine Keeps.bind (inner .logicalLeft rfl) fun first middle done follows firstFits => ?_
    cases decides : decidesLogical operator.kind first with
    | true => exact .pure follows.fits firstFits
    | false =>
      refine Keeps.bind (inner (.logicalRight done decides) rfl) fun second later _ follows _ => ?_
      exact .pure follows.fits trivial
  | ternary condition question yes no =>
    rw [evaluate]
    refine Keeps.bind (inner .ternaryCondition rfl) fun decision middle done follows _ => ?_
    cases truthy : decision.truthy with
    | true => exact inner (.ternaryYes done truthy) rfl
    | false => exact inner (.ternaryNo done truthy) rfl
  | «variable» node name =>
    rw [evaluate]
    exact keeps_readVariable fits
  | assign node name value =>
    rw [evaluate]
    refine Keeps.bind (inner .assigned rfl) fun assigned middle done follows assignedFits => ?_
    refine Keeps.bind (keeps_assignVariable follows.fits assignedFits)
      fun _ later _ followsStore _ => ?_
    exact .pure followsStore.fits (followsStore.valueFits assignedFits)
  | call callee arguments closing =>
    rw [evaluate]
    refine Keeps.bind (inner .callee rfl) fun function middle done follows _ => ?_
    refine Keeps.bind (inner (.arguments done) rfl) fun values later doneAll follows _ => ?_
    exact inner (.call done doneAll) rfl
  | lambda keyword body =>
    rw [evaluate]
    obtain ⟨frames, walk, holds, mirrors⟩ := stands.errand
    refine ⟨⟨fits.of_same rfl rfl rfl, .refl _, rfl, rfl, rfl⟩, ⟨_, reached, .lambda⟩, frames, walk,
      holds.of_child Site.lambda_child, mirrors⟩

theorem keeps_arguments {values : List Expr} {machine : Machine}
    (reached : past.moments ⟨fuel + 1, .arguments values, machine⟩)
    (stands : Moment.Stands past ⟨fuel + 1, .arguments values, machine⟩) :
    Moment.Keeps past ⟨fuel + 1, .arguments values, machine⟩ := by
  have inner : ∀ {after : Moment}, Enters ⟨fuel + 1, .arguments values, machine⟩ after →
      after.fuel = fuel → after.Keeps past := fun enters isFuel =>
    kept _ isFuel (proper.closed reached enters)
      (stands_of_enters proper (isFuel ▸ kept) enters rfl reached stands)
  have fits : machine.Fits past := stands.fits
  show Keeps past machine _ (evaluateAll (fuel + 1) values machine)
  cases values with
  | nil =>
    rw [evaluateAll]
    exact .pure fits nofun
  | cons first rest =>
    rw [evaluateAll]
    refine Keeps.bind (inner .firstArgument rfl) fun value middle done follows valueFits => ?_
    refine Keeps.bind (inner (.otherArguments done) rfl) fun others later _ follows othersFit => ?_
    exact .pure follows.fits (List.forall_mem_cons.mpr ⟨follows.valueFits valueFits, othersFit⟩)

/-- **A call keeps the machine fit, if the body of what is called does.** -/
theorem keeps_call {callee : Value} {closing : Token} {arguments : List Value} {machine : Machine}
    (reached : past.moments ⟨fuel + 1, .call callee closing arguments, machine⟩)
    (stands : Moment.Stands past ⟨fuel + 1, .call callee closing arguments, machine⟩) :
    Moment.Keeps past ⟨fuel + 1, .call callee closing arguments, machine⟩ := by
  have fits : machine.Fits past := stands.fits
  show Keeps past machine _ (callValue (fuel + 1) callee closing arguments machine)
  cases callee with
  | nil | boolean | number | string => exact .raise fits
  | native known =>
    rw [callValue]
    refine Keeps.bind (keeps_checkCall fits) fun _ later _ follows _ => ?_
    have ticked : later.Follows past later.ticked :=
      ⟨follows.fits.of_same rfl rfl rfl, .refl _, rfl, rfl, rfl⟩
    rcases known.inCall_run closing arguments later
      with ⟨value, isConstant, ran⟩ | ⟨message, time, -, ran⟩
    · rw [ran]
      exact ⟨ticked, .of_plain isConstant.ne_function⟩
    · rw [ran]
      exact ticked
  | function closure =>
    rw [callValue_function]
    cases checked : Run.checkCall closing closure.body.arity arguments.length machine with
    | outOfFuel => trivial
    | failed error later =>
      have kept : Keeps past machine (fun _ _ => True)
          (Run.checkCall closing closure.body.arity arguments.length machine) :=
        keeps_checkCall fits
      rw [checked] at kept
      exact kept
    | done _ later =>
      obtain ⟨-, rfl⟩ := Run.of_checkCall_done checked
      have enters : Enters ⟨fuel + 1, .call (.function closure) closing arguments, later⟩ _ :=
        .body checked
      have body : Keeps past (later.inBody closure arguments)
          (fun flow last => past.FlowFits last flow)
          (executeAll fuel closure.body.statements (later.inBody closure arguments)) :=
        kept _ rfl (proper.closed reached enters)
          (stands_of_enters proper kept enters rfl reached stands)
      dsimp only
      cases ran : executeAll fuel closure.body.statements (later.inBody closure arguments) with
      | outOfFuel => trivial
      | failed error last =>
        rw [ran] at body
        exact Machine.Follows.backFrom body
      | done flow last =>
        rw [ran] at body
        refine ⟨body.1.backFrom, ?_⟩
        cases flow with
        | normal => trivial
        | returned value => exact body.2 value rfl

/-- **A statement keeps the machine fit, if all that it sets about does.** -/
theorem keeps_statement {form : Stmt} {machine : Machine}
    (reached : past.moments ⟨fuel + 1, .statement form, machine⟩)
    (stands : Moment.Stands past ⟨fuel + 1, .statement form, machine⟩) :
    Moment.Keeps past ⟨fuel + 1, .statement form, machine⟩ := by
  have inner : ∀ {after : Moment}, Enters ⟨fuel + 1, .statement form, machine⟩ after →
      after.fuel = fuel → after.Keeps past := fun enters isFuel =>
    kept _ isFuel (proper.closed reached enters)
      (stands_of_enters proper (isFuel ▸ kept) enters rfl reached stands)
  have fits : machine.Fits past := stands.fits
  have there : (machine.store.scope? machine.scope).isSome := by
    obtain ⟨_, _, _, mirrors⟩ := stands.errand
    exact mirrors.isSome_scope? fits.isSome_globals
  show Keeps past machine _ (execute (fuel + 1) form machine)
  cases form with
  | expression value =>
    rw [execute]
    refine Keeps.bind (inner .expressionStatement rfl) fun value later _ follows _ => ?_
    exact .pure follows.fits ⟨nofun, nofun⟩
  | print keyword value =>
    rw [execute]
    refine Keeps.bind (inner .print rfl) fun value later _ follows _ => ?_
    refine Keeps.bind (keeps_print follows.fits) fun _ later _ follows _ => ?_
    exact .pure follows.fits ⟨nofun, nofun⟩
  | var name initializer =>
    rw [execute]
    refine Keeps.bind (inner .variable rfl) fun value later _ follows valueFits => ?_
    have declared : later.Follows past (later.define later.scope name.lexeme value) :=
      follows.fits.follows_define valueFits
    refine ⟨declared, nofun, fun _ other isOther => ?_⟩
    obtain rfl := Option.some.inj isOther
    have there' := follows.store.isSome_scope? there
    rw [← follows.scope] at there'
    exact Store.isSome_local?_define there'
  | block forms =>
    rw [execute_block]
    have body : Keeps past machine.inBlock (fun flow later => past.FlowFits later flow)
        (executeAll fuel forms machine.inBlock) := inner .block rfl
    cases ran : executeAll fuel forms machine.inBlock with
    | outOfFuel => trivial
    | failed error later =>
      rw [ran] at body
      exact Machine.Follows.backTo body
    | done flow later =>
      rw [ran] at body
      exact ⟨body.1.backTo, body.2, nofun⟩
  | «if» condition yes no =>
    rw [execute.eq_def]
    refine Keeps.bind (inner .ifCondition rfl) fun decision later done follows _ => ?_
    cases truthy : decision.truthy with
    | true =>
      exact Keeps.mono (inner (.ifYes done truthy) rfl) fun flow later _ good => ⟨good.1, nofun⟩
    | false =>
      cases no with
      | none => exact .pure follows.fits ⟨nofun, nofun⟩
      | some no =>
        exact Keeps.mono (inner (.ifNo done truthy) rfl) fun flow later _ good => ⟨good.1, nofun⟩
  | «while» condition body =>
    rw [execute]
    refine Keeps.mono (inner .whileLoop rfl) fun flow later _ flowFits => ⟨flowFits, nofun⟩
  | function name body =>
    rw [execute]
    have counted : Machine.Fits past { machine with nextFunction := machine.nextFunction + 1 } :=
      fits.of_same rfl rfl rfl
    refine ⟨⟨counted.define (fits.of_declaration reached stands.errand),
      Store.extends_define _ _ _ _, rfl, rfl, rfl⟩, nofun, fun _ other isOther => ?_⟩
    obtain rfl := Option.some.inj isOther
    exact Store.isSome_local?_define there
  | «return» keyword value =>
    rw [execute.eq_def]
    refine Keeps.bind (inner .returning rfl) fun value later _ follows valueFits => ?_
    refine .pure follows.fits ⟨fun result isResult => ?_, nofun⟩
    obtain rfl := Flow.returned.inj isResult
    exact valueFits

theorem keeps_optional {value : Option Expr} {machine : Machine}
    (reached : past.moments ⟨fuel + 1, .optional value, machine⟩)
    (stands : Moment.Stands past ⟨fuel + 1, .optional value, machine⟩) :
    Moment.Keeps past ⟨fuel + 1, .optional value, machine⟩ := by
  show Keeps past machine _ (evaluateOr (fuel + 1) value machine)
  cases value with
  | none =>
    rw [evaluateOr]
    exact .pure stands.fits trivial
  | some value =>
    rw [evaluateOr]
    exact kept _ rfl (proper.closed reached .optional)
      (stands_of_enters proper kept .optional rfl reached stands)

theorem keeps_statements {forms : List Stmt} {machine : Machine}
    (reached : past.moments ⟨fuel + 1, .statements forms, machine⟩)
    (stands : Moment.Stands past ⟨fuel + 1, .statements forms, machine⟩) :
    Moment.Keeps past ⟨fuel + 1, .statements forms, machine⟩ := by
  have inner : ∀ {after : Moment}, Enters ⟨fuel + 1, .statements forms, machine⟩ after →
      after.fuel = fuel → after.Keeps past := fun enters isFuel =>
    kept _ isFuel (proper.closed reached enters)
      (stands_of_enters proper (isFuel ▸ kept) enters rfl reached stands)
  show Keeps past machine _ (executeAll (fuel + 1) forms machine)
  cases forms with
  | nil =>
    rw [executeAll]
    exact .pure stands.fits nofun
  | cons first rest =>
    rw [executeAll]
    refine Keeps.bind (inner .firstStatement rfl) fun flow later done follows good => ?_
    cases flow with
    | returned value => exact .pure follows.fits good.1
    | normal => exact inner (.otherStatements done) rfl

/-- **A round of a loop keeps the machine fit, if its parts and the rounds after it do.** -/
theorem keeps_loop {condition : Expr} {body : Stmt} {machine : Machine}
    (reached : past.moments ⟨fuel + 1, .loop condition body, machine⟩)
    (stands : Moment.Stands past ⟨fuel + 1, .loop condition body, machine⟩) :
    Moment.Keeps past ⟨fuel + 1, .loop condition body, machine⟩ := by
  have inner : ∀ {after : Moment}, Enters ⟨fuel + 1, .loop condition body, machine⟩ after →
      after.fuel = fuel → after.Keeps past := fun enters isFuel =>
    kept _ isFuel (proper.closed reached enters)
      (stands_of_enters proper (isFuel ▸ kept) enters rfl reached stands)
  show Keeps past machine _ (repeatWhile (fuel + 1) condition body machine)
  rw [repeatWhile]
  refine Keeps.bind (inner .loopCondition rfl) fun decision middle done follows _ => ?_
  cases truthy : decision.truthy with
  | false => exact .pure follows.fits nofun
  | true =>
    refine Keeps.bind (inner (.loopBody done truthy) rfl) fun flow later doneBody follows good => ?_
    cases flow with
    | returned value => exact .pure follows.fits good.1
    | normal => exact inner (.loopAgain done truthy doneBody) rfl

end

/-! ### All moments -/

section

variable {past : Past} (proper : past.Proper)

include proper

/-- **Where a moment stands, its outcome keeps the machine fit.** -/
theorem keeps (moment : Moment) (reached : past.moments moment) (stands : moment.Stands past) :
    moment.Keeps past := by
  obtain ⟨fuel, errand, machine⟩ := moment
  -- the fuel bounds the depth of the recursion, which is what the induction is on
  induction fuel generalizing errand machine with
  | zero =>
    cases errand with
    | assignment => exact keeps_assignVariable stands.fits stands.errand.2
    | _ => trivial
  | succ fuel ih =>
    have kept : ∀ moment : Moment, moment.fuel = fuel → past.moments moment → moment.Stands past →
        moment.Keeps past := by
      rintro ⟨_, errand, machine⟩ rfl reached stands
      exact ih errand machine reached stands
    cases errand with
    | expression => exact keeps_expression proper kept reached stands
    | arguments => exact keeps_arguments proper kept reached stands
    | call => exact keeps_call proper kept reached stands
    | assignment => exact keeps_assignVariable stands.fits stands.errand.2
    | statement => exact keeps_statement proper kept reached stands
    | optional => exact keeps_optional proper kept reached stands
    | statements => exact keeps_statements proper kept reached stands
    | loop => exact keeps_loop proper kept reached stands
    | program => trivial

/-- **Where a moment stands, so do all moments that it reaches.** -/
theorem stands_of_reaches {first last : Moment} (reaches : Reaches first last)
    (reached : past.moments first) (stands : first.Stands past) : last.Stands past := by
  suffices both : past.moments last ∧ last.Stands past from both.2
  induction reaches with
  | refl => exact ⟨reached, stands⟩
  | tail _ enters ih =>
    exact ⟨proper.closed ih.1 enters,
      stands_of_enters proper (fun moment _ => keeps proper moment) enters rfl ih.1 ih.2⟩

/-- **A program keeps the machine fit, wherever it ends.** -/
theorem keeps_interpret {fuel : Nat} {forms : List Stmt} {machine : Machine}
    (reached : past.moments ⟨fuel, .program forms, machine⟩)
    (stands : Moment.Stands past ⟨fuel, .program forms, machine⟩) :
    Keeps past machine (fun _ _ => True) (interpret fuel forms machine) := by
  induction forms generalizing machine with
  | nil => exact .pure stands.fits trivial
  | cons first rest ih =>
    have entered : ∀ {after : Moment}, Enters ⟨fuel, .program (first :: rest), machine⟩ after →
        past.moments after ∧ after.Stands past := fun enters =>
      ⟨proper.closed reached enters,
        stands_of_enters proper (fun moment _ => keeps proper moment) enters rfl reached stands⟩
    obtain ⟨toFirst, firstStands⟩ := entered .programStatement
    rw [interpret]
    refine Keeps.bind (keeps proper _ toFirst firstStands) fun flow later done follows _ => ?_
    cases flow with
    | returned => exact .pure follows.fits trivial
    | normal =>
      obtain ⟨toRest, restStands⟩ := entered (.restOfProgram done)
      exact ih toRest restStands

end

end Lox
