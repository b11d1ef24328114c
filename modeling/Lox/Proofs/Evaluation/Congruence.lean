/-
**What two evaluations of the same code have in common.**

* `Run.Congruence related` — a relation between computations: each operation on a machine is
  related to itself, and sequences, computations in a scope and computations in a call are
  related if their parts are.
* `Run.Congruence.evaluation` — evaluating something with some fuel is then related to
  evaluating it with more, if that is so for no fuel. The induction over evaluation is made
  here, once for all such relations.
* `Run.Continued` — a computation ends as another one does whenever that one ends.
  `evaluation_continued`: what ends with some fuel ends alike with more.
-/

import Lox.Evaluation

namespace Lox

/-! ### Congruences -/

/-- Each operation is related to itself, and what is put together of related
computations is related. -/
structure Run.Congruence (related : ∀ {α : Type}, Run α → Run α → Prop) : Prop where
  pure : ∀ {α : Type} (value : α), related (pure value) (pure value)
  raise : ∀ {α : Type} token fault, related (Run.raise token fault : Run α) (Run.raise token fault)
  bind : ∀ {α β : Type} {first first' : Run α} {next next' : α → Run β}, related first first' →
    (∀ value, related (next value) (next' value)) → related (first >>= next) (first' >>= next')
  readVariable : ∀ node name, related (Run.readVariable node name) (Run.readVariable node name)
  assignVariable : ∀ node name value,
    related (Run.assignVariable node name value) (Run.assignVariable node name value)
  declare : ∀ name value, related (Run.declare name value) (Run.declare name value)
  makeFunction : ∀ name body, related (Run.makeFunction name body) (Run.makeFunction name body)
  readClock : related Run.readClock Run.readClock
  print : ∀ keyword value, related (Run.print keyword value) (Run.print keyword value)
  currentScope : related (Step.view Machine.scope : Run ScopeId) (Step.view Machine.scope)
  openScope : ∀ enclosing, related (Run.openScope enclosing) (Run.openScope enclosing)
  defineAll : ∀ scope bindings,
    related (Run.defineAll scope bindings) (Run.defineAll scope bindings)
  checkCall : ∀ closing arity arguments,
    related (Run.checkCall closing arity arguments) (Run.checkCall closing arity arguments)
  inScope : ∀ {α : Type} scope {body body' : Run α}, related body body' →
    related (Run.inScope scope body) (Run.inScope scope body')
  inCall : ∀ {α : Type} {body body' : Run α}, related body body' →
    related (Run.inCall body) (Run.inCall body')

/-- Evaluating anything with the one fuel is related to evaluating it with the other. -/
structure EvaluationRelated (related : ∀ {α : Type}, Run α → Run α → Prop) (fuel other : Nat) :
    Prop where
  evaluate : ∀ value, related (Lox.evaluate fuel value) (Lox.evaluate other value)
  evaluateAll : ∀ values, related (Lox.evaluateAll fuel values) (Lox.evaluateAll other values)
  evaluateOr : ∀ value, related (Lox.evaluateOr fuel value) (Lox.evaluateOr other value)
  callValue : ∀ callee closing arguments,
    related (Lox.callValue fuel callee closing arguments)
      (Lox.callValue other callee closing arguments)
  execute : ∀ form, related (Lox.execute fuel form) (Lox.execute other form)
  executeAll : ∀ forms, related (Lox.executeAll fuel forms) (Lox.executeAll other forms)
  repeatWhile : ∀ condition body,
    related (Lox.repeatWhile fuel condition body) (Lox.repeatWhile other condition body)

namespace Run.Congruence

variable {related : ∀ {α : Type}, Run α → Run α → Prop} (congruence : Run.Congruence related)

include congruence

section

variable {α : Type}

theorem orRaise (token : Token) (result : Except Fault α) :
    related (Run.orRaise token result) (Run.orRaise token result) := by
  cases result with
  | ok value => exact congruence.pure value
  | error fault => exact congruence.raise token fault

/-- A native function at work. -/
theorem native (known : Native) (closing : Token) (arguments : List Value) :
    related (known.run closing arguments) (known.run closing arguments) :=
  congruence.bind congruence.readClock fun _ => congruence.orRaise closing _

omit congruence in
theorem ite {condition : Prop} [Decidable condition] {yes yes' no no' : Run α}
    (holds : related yes yes') (otherwise : related no no') :
    related (if condition then yes else no) (if condition then yes' else no') := by
  by_cases decision : condition
  · rw [if_pos decision, if_pos decision]
    exact holds
  · rw [if_neg decision, if_neg decision]
    exact otherwise

end

/-! ### Evaluation -/

section

variable {fuel other : Nat} (ih : EvaluationRelated related fuel other)

include ih

theorem expression (value : Expr) :
    related (evaluate (fuel + 1) value) (evaluate (other + 1) value) := by
  rw [evaluate.eq_def, evaluate.eq_def (other + 1)]
  cases value with
  | literal value => exact congruence.pure _
  | grouping inner => exact ih.evaluate inner
  | unary operator right =>
    exact congruence.bind (ih.evaluate right) fun operand => congruence.orRaise operator _
  | binary left operator right =>
    exact congruence.bind (ih.evaluate left) fun first => congruence.bind (ih.evaluate right)
        fun second =>
      congruence.orRaise operator _
  | logical left operator right =>
    exact congruence.bind (ih.evaluate left) fun first =>
      ite (congruence.pure first)
        (congruence.bind (ih.evaluate right) fun second => congruence.pure _)
  | ternary condition question yes no =>
    exact congruence.bind (ih.evaluate condition) fun decision =>
      ite (ih.evaluate yes) (ih.evaluate no)
  | «variable» node name => exact congruence.readVariable node name
  | assign node name value =>
    exact congruence.bind (ih.evaluate value) fun assigned =>
      congruence.bind (congruence.assignVariable node name assigned)
        fun _ => congruence.pure assigned
  | call callee arguments closing =>
    exact congruence.bind (ih.evaluate callee) fun function =>
      congruence.bind (ih.evaluateAll arguments) fun values => ih.callValue function closing values
  | lambda keyword function => exact congruence.makeFunction none function

theorem expressions (values : List Expr) :
    related (evaluateAll (fuel + 1) values) (evaluateAll (other + 1) values) := by
  cases values with
  | nil => exact congruence.pure []
  | cons first rest =>
    exact congruence.bind (ih.evaluate first) fun value =>
      congruence.bind (ih.evaluateAll rest) fun values => congruence.pure _

theorem optional (value : Option Expr) :
    related (evaluateOr (fuel + 1) value) (evaluateOr (other + 1) value) := by
  cases value with
  | none => exact congruence.pure Value.nil
  | some value => exact ih.evaluate value

theorem call (callee : Value) (closing : Token) (arguments : List Value) :
    related (callValue (fuel + 1) callee closing arguments)
      (callValue (other + 1) callee closing arguments) := by
  cases callee with
  | native known =>
    exact congruence.bind (congruence.checkCall closing _ _) fun _ =>
      congruence.inCall (congruence.native known closing arguments)
  | function closure =>
    exact congruence.bind (congruence.checkCall closing _ _) fun _ => congruence.inCall <|
      congruence.bind (congruence.openScope closure.scope) fun scope =>
        congruence.bind (congruence.defineAll scope _) fun _ =>
          congruence.bind (congruence.inScope scope (ih.executeAll _))
            fun flow => congruence.pure flow.value
  | _ => exact congruence.raise closing .notCallable

theorem statement (form : Stmt) : related (execute (fuel + 1) form) (execute (other + 1) form) := by
  rw [execute.eq_def, execute.eq_def (other + 1)]
  cases form with
  | expression value => exact congruence.bind (ih.evaluate value) fun _ => congruence.pure _
  | print keyword value =>
    exact congruence.bind (ih.evaluate value) fun printed =>
      congruence.bind (congruence.print keyword printed) fun _ => congruence.pure _
  | var name initializer =>
    exact congruence.bind (ih.evaluateOr initializer) fun value =>
      congruence.bind (congruence.declare name value) fun _ => congruence.pure _
  | block forms =>
    exact congruence.bind congruence.currentScope fun current =>
      congruence.bind (congruence.openScope current)
        fun scope => congruence.inScope scope (ih.executeAll forms)
  | «if» condition yes no =>
    refine congruence.bind (ih.evaluate condition) fun decision => ite (ih.execute yes) ?_
    cases no with
    | none => exact congruence.pure _
    | some no => exact ih.execute no
  | «while» condition body => exact ih.repeatWhile condition body
  | function name function =>
    exact congruence.bind (congruence.makeFunction _ function) fun value =>
      congruence.bind (congruence.declare name value) fun _ => congruence.pure _
  | «return» keyword value =>
    exact congruence.bind (ih.evaluateOr value) fun value => congruence.pure _

theorem statements (forms : List Stmt) :
    related (executeAll (fuel + 1) forms) (executeAll (other + 1) forms) := by
  cases forms with
  | nil => exact congruence.pure Flow.normal
  | cons first rest =>
    refine congruence.bind (ih.execute first) fun flow => ?_
    cases flow with
    | normal => exact ih.executeAll rest
    | returned value => exact congruence.pure _

theorem loop (condition : Expr) (body : Stmt) :
    related (repeatWhile (fuel + 1) condition body) (repeatWhile (other + 1) condition body) := by
  refine congruence.bind (ih.evaluate condition) fun decision =>
    ite (congruence.bind (ih.execute body) fun flow => ?_) (congruence.pure _)
  cases flow with
  | normal => exact ih.repeatWhile condition body
  | returned value => exact congruence.pure _

end

/-- **Evaluation with some fuel is related to evaluation with more,** if that is so for no fuel. -/
theorem evaluation {more : Nat} (start : EvaluationRelated related 0 more) (fuel : Nat) :
    EvaluationRelated related fuel (more + fuel) := by
  induction fuel with
  | zero => exact start
  | succ fuel ih =>
    exact ⟨congruence.expression ih, congruence.expressions ih, congruence.optional ih,
      congruence.call ih, congruence.statement ih, congruence.statements ih, congruence.loop ih⟩

/-- A relation that holds of computations without fuel holds of all evaluation with the same
fuel. -/
theorem evaluation_same (exhausted : ∀ {α : Type}, related (Step.exhausted : Run α) Step.exhausted)
    (fuel : Nat) :
    EvaluationRelated related fuel fuel := by
  have start : EvaluationRelated related 0 0 :=
    ⟨fun _ => exhausted, fun _ => exhausted, fun _ => exhausted, fun _ _ _ => exhausted,
      fun _ => exhausted, fun _ => exhausted, fun _ _ => exhausted⟩
  have all := congruence.evaluation start fuel
  rwa [Nat.zero_add] at all

theorem interpret {fuel other : Nat} (all : EvaluationRelated related fuel other)
    (program : List Stmt) :
    related (interpret fuel program) (interpret other program) := by
  induction program with
  | nil => exact congruence.pure ()
  | cons first rest ih =>
    refine congruence.bind (all.execute first) fun flow => ?_
    cases flow with
    | normal => exact ih
    | returned value => exact congruence.pure _

end Run.Congruence

/-! ### More fuel -/

/-- Whenever the first computation ends, the second one ends alike. -/
def Run.Continued {α : Type} (body longer : Run α) : Prop :=
  ∀ machine, body machine ≠ .outOfFuel → longer machine = body machine

theorem Run.continued_congruence : Run.Congruence Run.Continued where
  pure _ _ _ := rfl
  raise _ _ _ _ := rfl
  bind := by
    intro α β first first' next next' same rest machine ends
    rw [Step.bind_apply] at ends ⊢
    rw [Step.bind_apply]
    cases ran : first machine with
    | done value later =>
      rw [ran] at ends
      rw [same machine (by rw [ran]; nofun), ran]
      exact rest value later ends
    | failed error later => rw [same machine (by rw [ran]; nofun), ran]
    | outOfFuel =>
      rw [ran] at ends
      exact absurd rfl ends
  readVariable _ _ _ _ := rfl
  assignVariable _ _ _ _ _ := rfl
  declare _ _ _ _ := rfl
  makeFunction _ _ _ _ := rfl
  readClock _ _ := rfl
  print _ _ _ _ := rfl
  currentScope _ _ := rfl
  openScope _ _ _ := rfl
  defineAll _ _ _ _ := rfl
  checkCall _ _ _ _ _ := rfl
  inScope := by
    intro α scope body body' same machine ends
    unfold Run.inScope at ends ⊢
    rw [same]
    intro exhausted
    rw [exhausted] at ends
    exact ends rfl
  inCall := by
    intro α body body' same machine ends
    unfold Run.inCall at ends ⊢
    rw [same]
    intro exhausted
    rw [exhausted] at ends
    exact ends rfl

/-- **What ends with some fuel ends alike with more.** -/
theorem evaluation_continued {fuel other : Nat} (enough : fuel ≤ other) :
    EvaluationRelated Run.Continued fuel other := by
  obtain ⟨more, rfl⟩ := Nat.exists_eq_add_of_le enough
  rw [Nat.add_comm]
  have start {α : Type} (longer : Run α) : Run.Continued Step.exhausted longer :=
    fun _ ends => absurd rfl ends
  exact Run.continued_congruence.evaluation ⟨fun _ => start _, fun _ => start _, fun _ => start _,
    fun _ _ _ => start _, fun _ => start _, fun _ => start _, fun _ _ => start _⟩ fuel

end Lox
