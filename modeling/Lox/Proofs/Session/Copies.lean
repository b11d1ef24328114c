/-
**How values are copied.**

* `Past.Copies past original copy` — at some moment, or from one text to the next, a value is
  copied: through a variable that is read, declared or assigned, or that nothing binds again;
  through a parameter or a `return`; into the scope that a block or the body of a function is run
  in; or by a session.
* `Past.Copies.eq` — a copy is the same value.
* `Past.Stems past maker value` — by any number of copies the value comes from the function that is
  made at a moment, and so is that function (`Past.stems_iff`).
-/

import Lox.Proofs.Evaluation.Footprint
import Lox.Proofs.Evaluation.Kept
import Lox.Proofs.Evaluation.Rooted
import Lox.Proofs.Session.Returns

namespace Lox

/-! ### Reading and binding -/

namespace Store

variable {store : Store}

/-- What is found going outward is bound in the nearest scope that binds the name. -/
theorem getWithin_eq (name : String) (steps : Nat) (scope : ScopeId) :
    store.getWithin name steps scope =
      (store.holderWithin name steps scope).bind fun holder => store.local? holder name := by
  induction steps generalizing scope with
  | zero => rfl
  | succ steps ih =>
    unfold getWithin holderWithin
    cases bound : store.local? scope name with
    | some value => simp [bound]
    | none =>
      simp only [Option.isSome_none, Bool.false_eq_true, ↓reduceIte, Option.bind_assoc]
      exact congrArg _ (funext ih)

/-- The last of the bindings of a name is the one that counts. -/
theorem local?_defineAll_last {scope : ScopeId} (there : (store.scope? scope).isSome)
    (before : List (String × Value)) {after : List (String × Value)} {name : String} {value : Value}
    (last : ∀ binding ∈ after, binding.1 ≠ name) :
    (store.defineAll scope (before ++ (name, value) :: after)).local? scope name = some value := by
  unfold defineAll
  induction before generalizing store with
  | nil =>
    rw [List.nil_append, List.foldl_cons]
    have bound : (store.define scope name value).local? scope name = some value := by
      rw [local?_define, if_pos ⟨rfl, rfl, there⟩]
    generalize store.define scope name value = next at bound
    induction after generalizing next with
    | nil => exact bound
    | cons binding after ih =>
      rw [List.foldl_cons]
      refine ih (fun other isOther => last other (List.mem_cons_of_mem _ isOther)) _ ?_
      rw [local?_define, if_neg fun same => last binding List.mem_cons_self same.2.1.symm]
      exact bound
  | cons binding before ih =>
    rw [List.cons_append, List.foldl_cons]
    exact ih ((isSome_scope?_define _ _ _ _ _).trans there)

end Store

/-- A variable is read where it would be assigned. -/
theorem Machine.valueAt?_eq (machine : Machine) (node : NodeId) (name : String) :
    machine.valueAt? node name =
      (machine.targetOf? node name).bind fun target => machine.store.local? target name := by
  unfold valueAt? targetOf?
  cases machine.distances.get? node with
  | some distance => rfl
  | none => exact Store.getWithin_eq name _ _

/-- A `return` in statements that other statements run into ends those as well. -/
theorem RunsInto.returns {outer inner : Moment} {result : Value} {later : Machine}
    (runsInto : RunsInto outer inner) (returns : inner.Returns result later) :
    ∃ last, outer.Returns result last := by
  obtain ⟨enters, outerRuns, -⟩ := runsInto
  cases passes_of_enters enters returns with
  | outward last _ outerReturns => exact ⟨last, outerReturns⟩
  | toCall activation isCall =>
    subst isCall
    cases outerRuns
  | toProgram isProgram =>
    subst isProgram
    cases outerRuns

theorem returns_of_runsInto {outer inner : Moment} {result : Value} {later : Machine}
    (runsInto : Relation.ReflTransGen RunsInto outer inner) (returns : inner.Returns result later) :
    ∃ last, outer.Returns result last := by
  induction runsInto using Relation.ReflTransGen.head_induction_on with
  | refl => exact ⟨later, returns⟩
  | head runs _ ih =>
    obtain ⟨last, returned⟩ := ih
    exact runs.returns returned

/-- The value of a call is what its body returns. -/
theorem Activation.eq_of_returns (activation : Activation) {result value : Value}
    {last later : Machine} (returns : activation.body.Returns result last)
    (ended : activation.call.outcome = .done [value] later) :
    value = result := by
  obtain ⟨fuel, closure, closing, arguments, machine⟩ := activation
  cases returns with
  | statements returned =>
    simp only [call, Moment.outcome, callValue_function] at ended
    cases checked : Run.checkCall closing closure.body.arity arguments.length machine with
    | done _ between =>
      obtain ⟨-, rfl⟩ := Run.of_checkCall_done checked
      simp only [checked, returned] at ended
      cases ended
      rfl
    | failed | outOfFuel =>
      simp only [checked] at ended
      cases ended

/-! ### Copies -/

/-- The second value is what the first one has become somewhere by being copied. -/
inductive Past.Copies (past : Past) : Value → Value → Prop
  /-- A variable is read. -/
  | read {fuel : Nat} {node : NodeId} {name : Token} {machine later : Machine} {holder : ScopeId}
      {original copy : Value} :
      past.moments ⟨fuel, .expression (.variable node name), machine⟩ →
      machine.targetOf? node name.lexeme = some holder →
      machine.store.local? holder name.lexeme = some original →
      Moment.outcome ⟨fuel, .expression (.variable node name), machine⟩ = .done [copy] later →
      Copies past original copy
  /-- A variable is assigned, and is bound to the value from then on. -/
  | assigned {fuel : Nat} {node : NodeId} {name : Token} {machine later : Machine}
      {target : ScopeId} {original copy : Value} :
      past.moments ⟨fuel, .assignment node name original, machine⟩ →
      machine.targetOf? node name.lexeme = some target →
      Moment.outcome ⟨fuel, .assignment node name original, machine⟩ = .done [] later →
      later.store.local? target name.lexeme = some copy → Copies past original copy
  /-- An assignment has a value itself. -/
  | assignment {fuel : Nat} {node : NodeId} {name : Token} {value : Expr}
      {machine between later : Machine} {original copy : Value} :
      past.moments ⟨fuel + 1, .expression (.assign node name value), machine⟩ →
      evaluate fuel value machine = .done original between →
      Moment.outcome ⟨fuel + 1, .expression (.assign node name value), machine⟩ =
        .done [copy] later →
      Copies past original copy
  /-- A variable is declared. -/
  | declared {fuel : Nat} {name : Token} {value : Option Expr} {machine between later : Machine}
      {original copy : Value} :
      past.moments ⟨fuel + 1, .statement (.var name value), machine⟩ →
      evaluateOr fuel value machine = .done original between →
      Moment.outcome ⟨fuel + 1, .statement (.var name value), machine⟩ = .done [] later →
      later.store.local? later.scope name.lexeme = some copy → Copies past original copy
  /-- An argument is bound to the parameter in its place, unless a later
  parameter has the same name. -/
  | parameter {fuel : Nat} {closure : Closure} {closing name : Token} {machine : Machine}
      {inner : Moment}
      {before after : List Token} {earlier others : List Value} {original copy : Value} :
      past.moments ⟨fuel, .call (.function closure) closing (earlier ++ original :: others),
        machine⟩ →
      Enters ⟨fuel, .call (.function closure) closing (earlier ++ original :: others),
        machine⟩ inner →
      closure.body.parameters = before ++ name :: after → before.length = earlier.length →
      (∀ other ∈ after, other.lexeme ≠ name.lexeme) →
      inner.machine.store.local? inner.machine.scope name.lexeme = some copy →
      Copies past original copy
  /-- The value of a `return`, however deep it stands in the statements of a
  body, is that of the call. -/
  | returned (activation : Activation) {fuel : Nat} {keyword : Token} {value : Option Expr}
      {machine between later : Machine} {original copy : Value} :
      past.moments activation.call →
      Relation.ReflTransGen RunsInto activation.body
        ⟨fuel + 1, .statement (.return keyword value), machine⟩ →
      evaluateOr fuel value machine = .done original between →
      activation.call.outcome = .done [copy] later → Copies past original copy
  /-- What is bound in any scope is still bound there when a block or the body of a function
  begins. -/
  | inside {outer inner : Moment} {scope : ScopeId} {name : String} {original copy : Value} :
      past.moments outer → Enters outer inner → outer.errand.opensScope = true →
      outer.machine.store.local? scope name = some original →
      inner.machine.store.local? scope name = some copy →
      Copies past original copy
  /-- A variable that is not bound again keeps its value, whatever else is evaluated. -/
  | spared {moment : Moment} {later : Machine} {scope : ScopeId} {name : String}
      {original copy : Value} :
      past.moments moment → moment.Spares scope name → moment.outcome.state? = some later →
      moment.machine.store.local? scope name = some original →
      later.store.local? scope name = some copy →
      Copies past original copy
  /-- A text begins to be run with what is bound in the session, -/
  | begun {session : Session} {request : Request} {root : Site} {start : Moment}
      {next : Nat} {scope : ScopeId} {name : String} {original copy : Value} :
      session.Begins request root start next →
      session.machine.store.local? scope name = some original →
      start.machine.store.local? scope name = some copy → Copies past original copy
  /-- leaves to the session what is bound at the end, -/
  | ended {session later : Session} {request : Request} {root : Site} {start : Moment} {next : Nat}
      {last : Machine} {scope : ScopeId} {name : String} {original copy : Value} :
      session.Begins request root start next → session.Ends request later →
      start.outcome.state? = some last →
      last.store.local? scope name = some original →
      later.machine.store.local? scope name = some copy →
      Copies past original copy
  /-- and, if it is an expression, hands out its value. -/
  | handed {session later : Session} {fuel : Nat} {source : String} {root : Site}
      {start : Moment} {next : Nat} {last : Machine} {original copy : Value} :
      session.Begins (.evaluate fuel source) root start next →
      start.outcome = .done [original] last →
      Session.evaluate fuel source session = .done copy later → Copies past original copy
  /-- A global variable is set by a session. -/
  | set {session : Session} {name : String} {original copy : Value} :
      (session.defineGlobal name original).machine.store.local? session.machine.globals name =
        some copy →
      Copies past original copy
  /-- A text that is refused leaves alone what is bound. -/
  | refused {session later : Session} {request : Request} {scope : ScopeId}
      {name : String} {original copy : Value} :
      session.Refuses request later → session.machine.store.local? scope name = some original →
      later.machine.store.local? scope name = some copy → Copies past original copy

namespace Past

variable {past : Past}

/-- What is preserved is the same. -/
theorem eq_of_preserves {store later : Store} {scope : ScopeId} {name : String}
    {original copy : Value} (preserves : store.Preserves scope name later)
    (bound : store.local? scope name = some original)
    (isCopy : later.local? scope name = some copy) : copy = original := by
  have same := (preserves (Store.isSome_of_local? bound)).2
  rw [bound, isCopy] at same
  exact Option.some.inj same

/-- A name that is bound is bound to the value. -/
theorem eq_of_define {store : Store} {target : ScopeId} {name : String} {original copy : Value}
    (isCopy : (store.define target name original).local? target name = some copy) :
    copy = original := by
  have there := Store.isSome_of_local? isCopy
  rw [Store.isSome_scope?_define] at there
  rw [Store.local?_define, if_pos ⟨rfl, rfl, there⟩] at isCopy
  exact (Option.some.inj isCopy).symm

/-- **A copy is the same value.** -/
theorem Copies.eq {original copy : Value} (copies : past.Copies original copy) :
    copy = original := by
  cases copies with
  | @read fuel node name machine _ _ _ _ _ found bound ended =>
    have isRead : machine.valueAt? node name.lexeme = some original := by
      rw [Machine.valueAt?_eq, found]
      exact bound
    cases fuel with
    | zero => cases ended
    | succ fuel =>
      simp only [Moment.outcome, evaluate, Run.readVariable, isRead] at ended
      cases ended
      rfl
  | assigned _ found ended isCopy =>
    simp only [Moment.outcome, Run.assignVariable, found] at ended
    cases ended
    exact eq_of_define isCopy
  | @assignment _ _ _ _ _ between _ _ _ _ done ended =>
    simp only [Moment.outcome, evaluate, Step.bind_apply, done] at ended
    unfold Run.assignVariable at ended
    split at ended
    · rename_i assigned
      split at assigned <;> cases assigned
      cases ended
      rfl
    · cases ended
    · cases ended
  | declared _ done ended isCopy =>
    simp only [Moment.outcome, execute, Step.bind_apply, done] at ended
    cases ended
    exact eq_of_define isCopy
  | parameter _ enters isParameters same last isCopy =>
    cases enters with
    | body =>
      unfold Machine.inBody at isCopy
      dsimp only at isCopy
      rw [isParameters, List.map_append, List.map_cons,
        List.zip_append (by rw [List.length_map, same]), List.zip_cons_cons,
        Store.local?_defineAll_last (Store.opens_add _ _).2] at isCopy
      · exact (Option.some.inj isCopy).symm
      · rintro ⟨other, _⟩ isOther
        obtain ⟨token, isToken, rfl⟩ := List.mem_map.mp (List.of_mem_zip isOther).1
        exact last token isToken
  | @returned activation fuel keyword value machine between later _ _ _ runs done ended =>
    have returns : Moment.Returns ⟨fuel + 1, .statement (.return keyword value), machine⟩
        original between := by
      refine .statement ?_
      rw [execute.eq_def]
      dsimp only
      rw [Step.bind_apply, done]
      rfl
    obtain ⟨last, bodyReturns⟩ := returns_of_runsInto runs returns
    exact activation.eq_of_returns bodyReturns ended
  | inside _ enters opens bound isCopy =>
    refine eq_of_preserves ?_ bound isCopy
    cases enters with
    | block => exact .add _
    | body => exact .inBody _ _ _
    | _ => cases opens
  | spared _ spares ended bound isCopy =>
    exact eq_of_preserves (Moment.preserves _ _ _ spares _ ended).2 bound isCopy
  | begun begins bound isCopy =>
    rw [begins.accepts.2] at isCopy
    exact Option.some.inj (isCopy.symm.trans bound)
  | ended begins ends left bound isCopy =>
    cases left.symm.trans (begins.state?_of_ends ends)
    exact Option.some.inj (isCopy.symm.trans bound)
  | handed begins ended done =>
    cases begins with
    | evaluate read resolved =>
      rw [Session.evaluate_of_read read resolved] at done
      simp only [Moment.outcome, Session.done_of_onMachine done] at ended
      cases ended
      rfl
  | set isCopy => exact eq_of_define isCopy
  | refused refuses bound isCopy =>
    rw [refuses.same.1] at isCopy
    exact Option.some.inj (isCopy.symm.trans bound)

theorem eq_of_copies {original copy : Value}
    (copies : Relation.ReflTransGen past.Copies original copy) :
    copy = original := by
  induction copies with
  | refl => rfl
  | tail _ copies ih => exact copies.eq.trans ih

/-- By any number of copies, the value comes from the function that is made at the moment. -/
def Stems (past : Past) (maker : Moment) (value : Value) : Prop :=
  past.moments maker ∧ ∃ closure, Makes maker closure ∧
    Relation.ReflTransGen past.Copies (.function closure) value

/-- A value that stems from a moment is the function that is made there. -/
theorem stems_iff {maker : Moment} {value : Value} :
    past.Stems maker value ↔ past.moments maker ∧ ∃ closure, Makes maker closure ∧
      value = .function closure := by
  refine and_congr_right fun _ => exists_congr fun closure => and_congr_right fun _ => ?_
  refine ⟨eq_of_copies, ?_⟩
  rintro rfl
  exact .refl

end Past

end Lox
