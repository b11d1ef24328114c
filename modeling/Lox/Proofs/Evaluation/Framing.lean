/-
**What evaluation leaves as it was, whatever it does besides.**

* `Step.Stays relation body` — whenever `body` ends, be it with a value or an error, the
  state it leaves is related to the one it began in. Where the relation is transitive,
  sequences stay if their parts do.
* `Machine.Frame relation` — the relation does not look at what evaluation changes: the store, the
  clock, the identities of functions, which are counted up, and lines that are added to the output.
  The scope and the depth may be changed if they are put back. The sink, for one, is never changed
  (`Machine.SameSink`).
* `framed` — evaluation stays in every such relation. One lemma for each operation on a machine;
  together they are a congruence (`framed_congruence`), so that all of evaluation stays, over all
  trees, parsed or not.
* `Enters.framed` — so the relation holds from each moment on up to where another one is entered;
  and if it also holds between a machine and a block or a body that begins in it, it holds along a
  whole run (`Reaches.framed`).
-/

import Lox.Proofs.Evaluation.Congruence
import Lox.Proofs.Evaluation.Moments
import Lox.Proofs.Grammar.Numbering
import Mathlib.Order.Defs.Unbundled

namespace Lox

/-! ### What a computation leaves -/

/-- Whenever the computation ends, the state it leaves is related to the state it began in. -/
def Step.Stays {σ ε α : Type} (relation : σ → σ → Prop) (body : Step σ ε α) : Prop :=
  ∀ state later, (body state).state? = some later → relation state later

namespace Step.Stays

variable {σ ε α β : Type} {relation : σ → σ → Prop}

theorem exhausted : Step.Stays relation (Step.exhausted : Step σ ε α) :=
  fun _ _ => nofun

theorem pure [Std.Refl relation] (value : α) : Step.Stays relation (pure value : Step σ ε α) := by
  intro state later left
  cases left
  exact Std.Refl.refl state

theorem fail [Std.Refl relation] (error : ε) :
    Step.Stays relation (Step.fail error : Step σ ε α) := by
  intro state later left
  cases left
  exact Std.Refl.refl state

theorem view [Std.Refl relation] (read : σ → α) :
    Step.Stays relation (Step.view read : Step σ ε α) := by
  intro state later left
  cases left
  exact Std.Refl.refl state

theorem update {change : σ → σ} (stays : ∀ state, relation state (change state)) :
    Step.Stays relation (Step.update change : Step σ ε Unit) := by
  intro state later left
  cases left
  exact stays state

theorem bind [IsTrans σ relation] {first : Step σ ε β} {next : β → Step σ ε α}
    (stays : Step.Stays relation first) (rest : ∀ value, Step.Stays relation (next value)) :
    Step.Stays relation (first >>= next) := by
  intro state later left
  have before := stays state
  rw [Step.bind_apply] at left
  cases ran : first state with
  | done value between =>
    rw [ran] at left before
    exact IsTrans.trans _ _ _ (before between rfl) (rest value between later left)
  | failed error between =>
    rw [ran] at left before
    exact before later left
  | outOfFuel =>
    rw [ran] at left
    cases left

theorem ite {condition : Prop} [Decidable condition] {yes no : Step σ ε α}
    (stays : Step.Stays relation yes) (otherwise : Step.Stays relation no) :
    Step.Stays relation (if condition then yes else no) := by
  by_cases holds : condition
  · rw [if_pos holds]
    exact stays
  · rw [if_neg holds]
    exact otherwise

end Step.Stays

/-! ### Frames -/

/-- The relation holds between a machine and what evaluation makes of it, since it does not look at
what evaluation changes for good. -/
class Machine.Frame (relation : Machine → Machine → Prop) : Prop extends
    Std.Refl relation, IsTrans Machine relation where
  store : ∀ (machine : Machine) (store : Store), relation machine { machine with store := store }
  line : ∀ (machine : Machine) (text : String),
    relation machine { machine with output := machine.output ++ text ++ "\n" }
  ticks : ∀ (machine : Machine) (ticks : Nat), relation machine { machine with ticks := ticks }
  nextFunction : ∀ machine : Machine,
    relation machine { machine with nextFunction := machine.nextFunction + 1 }
  /-- The scope may be another one in between. -/
  scope : ∀ (machine later : Machine) (scope : ScopeId),
    relation { machine with scope := scope } later →
    relation machine { later with scope := machine.scope }
  /-- One more call may be in progress in between. -/
  depth : ∀ (machine later : Machine), relation { machine with depth := machine.depth + 1 } later →
    relation machine { later with depth := later.depth - 1 }

/-- The sink of a machine stays as it is. -/
def Machine.SameSink (machine later : Machine) : Prop :=
  later.sink = machine.sink

instance : Machine.Frame Machine.SameSink where
  refl _ := rfl
  trans _ _ _ first second := second.trans first
  store _ _ := rfl
  line _ _ := rfl
  ticks _ _ := rfl
  nextFunction _ := rfl
  scope _ _ _ same := same
  depth _ _ same := same

namespace Step.Stays

variable {α : Type} {relation : Machine → Machine → Prop} [Machine.Frame relation]

theorem orRaise (token : Token) (result : Except Fault α) :
    Step.Stays relation (Run.orRaise token result) := by
  cases result with
  | ok value => exact .pure value
  | error fault => exact .fail _

theorem readVariable (node : NodeId) (name : Token) :
    Step.Stays relation (Run.readVariable node name) := by
  intro machine later left
  unfold Run.readVariable at left
  split at left <;> cases left <;> exact Std.Refl.refl machine

theorem assignVariable (node : NodeId) (name : Token) (value : Value) :
    Step.Stays relation (Run.assignVariable node name value) := by
  intro machine later left
  unfold Run.assignVariable at left
  split at left <;> cases left
  · exact Machine.Frame.store machine _
  · exact Std.Refl.refl machine

theorem declare (name : Token) (value : Value) : Step.Stays relation (Run.declare name value) :=
  .update fun machine => Machine.Frame.store machine _

theorem makeFunction (name : Option String) (body : FunctionBody) :
    Step.Stays relation (Run.makeFunction name body) := by
  intro machine later left
  cases left
  exact Machine.Frame.nextFunction machine

theorem readClock : Step.Stays relation Run.readClock := by
  intro machine later left
  cases left
  exact Machine.Frame.ticks machine _

theorem print (keyword : Token) (value : Value) :
    Step.Stays relation (Run.print keyword value) := by
  intro machine later left
  unfold Run.print at left
  split at left <;> cases left
  · exact Machine.Frame.line machine _
  · exact Std.Refl.refl machine

theorem openScope (enclosing : ScopeId) : Step.Stays relation (Run.openScope enclosing) := by
  intro machine later left
  cases left
  exact Machine.Frame.store machine _

theorem defineAll (scope : ScopeId) (bindings : List (String × Value)) :
    Step.Stays relation (Run.defineAll scope bindings) :=
  .update fun machine => Machine.Frame.store machine _

theorem checkCall (closing : Token) (arity arguments : Nat) :
    Step.Stays relation (Run.checkCall closing arity arguments) := by
  intro machine later left
  unfold Run.checkCall at left
  split at left
  · cases left
    exact Std.Refl.refl machine
  · split at left <;> cases left <;> exact Std.Refl.refl machine

/-- Whatever scope it runs in, it comes back to the scope before. -/
theorem inScope (scope : ScopeId) {body : Run α} (stays : Step.Stays relation body) :
    Step.Stays relation (Run.inScope scope body) := by
  intro machine later left
  have inside := stays { machine with scope := scope }
  unfold Run.inScope at left
  cases ran : body { machine with scope := scope } with
  | done | failed =>
    simp only [ran] at left inside
    cases left
    exact Machine.Frame.scope machine _ scope (inside _ rfl)
  | outOfFuel =>
    simp only [ran] at left
    cases left

/-- The one more call is counted out again. -/
theorem inCall {body : Run α} (stays : Step.Stays relation body) :
    Step.Stays relation (Run.inCall body) := by
  intro machine later left
  have inside := stays { machine with depth := machine.depth + 1 }
  unfold Run.inCall at left
  cases ran : body { machine with depth := machine.depth + 1 } with
  | done | failed =>
    simp only [ran] at left inside
    cases left
    exact Machine.Frame.depth machine _ (inside _ rfl)
  | outOfFuel =>
    simp only [ran] at left
    cases left

end Step.Stays

/-! ### Evaluation -/

/-- With this fuel, everything that evaluation sets about stays in the relation. -/
structure Framed (relation : Machine → Machine → Prop) (fuel : Nat) : Prop where
  evaluate : ∀ value, Step.Stays relation (Lox.evaluate fuel value)
  evaluateAll : ∀ values, Step.Stays relation (Lox.evaluateAll fuel values)
  evaluateOr : ∀ value, Step.Stays relation (Lox.evaluateOr fuel value)
  callValue : ∀ callee closing arguments,
    Step.Stays relation (Lox.callValue fuel callee closing arguments)
  execute : ∀ form, Step.Stays relation (Lox.execute fuel form)
  executeAll : ∀ forms, Step.Stays relation (Lox.executeAll fuel forms)
  repeatWhile : ∀ condition body, Step.Stays relation (Lox.repeatWhile fuel condition body)

section

variable {relation : Machine → Machine → Prop} [Machine.Frame relation]

/-- Each operation stays in the relation, and what is put together of
computations that do so does, too. -/
theorem framed_congruence : Run.Congruence fun body _ => Step.Stays relation body where
  pure := .pure
  raise _ _ := .fail _
  bind := .bind
  readVariable := .readVariable
  assignVariable := .assignVariable
  declare := .declare
  makeFunction := .makeFunction
  readClock := .readClock
  print := .print
  currentScope := .view _
  openScope := .openScope
  defineAll := .defineAll
  checkCall := .checkCall
  inScope scope _ _ stays := .inScope scope stays
  inCall stays := .inCall stays

/-- **All that evaluation sets about stays in a relation that does not look at what it changes.** -/
theorem framed (relation : Machine → Machine → Prop) [Machine.Frame relation] (fuel : Nat) :
    Framed relation fuel := by
  have congruence : Run.Congruence fun body _ => Step.Stays relation body := framed_congruence
  have all := congruence.evaluation_same .exhausted fuel
  exact ⟨all.evaluate, all.evaluateAll, all.evaluateOr, all.callValue,
    all.execute, all.executeAll, all.repeatWhile⟩

theorem framed_interpret (fuel : Nat) (program : List Stmt) :
    Step.Stays relation (interpret fuel program) :=
  framed_congruence.interpret (framed_congruence.evaluation_same .exhausted fuel) program

end

/-! ### Moments -/

theorem Step.Stays.of_done {σ ε α : Type} {relation : σ → σ → Prop} {body : Step σ ε α}
    (stays : Step.Stays relation body) {state later : σ} {value : α}
    (ran : body state = .done value later) :
    relation state later :=
  stays state later (by rw [ran]; rfl)

/-- A moment enters another one in a machine that is related to its own, or in a block or the body
of a function there. -/
theorem Enters.framed (relation : Machine → Machine → Prop) [Machine.Frame relation]
    {outer inner : Moment} (enters : Enters outer inner) :
    ∃ between, relation outer.machine between ∧
      (inner.machine = between ∨ inner.machine = between.inBlock ∨
        ∃ closing closure arguments, outer.errand = .call (.function closure) closing arguments ∧
          inner.machine = between.inBody closure arguments) := by
  have same := Std.Refl.refl (r := relation)
  have framed := Lox.framed relation
  cases enters with
  | binaryRight ran | logicalRight ran | ternaryYes ran | ternaryNo ran
  | assignment ran | arguments ran
  | otherArguments ran | ifYes ran | ifNo ran | loopBody ran =>
    exact ⟨_, ((framed _).evaluate _).of_done ran, .inl rfl⟩
  | call called ran =>
    exact ⟨_, IsTrans.trans _ _ _ (((framed _).evaluate _).of_done called)
      (((framed _).evaluateAll _).of_done ran), .inl rfl⟩
  | otherStatements ran | restOfProgram ran =>
    exact ⟨_, ((framed _).execute _).of_done ran, .inl rfl⟩
  | loopAgain decided _ ran =>
    exact ⟨_, IsTrans.trans _ _ _ (((framed _).evaluate _).of_done decided)
      (((framed _).execute _).of_done ran), .inl rfl⟩
  | block => exact ⟨_, same _, .inr (.inl rfl)⟩
  | body => exact ⟨_, same _, .inr (.inr ⟨_, _, _, rfl, rfl⟩)⟩
  | _ => exact ⟨_, same _, .inl rfl⟩

/-- If the relation does not look at what is changed where a block or a body begins, it
holds along the whole run. -/
theorem Reaches.framed (relation : Machine → Machine → Prop) [Machine.Frame relation]
    (inBlock : ∀ machine : Machine, relation machine machine.inBlock)
    (inBody : ∀ (machine : Machine) closure arguments,
      relation machine (machine.inBody closure arguments))
    {start moment : Moment} (reaches : Reaches start moment) :
    relation start.machine moment.machine := by
  induction reaches with
  | refl => exact Std.Refl.refl _
  | tail _ enters ih =>
    refine IsTrans.trans _ _ _ ih ?_
    obtain ⟨between, holds, machine⟩ := enters.framed relation
    rcases machine with machine | machine | ⟨_, _, _, -, machine⟩ <;> rw [machine]
    · exact holds
    · exact IsTrans.trans _ _ _ holds (inBlock between)
    · exact IsTrans.trans _ _ _ holds (inBody between _ _)

end Lox
