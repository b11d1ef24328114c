/-
**What stops an errand stops everything around it.**

* `Outcome.PassesOn outcome around` — if the one outcome is an error, the other is the same error,
  with a machine that differs in its scope and its depth at most; and if there was no fuel for the
  one, there was none for the other.
* `Enters.passesOn` — the outcome of a moment passes on to each moment that enters it:
  nothing catches an error.
* `Reaches.failed`, `Reaches.outOfFuel` — so an error ends the whole run, with no further effect.
* `Reaches.fuel_le` — along a run, the fuel never goes up.
-/

import Lox.Proofs.Evaluation.Regimes

namespace Lox

/-! ### Outcomes in other outcomes -/

/-- Unless the outcome is a value, it goes on: an error as the same error, with the same machine but
for the current scope and the depth, and a lack of fuel as a lack of fuel. -/
def Outcome.PassesOn {α β : Type} (outcome : Outcome Machine RuntimeError α)
    (around : Outcome Machine RuntimeError β) : Prop :=
  match outcome with
  | .done _ _ => True
  | .failed error later =>
    ∃ scope depth, around = .failed error { later with scope := scope, depth := depth }
  | .outOfFuel => around = .outOfFuel

namespace Outcome.PassesOn

variable {α β γ : Type} {outcome : Outcome Machine RuntimeError α}

/-- What is made of the values does not matter. -/
theorem map (change : α → β) (other : α → γ) :
    (outcome.map change).PassesOn (outcome.map other) := by
  cases outcome with
  | done => trivial
  | failed error later => exact ⟨later.scope, later.depth, rfl⟩
  | outOfFuel => rfl

/-- The first part of a sequence passes on to the whole. -/
theorem bind {first : Run α} {next : α → Run β} {machine : Machine} {change : α → List Value}
    {other : β → List Value} :
    ((first machine).map change).PassesOn (((first >>= next) machine).map other) := by
  rw [Step.bind_apply]
  cases first machine with
  | done => trivial
  | failed error later => exact ⟨later.scope, later.depth, rfl⟩
  | outOfFuel => rfl

theorem refl (outcome : Outcome Machine RuntimeError α) : outcome.PassesOn outcome := by
  cases outcome with
  | done => trivial
  | failed error later => exact ⟨later.scope, later.depth, rfl⟩
  | outOfFuel => rfl

theorem trans {around : Outcome Machine RuntimeError β} {outside : Outcome Machine RuntimeError γ}
    (inner : outcome.PassesOn around) (outer : around.PassesOn outside) :
    outcome.PassesOn outside := by
  cases outcome with
  | done => trivial
  | failed error later =>
    obtain ⟨_, _, rfl⟩ := inner
    obtain ⟨scope, depth, rfl⟩ := outer
    exact ⟨scope, depth, rfl⟩
  | outOfFuel =>
    obtain rfl := inner
    exact outer

end Outcome.PassesOn

/-! ### Moments in other moments -/

/-- **The outcome of a moment passes on to what enters it.** -/
theorem Enters.passesOn {outer inner : Moment} (enters : Enters outer inner) :
    inner.outcome.PassesOn outer.outcome := by
  cases enters with
  | grouping | whileLoop | optional =>
    simp only [Moment.outcome, evaluate, execute, evaluateOr]
    exact .map _ _
  | unary | binaryLeft | logicalLeft | ternaryCondition | assigned | callee
  | firstArgument | expressionStatement
  | print | «variable» | ifCondition | returning
  | firstStatement | loopCondition | programStatement =>
    simp only [Moment.outcome, evaluate, evaluateAll, execute, executeAll, repeatWhile, interpret]
    exact .bind
  -- what was evaluated before has ended with a value, so that the sequence comes down to the rest
  -- of it
  | binaryRight ran | arguments ran | otherArguments ran | assignment ran =>
    simp only [Moment.outcome, evaluate, evaluateAll, Step.bind_apply, ran]
    exact .bind
  | logicalRight ran decides | loopBody ran decides =>
    simp only [Moment.outcome, evaluate, repeatWhile, Step.bind_apply, ran, decides]
    exact .bind
  | ternaryYes ran decides | ternaryNo ran decides | ifYes ran decides | ifNo ran decides =>
    simp only [Moment.outcome, evaluate, execute, Step.bind_apply, ran, decides]
    exact .map _ _
  | call ran ranAll =>
    simp only [Moment.outcome, evaluate, Step.bind_apply, ran, ranAll]
    exact .map _ _
  | otherStatements ran | restOfProgram ran =>
    simp only [Moment.outcome, executeAll, interpret, Step.bind_apply, ran]
    exact .map _ _
  | loopAgain ran decides ranBody =>
    simp only [Moment.outcome, repeatWhile, Step.bind_apply, ran, decides, ↓reduceIte, ranBody]
    exact .map _ _
  | @block fuel forms machine =>
    simp only [Moment.outcome, execute_block]
    cases executeAll fuel forms machine.inBlock with
    | done => trivial
    | failed error later => exact ⟨_, _, rfl⟩
    | outOfFuel => rfl
  | @body fuel closure closing arguments machine checked =>
    simp only [Moment.outcome, callValue_function, checked]
    cases executeAll fuel closure.body.statements (machine.inBody closure arguments) with
    | done => trivial
    | failed error later => exact ⟨_, _, rfl⟩
    | outOfFuel => rfl

namespace Reaches

variable {start moment : Moment}

/-- So it passes on to whatever reaches the moment. -/
theorem passesOn (reaches : Reaches start moment) : moment.outcome.PassesOn start.outcome := by
  induction reaches with
  | refl => exact .refl _
  | tail _ enters ih => exact enters.passesOn.trans ih

/-- **An error ends the run with no further effect,** but that the scope and the depth are put
back. -/
theorem failed (reaches : Reaches start moment) {error : RuntimeError} {later : Machine}
    (failed : moment.outcome = .failed error later) :
    ∃ scope depth, start.outcome = .failed error { later with scope := scope, depth := depth } := by
  have passes := reaches.passesOn
  rwa [failed] at passes

theorem outOfFuel (reaches : Reaches start moment) (exhausted : moment.outcome = .outOfFuel) :
    start.outcome = .outOfFuel := by
  have passes := reaches.passesOn
  rwa [exhausted] at passes

/-- Nothing is set about with more fuel than what it comes out of has. -/
theorem fuel_le (reaches : Reaches start moment) : moment.fuel ≤ start.fuel := by
  induction reaches with
  | refl => exact Nat.le_refl _
  | tail _ enters ih =>
    refine Nat.le_trans ?_ ih
    cases enters with
    | programStatement | restOfProgram => exact Nat.le_refl _
    | _ => exact Nat.le_succ _

end Reaches

end Lox
