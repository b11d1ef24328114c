/-
**Computations that end in a value, end in an error, or have not ended yet.**

* `Outcome σ ε α` — how a computation over a state `σ` ended: with a value, with an error, or not
  within the fuel it was given. A value and an error both come with the state they leave, because an
  error undoes nothing.
* `Step σ ε α` — a computation itself, a function from the state it starts in to its outcome. It is
  a monad: a sequence stops at its first error, and out of fuel anywhere is out of fuel.
-/

namespace Lox

/-- How a computation over a state ended. -/
inductive Outcome (σ ε α : Type) where
  /-- It ended with a value and left this state. -/
  | done (value : α) (state : σ)
  /-- It ended with an error and left this state. -/
  | failed (error : ε) (state : σ)
  /-- It did not end within its fuel. -/
  | outOfFuel
deriving DecidableEq, Repr

/-- A computation over a state `σ`, with errors `ε` and a value `α`. -/
def Step (σ ε α : Type) : Type :=
  σ → Outcome σ ε α

namespace Step

variable {σ ε α β : Type}

/-- Ends at once with a value. -/
@[inline] protected def pure (value : α) : Step σ ε α := fun state =>
  .done value state

/-- Runs one computation, and on its value the next. -/
@[inline] protected def bind (first : Step σ ε α) (next : α → Step σ ε β) :
    Step σ ε β := fun state =>
  match first state with
  | .done value later => next value later
  | .failed error later => .failed error later
  | .outOfFuel => .outOfFuel

@[always_inline] instance : Monad (Step σ ε) where
  pure := Step.pure
  bind := Step.bind

/-- Ends at once with an error. -/
@[inline] def fail (error : ε) : Step σ ε α := fun state =>
  .failed error state

/-- The computation whose fuel is spent. -/
@[inline] def exhausted : Step σ ε α := fun _ =>
  .outOfFuel

/-- Reads something off the state. -/
@[inline] def view (read : σ → α) : Step σ ε α := fun state =>
  .done (read state) state

/-- Changes the state. -/
@[inline] def update (change : σ → σ) : Step σ ε Unit := fun state =>
  .done () (change state)

@[simp] theorem pure_apply (value : α) (state : σ) :
    (pure value : Step σ ε α) state = .done value state :=
  rfl

theorem bind_apply (first : Step σ ε α) (next : α → Step σ ε β) (state : σ) :
    (first >>= next) state =
      match first state with
      | .done value later => next value later
      | .failed error later => .failed error later
      | .outOfFuel => .outOfFuel :=
  rfl

end Step

end Lox
