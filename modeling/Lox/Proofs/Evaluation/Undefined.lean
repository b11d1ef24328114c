/-
**Where undefined variables are raised.**

* `Moment.Misses` — at this moment a variable is accessed that is not bound where it is looked for.
* `Moment.Finds` — an error is that of a variable which is missed at a moment that this one reaches.
* `Moment.Raises.finds` — each undefined variable that is raised is found.
-/

import Lox.Proofs.Evaluation.Origins

namespace Lox

/-! ### Missing a variable -/

/-- At this moment a variable is read or assigned that is not bound where it is looked for. -/
inductive Moment.Misses : Moment → NodeId → Access → Token → Prop
  | read {fuel : Nat} {node : NodeId} {name : Token} {machine : Machine} :
      machine.valueAt? node name.lexeme = none →
      Misses ⟨fuel, .expression (.variable node name), machine⟩ node .read name
  | write {fuel : Nat} {node : NodeId} {name : Token} {value : Value} {machine : Machine} :
      machine.targetOf? node name.lexeme = none →
      Misses ⟨fuel, .assignment node name value, machine⟩ node .write name

/-- The error is that of a variable which is missed at a moment that this one reaches. -/
def Moment.Finds (moment : Moment) (error : RuntimeError) : Prop :=
  error.fault = .undefinedVariable error.token.lexeme ∧
    ∃ last node access, Reaches moment last ∧ last.Misses node access error.token

/-- This fault is an undefined variable. -/
def Fault.IsUndefined (fault : Fault) : Prop :=
  ∃ name, fault = .undefinedVariable name

/-! ### What is raised -/

/-- **Each undefined variable that is raised is missed at a moment that is reached.** -/
theorem Moment.Raises.finds {moment : Moment} {error : RuntimeError} (raises : moment.Raises error)
    (isUndefined : error.fault.IsUndefined) : moment.Finds error := by
  obtain ⟨last, reaches, faults⟩ := raises
  cases faults with
  | read missing => exact ⟨rfl, _, _, .read, reaches, .read missing⟩
  | write missing => exact ⟨rfl, _, _, .write, reaches, .write missing⟩
  | unary raised =>
    obtain ⟨name, rfl⟩ := isUndefined
    cases isOfOperator_of_applyUnary raised
  | binary raised =>
    obtain ⟨name, rfl⟩ := isUndefined
    cases isOfOperator_of_applyBinary raised
  | notCallable | native | print =>
    obtain ⟨name, same⟩ := isUndefined
    cases same
  | checked failed =>
    obtain ⟨name, same⟩ := isUndefined
    unfold Run.checkCall at failed
    split at failed
    · cases failed
      cases same
    · split at failed <;> cases failed
      cases same

end Lox
