/-
**Native functions are those that are there from the start.**

* `Value.IsOf` — if the value is a native function, it is one of these. No program makes another one
  (`native_admission`), so evaluation keeps to those that are bound.
* `Session.After.bindsOnly` — what is admitted and bound at the start is all that a session ever
  binds.
* `Moment.Faults.exists_native` — only a native function that is bound or in use reports a message
  of its own.
* `Session.Begins.ne_native` — since the clock never does, no session raises such a message.
-/

import Lox.Proofs.Evaluation.Numbered
import Lox.Proofs.Evaluation.Origins
import Lox.Proofs.Session.History

namespace Lox

/-! ### What is bound -/

/-- If the value is a native function, it is one of these. -/
def Value.IsOf (natives : List Native) (value : Value) : Prop :=
  ∀ known, value = .native known → known ∈ natives

/-- A program makes no native functions. -/
theorem native_admission (natives : List Native) : Admission fun _ value => value.IsOf natives where
  mono _ isOf := isOf
  constant isConstant known isNative := absurd isNative (isConstant.ne_native known)
  made _ _ _ _ := nofun

/-- No other native functions are bound at the start. -/
theorem Session.bindsOnly_start (clock : Nat → Float) :
    (Session.start clock).machine.BindsOnly fun _ value => value.IsOf Native.all := by
  intro scope name value bound known isNative
  obtain ⟨other, isKnown, rfl⟩ := native_of_local?_start bound
  obtain rfl := Value.native.inj isNative
  exact isKnown

/-- **What is admitted at the start, and among what a session knows, is all that it ever binds.** -/
theorem Session.After.bindsOnly {admits : (nextFunction : Nat) → Value → Prop}
    (admission : Admission admits) {clock : Nat → Float} {past : Past} {session : Session}
    (start : (Session.start clock).machine.BindsOnly admits)
    (knows : ∀ {session : Session} {value : Value}, session.Knows value →
      session.machine.BindsOnly admits → admits session.machine.nextFunction value)
    (after : After clock past session) : session.machine.BindsOnly admits := by
  induction after with
  | start => exact start
  | @request _ _ _ _ _ first _ _ begins ends ih =>
    obtain ⟨-, same⟩ := begins.accepts
    have governs : (Regime.binding admission).Governs first :=
      ⟨same ▸ ih, fun _ => trivial, by cases begins <;> exact nofun⟩
    exact (Regime.leads_of_outcome governs (begins.state?_of_ends ends)).2.1
  | refused _ refuses ih => exact refuses.same.1 ▸ ih
  | global name _ known ih => exact ih.define admission _ name (knows known ih)
  | sink _ _ ih | output _ ih => exact ih

/-- A session has no native functions but those that are there from the start. -/
theorem Session.After.binds_natives {clock : Nat → Float} {past : Past} {session : Session}
    (after : After clock past session) :
    session.machine.BindsOnly fun _ value => value.IsOf Native.all :=
  after.bindsOnly (native_admission _) (bindsOnly_start clock) fun known _ => known.native

/-! ### What is raised -/

/-- Only the call of a native function raises a message of such a function. -/
theorem Moment.Faults.exists_native {moment : Moment} {error : RuntimeError} {message : String}
    (faults : moment.Faults error) (isNative : error.fault = .native message) :
    ∃ known arguments time, .native known ∈ moment.errand.given ∧
      known.function arguments time = .error message := by
  cases faults with
  | unary raised =>
    obtain rfl := isNative
    cases isOfOperator_of_applyUnary raised
  | binary raised =>
    obtain rfl := isNative
    cases isOfOperator_of_applyBinary raised
  | checked failed =>
    unfold Run.checkCall at failed
    split at failed
    · cases failed
      cases isNative
    · split at failed <;> cases failed
      cases isNative
  | native failed =>
    cases isNative
    exact ⟨_, _, _, List.mem_cons_self, failed⟩
  | _ => cases isNative

/-- The clock never reports that something is wrong. -/
theorem Native.function_ne_error {known : Native} (isKnown : known ∈ Native.all)
    (arguments : List Datum) (time : Float) (message : String) :
    known.function arguments time ≠ .error message := by
  obtain rfl := List.mem_singleton.mp isKnown
  exact nofun

/-- **No message of a native function is raised in a session.** -/
theorem Session.Begins.ne_native {clock : Nat → Float} {past : Past} {session : Session}
    {request : Request} {root : Site} {start : Moment} {next : Nat}
    (begins : session.Begins request root start next) (after : After clock past session)
    {error : RuntimeError} (raises : start.Raises error) (message : String) :
    error.fault ≠ .native message := by
  intro isNative
  obtain ⟨last, reaches, faults⟩ := raises
  obtain ⟨known, arguments, time, isGiven, failed⟩ := faults.exists_native isNative
  obtain ⟨-, same⟩ := begins.accepts
  have governs : (Regime.binding (native_admission Native.all)).Governs start :=
    ⟨same ▸ after.binds_natives, fun _ => trivial, by cases begins <;> exact nofun⟩
  have isKnown := (Regime.governs_of_reaches reaches governs).given _ isGiven known rfl
  exact Native.function_ne_error isKnown arguments time message failed

end Lox
