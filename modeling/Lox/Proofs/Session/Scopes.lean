/-
**The scopes of a session stay well formed, whatever fails.**

* `Session.Retains` — a later session has lost no scope and no name. Each step of a session retains
  (`Continues.retains`), whatever values global variables are set to.
* `Session.global?_of_continues` — a global variable that is found once is found ever after.
* `Session.After.becomes` — what the machine of a session goes through is what any machine may
  become.
* `scopes_stay_rooted` — in every machine that can be come to, each scope stands in the global one,
  at the end of a chain of links that never change, and no name is lost.
-/

import Lox.Proofs.Evaluation.Footprint
import Lox.Proofs.Evaluation.Rooted
import Lox.Proofs.Session.Control

namespace Lox

/-! ### Global variables are not lost -/

/-- A name is looked up in the global scope only. -/
theorem Store.get?_of_outermost {store : Store} {globals : ScopeId} {bindings : Names Value}
    (outermost : store.scope? globals = some ⟨bindings, none⟩) (name : String) :
    store.get? globals name = store.local? globals name := by
  have isRoot : store.enclosing? globals = none := by
    unfold Store.enclosing?
    rw [outermost]
    rfl
  have positive := Store.isSome_scope?_iff.mp (by rw [outermost]; rfl)
  unfold Store.get?
  cases size : store.size with
  | zero => omega
  | succ steps =>
    unfold Store.getWithin
    cases store.local? globals name with
    | some value => rfl
    | none =>
      rw [isRoot]
      rfl

/-- The later machine has the same global scope, and no scope is lost or moved, and no name is
unbound. -/
structure Machine.Retains (machine later : Machine) : Prop where
  store : machine.store.Extends later.store
  globals : later.globals = machine.globals

theorem Machine.Retains.of_leads {realm : Realm} {machine later : Machine}
    (leads : machine.Leads realm later) :
    machine.Retains later :=
  ⟨leads.store, leads.globals⟩

theorem retains_evaluate (fuel : Nat) (value : Expr) :
    Step.Stays Machine.Retains (evaluate fuel value) :=
  fun machine _ left => .of_leads <|
    leads_of_outcome ((Moment.state?_expression fuel value machine).trans left)
      (Moment.belongs_realm _)

theorem retains_interpret (fuel : Nat) (program : List Stmt) :
    Step.Stays Machine.Retains (interpret fuel program) :=
  fun machine _ left => .of_leads <|
    leads_of_outcome ((Moment.state?_program fuel program machine).trans left)
      (Moment.belongs_realm _)

namespace Session

/-- The machine of the later session retains what that of the earlier one has. -/
def Retains (session later : Session) : Prop :=
  session.machine.Retains later.machine

theorem Retains.refl (session : Session) : session.Retains session :=
  ⟨.refl _, rfl⟩

theorem Retains.trans {session middle later : Session} (first : session.Retains middle)
    (second : middle.Retains later) : session.Retains later :=
  ⟨first.store.trans second.store, second.globals.trans first.globals⟩

theorem retains_frame : Frame Retains where
  trans _ _ _ := .trans
  read session _ := .refl session
  learn _ _ := ⟨.refl _, rfl⟩
  interpret fuel program := stays_onMachine (retains_interpret fuel program)
  evaluate fuel value := stays_onMachine (retains_evaluate fuel value)

/-- One step of a session loses nothing. -/
theorem Continues.retains {session later : Session} (continues : session.Continues later) :
    session.Retains later := by
  cases continues with
  | ended ends => exact retains_frame.of_ends ends
  | refused refuses => exact retains_frame.of_refuses refuses
  | global name value => exact ⟨Store.extends_define _ _ _ _, rfl⟩
  | sink | output => exact ⟨.refl _, rfl⟩

theorem retains_of_continues {session later : Session}
    (continued : Relation.ReflTransGen Continues session later) :
    session.Retains later := by
  induction continued with
  | refl => exact .refl session
  | tail _ continues ih => exact ih.trans continues.retains

/-- Before the first text, the global scope stands in no other one, and so it does ever after. -/
theorem outermost_of_continues {clock : Nat → Float} {session : Session}
    (continued : Relation.ReflTransGen Continues (start clock) session) :
    ∃ bindings, session.machine.store.scope? session.machine.globals = some ⟨bindings, none⟩ := by
  have retains := retains_of_continues continued
  obtain ⟨bindings, found⟩ := (Machine.rooted_start clock).store.outermost
  obtain ⟨⟨now, enclosing⟩, isNow, same, -⟩ := retains.store _ _ found
  obtain rfl : enclosing = none := same
  exact ⟨now, by rw [retains.globals]; exact isNow⟩

/-- **A global variable that is found once is found ever after.** -/
theorem global?_of_continues {clock : Nat → Float} {session later : Session}
    (before : Relation.ReflTransGen Continues (start clock) session)
    (continued : Relation.ReflTransGen Continues session later) {name : Token} {value : Value}
    (found : session.global? name = .ok value) : ∃ now, later.global? name = .ok now := by
  obtain ⟨bindings, outermost⟩ := outermost_of_continues before
  obtain ⟨now, stillOutermost⟩ := outermost_of_continues (before.trans continued)
  have retains := retains_of_continues continued
  unfold global? at found ⊢
  rw [Store.get?_of_outermost outermost] at found
  rw [Store.get?_of_outermost stillOutermost, retains.globals]
  have bound : (session.machine.store.local? session.machine.globals name.lexeme).isSome := by
    cases isFound : session.machine.store.local? session.machine.globals name.lexeme with
    | none => rw [isFound] at found; cases found
    | some => rfl
  obtain ⟨value, isBound⟩ := Option.isSome_iff_exists.mp (retains.store.isSome_local? bound)
  rw [isBound]
  exact ⟨value, rfl⟩

/-! ### Machines of sessions -/

/-- What a session is asked is a text that its machine is run with. -/
theorem becomes_frame :
    Frame fun session later => Relation.ReflTransGen Machine.Becomes session.machine
      later.machine where
  trans _ _ _ := .trans
  read _ _ := .refl
  learn _ _ := .single (.distances _)
  interpret fuel program := stays_onMachine fun machine _ left =>
    .single (.ends (Errand.isText_program program)
      ((Moment.state?_program fuel program machine).trans left))
  evaluate fuel value := stays_onMachine fun machine _ left =>
    .single (.ends (Errand.isText_expression value)
      ((Moment.state?_expression fuel value machine).trans left))

/-- **The machine of a session is one that can be come to.** -/
theorem After.becomes {clock : Nat → Float} {past : Past} {session : Session}
    (after : After clock past session) :
    Relation.ReflTransGen Machine.Becomes (.start clock) session.machine := by
  induction after with
  | start => exact .refl
  | request _ _ ends ih => exact ih.trans (becomes_frame.of_ends ends)
  | refused _ refuses ih => exact ih.trans (becomes_frame.of_refuses refuses)
  | global name _ knows ih =>
    have rooted := ((Machine.rooted_start clock).becomesAll ih).rooted
    refine ih.tail (.global name ?_)
    rintro inner ⟨⟩
    obtain ⟨scope, bound, isBound⟩ := knows.function _ rfl
    exact rooted.store.captured scope bound _ _ isBound .function
  | sink sink _ ih => exact ih.tail (.sink sink)
  | output _ ih => exact ih.tail .output

end Session

/-- **The scopes of a machine stay well formed, whatever is run and whatever fails.** Consider any
machine that can be come to, with whatever distances. Each scope that stands in another one stands
in one that is there and was opened before. The current scope is there, and so are the scopes that
functions capture, be they bound somewhere, called, given to a call or an assignment, or just made.
From each scope, going outward leads to the global one, which alone stands in no other, and comes to
no scope twice. In all that the machine becomes later, the scopes that are there stand in the same
ones, and bind all names that they bind now. The machines of sessions are among these. And a global
variable that a session has found once is found after any further steps, even if values from
elsewhere are set. -/
theorem scopes_stay_rooted {clock : Nat → Float} :
    (∀ machine, Relation.ReflTransGen Machine.Becomes (.start clock) machine →
      (∀ scope outer, machine.store.enclosing? scope = some outer →
        (machine.store.scope? outer).isSome ∧ outer.index < scope.index) ∧
      (machine.store.scope? machine.scope).isSome ∧
      (∀ scope name value inner, machine.store.local? scope name = some value →
        value.Captures inner → (machine.store.scope? inner).isSome) ∧
      (∀ fuel errand moment, errand.IsText → Reaches ⟨fuel, errand, machine⟩ moment →
        (∀ scope, moment.errand.Root moment.machine scope →
          (moment.machine.store.scope? scope).isSome) ∧
        ∀ values later, moment.outcome = .done values later →
          ∀ value ∈ values, ∀ inner, value.Captures inner → (later.store.scope? inner).isSome) ∧
      (∀ scope, (machine.store.scope? scope).isSome →
        (machine.store.enclosing? scope = none ↔ scope = machine.globals) ∧
        ∃ inner, machine.store.Chain scope (inner ++ [machine.globals]) ∧
          (inner ++ [machine.globals]).Nodup) ∧
      ∀ later, Relation.ReflTransGen Machine.Becomes machine later →
        later.globals = machine.globals ∧ ∀ scope, (machine.store.scope? scope).isSome →
          later.store.enclosing? scope = machine.store.enclosing? scope ∧
          ∀ name, (machine.store.local? scope name).isSome →
            (later.store.local? scope name).isSome) ∧
    (∀ past session, Session.After clock past session →
      Relation.ReflTransGen Machine.Becomes (.start clock) session.machine) ∧
    ∀ session later, Relation.ReflTransGen Session.Continues (.start clock) session →
      Relation.ReflTransGen Session.Continues session later →
      ∀ name value, session.global? name = .ok value → ∃ now, later.global? name = .ok now := by
  refine ⟨fun machine arises => ?_, fun past session after => after.becomes,
    fun session later before continued name value => Session.global?_of_continues before continued⟩
  have rooted := ((Machine.rooted_start clock).becomesAll arises).rooted
  have forest := rooted.store.forest
  refine ⟨fun scope outer inside => ⟨forest.isSome_outer inside, forest scope outer inside⟩,
    rooted.scope, rooted.store.captured,
    fun fuel errand moment isText => rooted.captured_of_reaches isText,
    fun scope there => ?_, fun later becomes => ?_⟩
  · exact ⟨rooted.store.enclosing?_eq_none_iff there, rooted.store.exists_chain there⟩
  · have grows := rooted.becomesAll becomes
    exact ⟨grows.globals, fun scope there =>
      ⟨grows.store.enclosing? there, fun name => grows.store.isSome_local?⟩⟩

/-- A call fails, and its scope is left over. -/
theorem scope_of_failed_call_is_rooted :
    ∃ later, Session.run 12 "(fun() \x7b -nil; \x7d)();" (.start fun _ => 0) =
        .failed (.runtime ⟨⟨.symbol .minus, "-", 1⟩, .operandNotNumber⟩) later ∧
      (∃ inner, later.machine.store.Chain ⟨1⟩ (inner ++ [later.machine.globals]) ∧
        (inner ++ [later.machine.globals]).Nodup) ∧
      ∃ now, later.global? ⟨.identifier, "clock", 1⟩ = .ok now := by
  obtain ⟨later, failed, there⟩ :
      ∃ later, Session.run 12 "(fun() \x7b -nil; \x7d)();" (.start fun _ => 0) =
          .failed (.runtime ⟨⟨.symbol .minus, "-", 1⟩, .operandNotNumber⟩) later ∧
        (later.machine.store.scope? ⟨1⟩).isSome := ⟨_, rfl, rfl⟩
  have ends : Session.Ends (.start fun _ => 0) _ later := .raised (.run failed)
  refine ⟨later, failed, ((scopes_stay_rooted.1 _ (Session.becomes_frame.of_ends ends)).2.2.2.2.1
    ⟨1⟩ there).2, ?_⟩
  exact scopes_stay_rooted.2.2 _ later .refl (.single (.ended ends)) _ (.native .clock) rfl

end Lox
