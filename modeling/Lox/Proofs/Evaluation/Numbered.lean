/-
**What is bound in the scopes of a machine.**

* `Machine.BindsOnly` — all values that are bound are admitted. Which ones are may depend on the
  next function identity.
* `Admission` — what is admitted includes the constants and the functions that are made, and stays
  so.
* `Regime.binding` — then evaluation keeps that up.
* `Machine.Counted`, `Machine.Numbered` — no function has an identity that is yet to be used.
* `Machine.numbering` — evaluation keeps that up, so that the values that it
  comes to are counted, too.
-/

import Lox.Proofs.Evaluation.Makers

namespace Lox

/-! ### Values that are admitted -/

/-- All values that are bound are admitted. -/
def Machine.BindsOnly (admits : (nextFunction : Nat) → Value → Prop) (machine : Machine) : Prop :=
  ∀ scope name value, machine.store.local? scope name = some value →
    admits machine.nextFunction value

/-- What evaluation comes to by itself is admitted, and what is admitted once is so for good. -/
structure Admission (admits : (nextFunction : Nat) → Value → Prop) : Prop where
  mono {next later : Nat} {value : Value} : next ≤ later → admits next value → admits later value
  constant {next : Nat} {value : Value} : value.IsConstant → admits next value
  made (next : Nat) (name : Option String) (body : FunctionBody) (scope : ScopeId) :
    admits (next + 1) (.function ⟨next, name, body, scope⟩)

namespace Machine.BindsOnly

variable {admits : (nextFunction : Nat) → Value → Prop} {machine later : Machine} {value : Value}

/-- What is bound in the later store was bound before, or is admitted. -/
theorem of_bound (bindsOnly : machine.BindsOnly admits) (admission : Admission admits)
    (counts : machine.CountsUp later)
    (bound : ∀ scope name value, later.store.local? scope name = some value →
      (∃ holder, machine.store.local? holder name = some value) ∨
        admits machine.nextFunction value) :
    later.BindsOnly admits := by
  intro scope name value isBound
  rcases bound scope name value isBound with ⟨holder, wasBound⟩ | admitted
  · exact admission.mono counts (bindsOnly holder name value wasBound)
  · exact admission.mono counts admitted

theorem define (bindsOnly : machine.BindsOnly admits) (admission : Admission admits)
    (target : ScopeId) (name : String) (admitted : admits machine.nextFunction value) :
    (machine.define target name value).BindsOnly admits := by
  refine bindsOnly.of_bound admission (Nat.le_refl _) fun scope other result bound => ?_
  have either : (machine.store.define target name value).local? scope other = some result := bound
  rw [Store.local?_define] at either
  split at either
  · obtain rfl := Option.some.inj either
    exact .inr admitted
  · exact .inl ⟨scope, either⟩

/-- A new scope binds nothing. -/
theorem inBlock (bindsOnly : machine.BindsOnly admits) : machine.inBlock.BindsOnly admits := by
  intro scope name result bound
  have added : (machine.store.add (some machine.scope)).local? scope name = some result := bound
  rw [Store.local?_add] at added
  split at added
  · cases added
  · exact bindsOnly scope name result added

/-- The scope of a body binds the arguments. -/
theorem inBody (bindsOnly : machine.BindsOnly admits) (closure : Closure) {arguments : List Value}
    (admitted : ∀ value ∈ arguments, admits machine.nextFunction value) :
    (machine.inBody closure arguments).BindsOnly admits := by
  intro scope name result bound
  rcases Store.local?_defineAll bound with added | isArgument
  · rw [Store.local?_add] at added
    split at added
    · cases added
    · exact bindsOnly scope name result added
  · exact admitted result (List.of_mem_zip isArgument).2

end Machine.BindsOnly

/-- **Evaluation binds what is admitted, if that is all that is bound.** Any scope may be used. -/
def Regime.binding {admits : (nextFunction : Nat) → Value → Prop} (admission : Admission admits) :
    Regime where
  holds := Machine.BindsOnly admits
  has _ _ := True
  admits machine value := admits machine.nextFunction value
  leads machine later :=
    machine.CountsUp later ∧ later.BindsOnly admits ∧ later.scope = machine.scope
  refl bindsOnly := ⟨Nat.le_refl _, bindsOnly, rfl⟩
  trans first second :=
    ⟨Nat.le_trans first.1 second.1, second.2.1, second.2.2.trans first.2.2⟩
  holds_of_leads leads := leads.2.1
  has_of_leads _ := id
  admits_of_leads leads admitted := admission.mono leads.1 admitted
  admits_of_same admitted _ next := admission.mono (Nat.le_of_eq next.symm) admitted
  admits_constant := admission.constant
  scope_of_leads leads := leads.2.2
  leads_of_same bindsOnly store scope _ next :=
    have counts := Nat.le_of_eq next.symm
    ⟨counts, bindsOnly.of_bound admission counts
      fun holder _ _ bound => .inl ⟨holder, store ▸ bound⟩, scope⟩
  makeFunction name body bindsOnly _ :=
    ⟨⟨Nat.le_succ _, fun holder asked value bound =>
      admission.mono (Nat.le_succ _) (bindsOnly holder asked value bound), rfl⟩,
      admission.made _ name body _⟩
  leads_define bindsOnly _ admitted :=
    ⟨Nat.le_refl _, bindsOnly.define admission _ _ admitted, rfl⟩
  admits_valueAt? bindsOnly _ found :=
    have ⟨holder, bound⟩ := Machine.local?_of_valueAt? found
    bindsOnly holder _ _ bound
  has_of_targetOf? _ _ _ := trivial
  inBlock bindsOnly _ := ⟨bindsOnly.inBlock, trivial⟩
  leads_backTo _ leads := ⟨leads.1, leads.2.1, rfl⟩
  inBody bindsOnly _ admitted := ⟨bindsOnly.inBody _ admitted, trivial⟩
  leads_backFrom _ leads := ⟨leads.1, leads.2.1, rfl⟩

/-! ### Identities of functions -/

namespace Machine

/-- The value is no function with an identity that is yet to be used. -/
def Counted (machine : Machine) (value : Value) : Prop :=
  ∀ closure, value = .function closure → closure.identity < machine.nextFunction

/-- No function that is bound has an identity that is yet to be used. -/
def Numbered (machine : Machine) : Prop :=
  machine.BindsOnly fun next value => ∀ closure, value = .function closure → closure.identity < next

variable {machine later : Machine} {value : Value}

theorem Counted.of_countsUp (counted : machine.Counted value) (counts : machine.CountsUp later) :
    later.Counted value :=
  fun closure isFunction => Nat.lt_of_lt_of_le (counted closure isFunction) counts

theorem counted_admission :
    Admission fun next value => ∀ closure, value = .function closure → closure.identity < next where
  mono le counted closure isFunction := Nat.lt_of_lt_of_le (counted closure isFunction) le
  constant isConstant closure isFunction := absurd isFunction (isConstant.ne_function closure)
  made next name body scope := by
    rintro closure ⟨⟩
    exact Nat.lt_succ_self next

/-- **Evaluation keeps machines numbered.** -/
def numbering : Regime :=
  .binding counted_admission

/-- An errand that is given no values may be set about in a numbered machine. -/
theorem Numbered.governs (numbered : machine.Numbered) {errand : Errand}
    (nothing : errand.given = []) (fuel : Nat) : numbering.Governs ⟨fuel, errand, machine⟩ :=
  ⟨numbered, fun _ => trivial, nothing ▸ List.forall_mem_nil _⟩

end Machine

end Lox
