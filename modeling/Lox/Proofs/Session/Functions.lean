/-
**Functions are equal if they stem from the same evaluation.**

* `Past.Present` — the values that there are at a moment: those that are bound, those
  that its errand is given, and those that have come out of what was evaluated before and
  are still needed around it.
* `Moment.Leaves` — the values that come out of a moment, or are bound when it has ended.
* `Past.Numbered` — all moments are in order as to the identities of functions, and each identity
  belongs to one moment (`numbered_add`).
* `Moment.Sourced` — all functions at a moment were made at some moment.
* `Session.After.numbered` — no identity is yet to be used that a function of the session has.
* `Tallied` — what holds of a session between two requests (`After.tallied`).
* `functions_stem_from_one_evaluation` — so `==` tells functions apart by the
  evaluation that they stem from.
-/

import Lox.Proofs.Session.Copies
import Lox.Proofs.Session.Natives

namespace Lox

/-! ### Functions at a moment -/

/-- The errand is to evaluate a lambda, or to execute the declaration of a function. -/
def Errand.makesFunction : Errand → Bool
  | .expression (.lambda _ _) => true
  | .statement (.function _ _) => true
  | _ => false

/-- A function comes out of the moment, or is bound to its name in the current scope. -/
inductive Moment.Delivers : Moment → Value → Prop
  | lambda {fuel : Nat} {keyword : Token} {body : FunctionBody} {machine later : Machine}
      {value : Value} :
      Moment.outcome ⟨fuel, .expression (.lambda keyword body), machine⟩ = .done [value] later →
      Delivers ⟨fuel, .expression (.lambda keyword body), machine⟩ value
  | declaration {fuel : Nat} {name : Token} {body : FunctionBody} {machine later : Machine}
      {value : Value} :
      Moment.outcome ⟨fuel, .statement (.function name body), machine⟩ = .done [] later →
      later.store.local? machine.scope name.lexeme = some value →
      Delivers ⟨fuel, .statement (.function name body), machine⟩ value

/-- The value comes out of the moment, or is bound when it has ended. -/
inductive Moment.Leaves (moment : Moment) (value : Value) : Prop
  | yielded {values : List Value} {later : Machine} :
      moment.outcome = .done values later → value ∈ values → Leaves moment value
  | bound {later : Machine} {scope : ScopeId} {name : String} :
      moment.outcome.state? = some later → later.store.local? scope name = some value →
      Leaves moment value

/-- The value is there at the moment. -/
inductive Past.Present (past : Past) : Moment → Value → Prop
  | bound {moment : Moment} {scope : ScopeId} {name : String} {value : Value} :
      moment.machine.store.local? scope name = some value → Present past moment value
  | given {moment : Moment} {value : Value} : value ∈ moment.errand.given →
      Present past moment value
  /-- It has come out of the part that was evaluated right before. -/
  | yielded {outer sibling moment : Moment} {values : List Value} {value : Value} :
      past.moments outer → Enters outer sibling → Enters outer moment →
      sibling.outcome = .done values moment.machine → value ∈ values → Present past moment value
  /-- It is there at the moment that this one comes right out of. -/
  | around {outer moment : Moment} {value : Value} :
      past.moments outer → Enters outer moment → Present past outer value →
      Present past moment value

/-- The operator `==` yields true for the values. -/
def Value.IsEqual (first second : Value) : Prop :=
  applyBinary (.symbol .equalEqual) first second = .ok (.boolean true)

theorem Value.isEqual_iff {first second : Value} :
    first.IsEqual second ↔ first.equals second = true := by
  unfold IsEqual applyBinary
  simp

/-- Functions are equal if they have the same identity. -/
theorem Value.isEqual_function {first second : Closure} :
    (Value.function first).IsEqual (.function second) ↔ first.identity = second.identity :=
  Value.isEqual_iff.trans beq_iff_eq

/-- Only a function that a program has made is equal to one. -/
theorem Value.exists_of_isEqual_function {closure : Closure} {value : Value}
    (same : (Value.function closure).IsEqual value ∨ value.IsEqual (.function closure)) :
    ∃ other, value = .function other ∧ other.identity = closure.identity := by
  rw [isEqual_iff, isEqual_iff] at same
  cases value with
  | function other =>
    refine ⟨other, rfl, ?_⟩
    rcases same with same | same
    · exact (beq_iff_eq.mp same).symm
    · exact beq_iff_eq.mp same
  | _ => rcases same with same | same <;> cases same

/-- Native functions are equal if they have the same name, and equal nothing else. -/
theorem Value.isEqual_native {known : Native} {value : Value} :
    ((Value.native known).IsEqual value ↔ ∃ other, value = .native other ∧
      other.name = known.name) ∧
      (value.IsEqual (.native known) ↔ ∃ other, value = .native other ∧
        other.name = known.name) := by
  rw [isEqual_iff, isEqual_iff]
  cases value with
  | native other =>
    refine ⟨⟨fun same => ⟨other, rfl, (beq_iff_eq.mp same).symm⟩, ?_⟩,
      ⟨fun same => ⟨other, rfl, beq_iff_eq.mp same⟩, ?_⟩⟩
    · rintro ⟨_, ⟨⟩, same⟩
      exact beq_iff_eq.mpr same.symm
    · rintro ⟨_, ⟨⟩, same⟩
      exact beq_iff_eq.mpr same
  | _ =>
    constructor <;>
    · refine ⟨fun same => ?_, ?_⟩
      · cases same
      · rintro ⟨other, same, -⟩
        cases same

theorem Errand.exists_makes {moment : Moment} (makesFunction : moment.errand.makesFunction = true)
    (hasFuel : 0 < moment.fuel) : ∃ closure, Makes moment closure := by
  obtain ⟨fuel, errand, machine⟩ := moment
  obtain ⟨fuel, rfl⟩ := Nat.exists_eq_add_of_lt hasFuel
  cases errand with
  | expression value =>
    cases value with
    | lambda => exact ⟨_, .lambda⟩
    | _ => cases makesFunction
  | statement form =>
    cases form with
    | function => exact ⟨_, .declaration⟩
    | _ => cases makesFunction
  | _ => cases makesFunction

/-! ### Identities -/

namespace Past

variable {past : Past} {root : Site} {start : Moment}

/-- All moments are in order as to the identities of functions, and each identity belongs to one
moment. -/
structure Numbered (past : Past) : Prop where
  governed : ∀ moment, past.moments moment → Machine.numbering.Governs moment
  unique : ∀ {maker other : Moment} {first second : Closure}, past.moments maker →
    past.moments other →
    Makes maker first → Makes other second → first.identity = second.identity → maker = other

/-- **The functions that are made in one more text have new identities.** -/
theorem lt_of_add
    (used : ∀ closure, past.Made closure → closure.identity < start.machine.nextFunction)
    {maker : Moment} {first second : Closure} (reaches : Reaches start maker)
    (makes : Makes maker first) (made : past.Made second) : second.identity < first.identity := by
  rw [makes.identity_eq]
  exact Nat.lt_of_lt_of_le (used second made) reaches.countsUp

theorem numbered_add (numbered : past.Numbered)
    (used : ∀ closure, past.Made closure → closure.identity < start.machine.nextFunction)
    (machine : start.machine.Numbered) (nothing : start.errand.given = []) :
    (past.add root start).Numbered := by
  refine ⟨?_, ?_⟩
  · rintro moment (inPast | reaches)
    · exact numbered.governed moment inPast
    · exact Regime.governs_of_reaches reaches (machine.governs nothing start.fuel)
  · rintro maker other first second (inPast | reaches)
      (otherInPast | otherReaches) makes makesOther same
    · exact numbered.unique inPast otherInPast makes makesOther same
    · exact absurd same (Nat.ne_of_lt
        (lt_of_add used otherReaches makesOther ⟨maker, inPast, makes⟩))
    · exact absurd same.symm (Nat.ne_of_lt
        (lt_of_add used reaches makes ⟨other, otherInPast, makesOther⟩))
    · exact makes.eq_of_identity makesOther reaches otherReaches same

/-- **No value that is there has an identity that is yet to be used.** -/
theorem Present.counted (numbered : past.Numbered) {moment : Moment} {value : Value}
    (closed : ∀ {before after}, past.moments before → Enters before after → past.moments after)
    (present : past.Present moment value) (isMoment : past.moments moment) :
    moment.machine.Counted value := by
  induction present with
  | bound bound => exact (numbered.governed _ isMoment).holds _ _ _ bound
  | given isGiven => exact (numbered.governed _ isMoment).given _ isGiven
  | yielded isOuter enters _ ended isValue =>
    have confined := Regime.confined _ (numbered.governed _ (closed isOuter enters))
    unfold Regime.Confined at confined
    rw [ended] at confined
    exact confined.2 _ isValue
  | around isOuter enters _ ih => exact (ih isOuter).of_countsUp (Reaches.countsUp (.single enters))

/-- **Two functions are equal exactly when they stem from the same moment.** -/
theorem Numbered.isEqual_iff (numbered : past.Numbered) {maker other : Moment}
    {first second : Value} (stems : past.Stems maker first) (otherStems : past.Stems other second) :
    first.IsEqual second ↔ maker = other := by
  obtain ⟨isMoment, closure, makes, rfl⟩ := stems_iff.mp stems
  obtain ⟨isOther, otherClosure, makesOther, rfl⟩ := stems_iff.mp otherStems
  rw [Value.isEqual_function]
  refine ⟨numbered.unique isMoment isOther makes makesOther, ?_⟩
  rintro rfl
  rw [makes.eq makesOther]

end Past

/-- A function that is made is equal to none that was counted before. -/
theorem Makes.not_isEqual {maker : Moment} {closure : Closure} {value : Value}
    (makes : Makes maker closure) (counted : maker.machine.Counted value) :
    ¬ ((Value.function closure).IsEqual value ∨ value.IsEqual (.function closure)) := by
  intro same
  obtain ⟨other, rfl, sameIdentity⟩ := Value.exists_of_isEqual_function same
  have before := counted other rfl
  rw [sameIdentity, makes.identity_eq] at before
  exact Nat.lt_irrefl _ before

/-! ### Where functions come from -/

/-- All functions at the moment were made at some moment, and if one is made here, it is
delivered. -/
structure Moment.Sourced (past : Past) (moment : Moment) : Prop where
  bound : ∀ scope name closure, moment.machine.store.local? scope name = some (.function closure) →
    past.Made closure
  given : ∀ closure, .function closure ∈ moment.errand.given → past.Made closure
  left : ∀ closure, moment.Leaves (.function closure) → past.Made closure
  delivered : ∀ closure, Makes moment closure → moment.Delivers (.function closure)

theorem Moment.Sourced.extend {past longer : Past} {moment : Moment} (sourced : moment.Sourced past)
    (extension : past.Extends longer) : moment.Sourced longer where
  bound scope name closure bound := extension.made (sourced.bound scope name closure bound)
  given closure isGiven := extension.made (sourced.given closure isGiven)
  left closure leaves := extension.made (sourced.left closure leaves)
  delivered := sourced.delivered

section

variable {past : Past}

/-- What is kept fit leaves only functions that were made. -/
theorem Keeps.made {α : Type} {machine : Machine} {good : α → Machine → Prop}
    {values : α → List Value} {outcome : Outcome Machine RuntimeError α}
    (kept : Keeps past machine good outcome)
    (fits : ∀ result later, good result later → past.ValuesFit later (values result))
    {moment : Moment} (same : moment.outcome = outcome.map values) (closure : Closure)
    (leaves : moment.Leaves (.function closure)) :
    past.Made closure := by
  cases outcome with
  | done result later =>
    cases leaves with
    | yielded ended isValue =>
      rw [same] at ended
      cases ended
      exact (fits result later kept.2 _ isValue).1
    | bound ended bound =>
      rw [same] at ended
      cases ended
      exact (kept.1.fits.values _ _ _ bound).1
  | failed error later =>
    cases leaves with
    | yielded ended =>
      rw [same] at ended
      cases ended
    | bound ended bound =>
      rw [same] at ended
      cases ended
      exact (Machine.Follows.fits kept).values _ _ _ bound |>.1
  | outOfFuel =>
    cases leaves with
    | yielded ended | bound ended =>
      rw [same] at ended
      cases ended

/-- Values that fit are functions that were made, or no functions. -/
theorem Past.FlowFits.values {machine : Machine} {flow : Flow} (fits : past.FlowFits machine flow) :
    past.ValuesFit machine flow.values := by
  cases flow with
  | normal => exact List.forall_mem_nil _
  | returned value => exact List.forall_mem_singleton.mpr (fits value rfl)

/-- **Where a moment stands, all functions are such as were made.** -/
theorem Moment.Stands.sourced (proper : past.Proper) {moment : Moment}
    (reached : past.moments moment) (stands : moment.Stands past) : moment.Sourced past := by
  refine ⟨fun scope name closure bound => (stands.fits.values scope name _ bound).1,
    fun closure isGiven => ?_, ?_, fun closure makes => ?_⟩
  · obtain ⟨fuel, errand, machine⟩ := moment
    have errandStands := stands.errand
    cases errand with
    | call =>
      rcases List.mem_cons.mp isGiven with rfl | isArgument
      · exact errandStands.1.1
      · exact (errandStands.2 _ isArgument).1
    | assignment =>
      obtain rfl := List.mem_singleton.mp isGiven
      exact errandStands.2.1
    | _ => cases isGiven
  · have kept := keeps proper moment reached stands
    obtain ⟨fuel, errand, machine⟩ := moment
    cases errand with
    | expression | call | optional =>
      exact Keeps.made kept (fun _ _ fits => List.forall_mem_singleton.mpr fits) rfl
    | arguments => exact Keeps.made kept (fun _ _ => id) rfl
    | assignment => exact Keeps.made kept (fun _ _ _ => List.forall_mem_nil _) rfl
    | statement => exact Keeps.made kept (fun _ _ fits => fits.1.values) rfl
    | statements | loop => exact Keeps.made kept (fun _ _ fits => fits.values) rfl
    | program =>
      exact Keeps.made (keeps_interpret proper reached stands)
        (fun _ _ _ => List.forall_mem_nil _) rfl
  · cases makes with
    | lambda => exact .lambda rfl
    | @declaration _ name _ machine =>
      refine .declaration rfl ?_
      obtain ⟨_, _, _, mirrors⟩ := stands.errand
      have there := mirrors.isSome_scope? stands.fits.isSome_globals
      show (machine.store.define machine.scope name.lexeme _).local? _ _ = _
      rw [Store.local?_define, if_pos ⟨rfl, rfl, there⟩]

/-- The values that are there at a moment are such as were made. -/
theorem Past.Present.made (sourced : ∀ moment, past.moments moment → moment.Sourced past)
    (closed : ∀ {before after}, past.moments before → Enters before after → past.moments after)
    {moment : Moment} {closure : Closure} (present : past.Present moment (.function closure))
    (isMoment : past.moments moment) :
    past.Made closure := by
  generalize isFunction : Value.function closure = value at present
  induction present with
  | bound bound => exact (sourced _ isMoment).bound _ _ closure (isFunction ▸ bound)
  | given isGiven => exact (sourced _ isMoment).given closure (isFunction ▸ isGiven)
  | yielded isOuter enters _ ended isValue =>
    exact (sourced _ (closed isOuter enters)).left closure (.yielded ended (isFunction ▸ isValue))
  | around isOuter _ _ ih => exact ih isOuter isFunction

end

/-! ### Between two requests -/

/-- **No identity is yet to be used that a function of the session has.** -/
theorem Session.After.numbered {clock : Nat → Float} {past : Past} {session : Session}
    (after : After clock past session) : session.machine.Numbered := by
  refine after.bindsOnly Machine.counted_admission ?_ fun knows bindsOnly => ?_
  · rintro scope name value bound closure rfl
    obtain ⟨known, -, isNative⟩ := Session.native_of_local?_start bound
    cases isNative
  · rintro closure rfl
    obtain ⟨scope, other, bound⟩ := knows.function closure rfl
    exact bindsOnly scope other _ bound closure rfl

/-- A request begins with no values, and with the functions of the session. -/
theorem Session.Begins.numbered {session : Session} {request : Request} {root : Site}
    {start : Moment} {next : Nat} (begins : session.Begins request root start next)
    (numbered : session.machine.Numbered) :
    start.machine.Numbered ∧ start.machine.nextFunction = session.machine.nextFunction ∧
      start.errand.given = [] := by
  obtain ⟨-, same⟩ := begins.accepts
  rw [same]
  exact ⟨numbered, rfl, by cases begins <;> rfl⟩

/-- What holds of a session between two requests. -/
structure Tallied (past : Past) (session : Session) : Prop where
  numbered : past.Numbered
  /-- The identities of all functions that were made have been used up. -/
  used : ∀ closure, past.Made closure → closure.identity < session.machine.nextFunction
  sourced : ∀ moment, past.moments moment → moment.Sourced past

namespace Tallied

variable {clock : Nat → Float} {past : Past} {session later : Session} {root : Site}
  {start : Moment} {next : Nat}

/-- At the beginning of a request, the same holds of all moments to come. -/
theorem begins (tallied : Tallied past session) (after : Session.After clock past session)
    {request : Request} (begins : session.Begins request root start next) :
    (past.add root start).Numbered ∧
      ∀ moment, (past.add root start).moments moment → moment.Sourced (past.add root start) := by
  obtain ⟨machine, same, nothing⟩ := begins.numbered after.numbered
  obtain ⟨proper, stands⟩ := after.upheld.begins begins
  refine ⟨Past.numbered_add tallied.numbered (same ▸ tallied.used) machine nothing, ?_⟩
  rintro moment (inPast | reaches)
  · exact (tallied.sourced moment inPast).extend (past.extends_add root start)
  · exact (stands_of_reaches proper reaches (.inr .refl) stands).sourced proper (.inr reaches)

/-- When a request has ended, the same holds as before. -/
theorem request (tallied : Tallied past session) (after : Session.After clock past session)
    {request : Request} (begins : session.Begins request root start next)
    (ends : session.Ends request later) : Tallied (past.add root start) later := by
  obtain ⟨machine, same, nothing⟩ := begins.numbered after.numbered
  obtain ⟨numbered, sourced⟩ := tallied.begins after begins
  have ended := begins.state?_of_ends ends
  have leads := Regime.leads_of_outcome (machine.governs nothing start.fuel) ended
  refine ⟨numbered, ?_, sourced⟩
  rintro closure ⟨maker, inPast | reaches, makes⟩
  · exact Nat.lt_of_lt_of_le (same ▸ tallied.used closure ⟨maker, inPast, makes⟩) leads.1
  · exact makes.lt_of_reaches reaches ended

/-- Only the next function identity matters. -/
theorem of_same (tallied : Tallied past session)
    (same : later.machine.nextFunction = session.machine.nextFunction) : Tallied past later :=
  ⟨tallied.numbered, same ▸ tallied.used, tallied.sourced⟩

/-- Before the first request, no function was made. -/
theorem atStart (clock : Nat → Float) : Tallied ⟨[], fun _ => False⟩ (Session.start clock) where
  numbered := ⟨fun _ isMoment => isMoment.elim, fun isMoment => isMoment.elim⟩
  used := fun _ ⟨_, isMoment, _⟩ => isMoment.elim
  sourced _ isMoment := isMoment.elim

end Tallied

/-- **This holds of each session, whatever it was asked before.** -/
theorem Session.After.tallied {clock : Nat → Float} {past : Past} {session : Session}
    (after : After clock past session) : Tallied past session := by
  induction after with
  | start => exact Tallied.atStart clock
  | request before begins ends ih => exact ih.request before begins ends
  | refused _ refuses ih => exact ih.of_same (by rw [refuses.same.1])
  | global _ _ _ ih | sink _ _ ih | output _ ih => exact ih.of_same rfl

/-- **Functions are equal if they stem from the same evaluation.** In any session, whatever was run
in it before, consider a request whose text is read and resolved, and all moments up to its end.
Each time a lambda is evaluated or the declaration of a function is executed, with fuel left, a
function is made and delivered that is equal to no value that is there. However it is copied, it is
equal to what it was copied from. All functions that are there at some moment, come out of it or are
bound when it has ended stem from such a moment, and two of them are equal exactly when they stem
from the same one. That is one evaluation only: there is a single way to come to it, and there was
none in the requests before. Native functions are equal exactly when they have the same name, and
never equal any other value. -/
theorem functions_stem_from_one_evaluation {clock : Nat → Float} {past : Past} {session : Session}
    {request : Request} {root : Site} {start : Moment} {next : Nat}
    (after : Session.After clock past session) (begins : session.Begins request root start next) :
    (∀ maker, (past.add root start).moments maker → maker.errand.makesFunction = true →
      0 < maker.fuel →
      ∃ value, (past.add root start).Stems maker value ∧ maker.Delivers value ∧
        ∀ other, (past.add root start).Present maker other →
          ¬ value.IsEqual other ∧ ¬ other.IsEqual value) ∧
    (∀ closure copy, Relation.ReflTransGen (past.add root start).Copies (.function closure) copy →
      (Value.function closure).IsEqual copy) ∧
    (∀ moment closure, (past.add root start).moments moment →
      (past.add root start).Present moment (.function closure) ∨ moment.Leaves (.function closure) →
      ∃ maker, (past.add root start).Stems maker (.function closure)) ∧
    (∀ maker other first second, (past.add root start).Stems maker first →
      (past.add root start).Stems other second →
      (first.IsEqual second ↔ maker = other)) ∧
    (∀ maker, Reaches start maker → maker.errand.makesFunction = true → 0 < maker.fuel →
      ¬ past.moments maker ∧ ∃! path, Path start path maker) ∧
    ∀ known value,
      ((Value.native known).IsEqual value ↔
        ∃ other, value = .native other ∧ other.name = known.name) ∧
      (value.IsEqual (.native known) ↔
        ∃ other, value = .native other ∧ other.name = known.name) := by
  obtain ⟨numbered, sourced⟩ := after.tallied.begins after begins
  obtain ⟨proper, -⟩ := after.upheld.begins begins
  refine ⟨fun maker isMoment makesFunction hasFuel => ?_, fun closure copy copies => ?_,
    fun moment closure isMoment there => ?_, fun maker other first second stems otherStems => ?_,
    fun maker reaches makesFunction hasFuel => ?_, fun known value => Value.isEqual_native⟩
  · obtain ⟨closure, makes⟩ := Errand.exists_makes makesFunction hasFuel
    refine ⟨.function closure, ⟨isMoment, closure, makes, .refl⟩,
      (sourced maker isMoment).delivered closure makes,
      fun other present => not_or.mp fun same => ?_⟩
    exact makes.not_isEqual (present.counted numbered proper.closed isMoment) same
  · rw [Past.eq_of_copies copies]
    exact Value.isEqual_function.mpr rfl
  · have made : (past.add root start).Made closure := by
      rcases there with present | leaves
      · exact present.made sourced proper.closed isMoment
      · exact (sourced moment isMoment).left closure leaves
    obtain ⟨maker, isMaker, makes⟩ := made
    exact ⟨maker, isMaker, closure, makes, .refl⟩
  · exact numbered.isEqual_iff stems otherStems
  · obtain ⟨closure, makes⟩ := Errand.exists_makes makesFunction hasFuel
    obtain ⟨-, same, -⟩ := begins.numbered after.numbered
    obtain ⟨path, onPath⟩ := Path.exists_of_reaches reaches
    refine ⟨fun inPast => ?_, path, onPath,
      fun other onOther => onOther.eq_of_identity onPath makes makes rfl⟩
    exact Nat.lt_irrefl _ (Past.lt_of_add (same ▸ after.tallied.used) reaches makes
      ⟨maker, inPast, makes⟩)

/-- A lambda that is evaluated in each round of a loop, in the same scope, makes a function each
time, and these are not equal. -/
theorem rounds_make_unequal_functions :
    ∃ (start maker other : Moment) (first second : Closure), Reaches start maker ∧
      Reaches start other ∧
      maker.errand = other.errand ∧ maker.machine.scope = other.machine.scope ∧ Makes maker first ∧
      Makes other second ∧ ¬ (Value.function first).IsEqual (.function second) := by
  have reached : ∃ root start, Session.Begins (.start fun _ => 0)
      (.run 20 "var a; var b; while (!b) (b = a) == (a = fun () \x7b\x7d);") root start 6 ∧
      ∃ keyword body maker other, Reaches start maker ∧ Reaches start other ∧
        maker.errand = .expression (.lambda keyword body) ∧
        other.errand = .expression (.lambda keyword body) ∧
        maker.machine.scope = other.machine.scope ∧ maker.machine.nextFunction = 0 ∧
        other.machine.nextFunction = 1 ∧ ∃ first second, Makes maker first ∧ Makes other second :=
    ⟨_, _, .run rfl rfl, _, _, _, _,
      .head (.restOfProgram rfl) <| .head (.restOfProgram rfl) <| .head .programStatement <|
        .head .whileLoop <|
        .head (.loopBody rfl rfl) <| .head .expressionStatement <| .head (.binaryRight rfl) <|
        .head .grouping <| .head .assigned .refl,
      .head (.restOfProgram rfl) <| .head (.restOfProgram rfl) <| .head .programStatement <|
        .head .whileLoop <|
        .head (.loopAgain rfl rfl rfl) <| .head (.loopBody rfl rfl) <| .head .expressionStatement <|
        .head (.binaryRight rfl) <| .head .grouping <| .head .assigned .refl,
      rfl, rfl, rfl, rfl, rfl, _, _, .lambda, .lambda⟩
  obtain ⟨root, start, begins, keyword, body, maker, other, reaches, otherReaches,
    isLambda, otherIsLambda, sameScope, isFirst, isSecond, first, second, makes, makesOther⟩ :=
    reached
  refine ⟨start, maker, other, first, second, reaches, otherReaches,
    isLambda.trans otherIsLambda.symm, sameScope, makes, makesOther, fun same => ?_⟩
  have oneMaker := ((functions_stem_from_one_evaluation .start begins).2.2.2.1 maker other _ _
    ⟨.inr reaches, first, makes, .refl⟩ ⟨.inr otherReaches, second, makesOther, .refl⟩).mp same
  rw [oneMaker, isSecond] at isFirst
  cases isFirst

end Lox
