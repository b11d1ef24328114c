/-
**A closed sink changes nothing but the printing.**

* `Machine.withSink` — the same machine with another sink.
* `Run.Mutes` — with a closed sink, a computation that prints nothing with an open one does the
  same, and any other computation is refused before it has printed anything. That is a congruence,
  so all of evaluation is like this (`Moment.mutes`).
* `Enters.withSink` — where one moment enters another, it does so with another sink, too, as long as
  what is evaluated in between comes to the same.
* `Moment.Writes`, `Moment.WritesFirst` — in the course of the run from a moment, a `print`
  statement writes a line, and is the first to do so.
* `closed_sink_changes_only_printing` — a run with a closed sink is the run with an open one, up to
  where a line is written; there it ends with an error, with no further effect.
-/

import Lox.Proofs.Evaluation.Origins
import Lox.Proofs.Evaluation.Unwinding
import Lox.Proofs.Session.Depth

namespace Lox

/-! ### Sinks -/

/-- The machine with this sink. -/
def Machine.withSink (machine : Machine) (sink : Sink) : Machine :=
  { machine with sink := sink }

/-- A later machine has printed no less than an earlier one. -/
def Machine.Prolongs (machine later : Machine) : Prop :=
  machine.output.length ≤ later.output.length

/-- What has been printed is not taken back. -/
instance : Machine.Frame Machine.Prolongs where
  refl _ := Nat.le_refl _
  trans _ _ _ first second := Nat.le_trans first second
  store _ _ := Nat.le_refl _
  line machine text := by
    unfold Machine.Prolongs
    rw [String.length_append, String.length_append]
    omega
  ticks _ _ := Nat.le_refl _
  nextFunction _ := Nat.le_refl _
  scope _ _ _ prolongs := prolongs
  depth _ _ prolongs := prolongs

theorem Machine.withSink_of_eq {machine : Machine} {sink : Sink} (isSink : machine.sink = sink) :
    machine.withSink sink = machine := by
  subst isSink
  rfl

theorem checkCall_withSink (closing : Token) (arity arguments : Nat) (sink : Sink)
    (machine : Machine) :
    Run.checkCall closing arity arguments (machine.withSink sink) =
      (Run.checkCall closing arity arguments machine).onState (·.withSink sink) := by
  unfold Run.checkCall
  have same : (machine.withSink sink).depth = machine.depth := rfl
  rw [same]
  split
  · rfl
  · split <;> rfl

/-! ### Computations with a closed sink -/

section

variable {α β : Type}

/-- The outcome is that a line could not be printed. The output is still this one. -/
def Outcome.Refused (reason output : String) (outcome : Outcome Machine RuntimeError α) : Prop :=
  ∃ keyword later, outcome = .failed ⟨keyword, .outputFailed reason⟩ later ∧ later.output = output

/-- The rejecting outcome is the accepting one but for the sink, and nothing was printed. -/
structure Outcome.SameButSink (reason output : String)
    (accepting rejecting : Outcome Machine RuntimeError α) : Prop where
  same : rejecting = accepting.onState (·.withSink (.closed reason))
  silent : ∀ later, accepting.state? = some later → later.output = output

/-- However the outcome came about, something has been printed since the output was this one. -/
def Outcome.Printed (output : String) (outcome : Outcome Machine RuntimeError α) : Prop :=
  ∀ later, outcome.state? = some later → output.length < later.output.length

/-- The rejecting outcome is the accepting one, if nothing was printed, or else a refusal. -/
def Outcome.Mutes (reason output : String) (accepting rejecting : Outcome Machine RuntimeError α) :
    Prop :=
  accepting.SameButSink reason output rejecting ∨ rejecting.Refused reason output ∧
    accepting.Printed output

/-- Whatever the computation does with an open sink, it does with a closed one, or it is refused. -/
structure Run.Mutes (reason : String) (body : Run α) : Prop where
  keeps : Step.Stays Machine.SameSink body
  prolongs : Step.Stays Machine.Prolongs body
  mutes : ∀ machine, machine.sink = .open →
    (body machine).Mutes reason machine.output (body (machine.withSink (.closed reason)))

/-- What is put back at the end has nothing to do with the sink. -/
theorem Outcome.Mutes.onState {reason output : String}
    {accepting rejecting : Outcome Machine RuntimeError α}
    (mutes : accepting.Mutes reason output rejecting) {change : Machine → Machine}
    (spares : ∀ later, (change later).output = later.output)
    (same : ∀ later : Machine, change (later.withSink (.closed reason)) =
      (change later).withSink (.closed reason)) :
    (accepting.onState change).Mutes reason output (rejecting.onState change) := by
  have before {later} (left : (accepting.onState change).state? = some later) :
      ∃ last, accepting.state? = some last ∧ change last = later := by
    rwa [Outcome.state?_onState, Option.map_eq_some_iff] at left
  rcases mutes with ⟨rfl, silent⟩ | ⟨⟨keyword, later, rfl, unchanged⟩, printed⟩
  · refine .inl ⟨?_, fun later left => ?_⟩
    · cases accepting with
      | done value later => exact congrArg (Outcome.done value) (same later)
      | failed error later => exact congrArg (Outcome.failed error) (same later)
      | outOfFuel => rfl
    · obtain ⟨last, ended, rfl⟩ := before left
      exact (spares last).trans (silent last ended)
  · refine .inr ⟨⟨keyword, change later, rfl, (spares later).trans unchanged⟩, fun later left => ?_⟩
    obtain ⟨last, ended, rfl⟩ := before left
    rw [spares]
    exact printed last ended

theorem Outcome.Mutes.map {reason output : String}
    {accepting rejecting : Outcome Machine RuntimeError α}
    (mutes : accepting.Mutes reason output rejecting) (change : α → β) :
    (accepting.map change).Mutes reason output (rejecting.map change) := by
  rcases mutes with ⟨rfl, silent⟩ | ⟨⟨keyword, later, rfl, unchanged⟩, printed⟩
  · left
    refine ⟨?_, fun later left => silent later (Outcome.state?_map change accepting ▸ left)⟩
    cases accepting <;> rfl
  · right
    exact ⟨⟨keyword, later, rfl, unchanged⟩, fun later left =>
      printed later (Outcome.state?_map change accepting ▸ left)⟩

namespace Run.Mutes

variable {reason : String}

theorem bind {first : Run α} {next : α → Run β} (mutes : first.Mutes reason)
    (rest : ∀ value, (next value).Mutes reason) : Run.Mutes reason (first >>= next) := by
  refine ⟨.bind mutes.keeps fun value => (rest value).keeps,
    .bind mutes.prolongs fun value => (rest value).prolongs, fun machine isOpen => ?_⟩
  have kept := mutes.keeps machine
  rw [Step.bind_apply, Step.bind_apply]
  rcases mutes.mutes machine isOpen
    with ⟨same, silent⟩ | ⟨⟨keyword, later, refused, output⟩, printed⟩
  · rw [same]
    cases ran : first machine with
    | done value between =>
      rw [ran] at kept silent
      have after := (rest value).mutes between ((kept between rfl).trans isOpen)
      rwa [silent between rfl] at after
    | failed | outOfFuel =>
      rw [ran] at silent
      exact .inl ⟨rfl, silent⟩
  · rw [refused]
    refine .inr ⟨⟨keyword, later, rfl, output⟩, fun last left => ?_⟩
    -- what comes after the refused line may print more
    cases ran : first machine with
    | done value between =>
      rw [ran] at left printed
      exact Nat.lt_of_lt_of_le (printed between rfl) ((rest value).prolongs between last left)
    | failed | outOfFuel =>
      rw [ran] at left printed
      exact printed last left

theorem inScope (scope : ScopeId) {body : Run α} (mutes : body.Mutes reason) :
    Run.Mutes reason (Run.inScope scope body) := by
  refine ⟨.inScope scope mutes.keeps, .inScope scope mutes.prolongs, fun machine isOpen => ?_⟩
  rw [Run.inScope_apply, Run.inScope_apply]
  exact (mutes.mutes { machine with scope := scope } isOpen).onState (fun _ => rfl) fun _ => rfl

theorem inCall {body : Run α} (mutes : body.Mutes reason) :
    Run.Mutes reason (Run.inCall body) := by
  refine ⟨.inCall mutes.keeps, .inCall mutes.prolongs, fun machine isOpen => ?_⟩
  rw [Run.inCall_apply, Run.inCall_apply]
  exact (mutes.mutes { machine with depth := machine.depth + 1 } isOpen).onState (fun _ => rfl)
    fun _ => rfl

/-- The one operation that looks at the sink. -/
theorem print (keyword : Token) (value : Value) : Run.Mutes reason (Run.print keyword value) := by
  refine ⟨.print keyword value, .print keyword value, fun machine isOpen =>
    .inr ⟨⟨keyword, machine.withSink (.closed reason), rfl, rfl⟩, fun later left => ?_⟩⟩
  rw [Run.print, isOpen] at left
  cases left
  have lineEnd : "\n".length = 1 := rfl
  dsimp only
  rw [String.length_append, String.length_append, lineEnd]
  omega

/-- An operation that does not look at the sink, and prints nothing. -/
theorem of_same {body : Run α} (keeps : Step.Stays Machine.SameSink body)
    (same : ∀ machine, body (machine.withSink (.closed reason)) =
      (body machine).onState (·.withSink (.closed reason)))
    (silent : ∀ machine later, (body machine).state? = some later → later.output = machine.output) :
    body.Mutes reason :=
  ⟨keeps, fun machine later left => Nat.le_of_eq
    (congrArg String.length (silent machine later left).symm),
    fun machine _ => .inl ⟨same machine, silent machine⟩⟩

theorem congruence (reason : String) : Run.Congruence fun body _ => body.Mutes reason where
  pure value := of_same (.pure value) (fun _ => rfl) fun _ _ left => by cases left; rfl
  raise token fault := of_same (.fail _) (fun _ => rfl) fun _ _ left => by cases left; rfl
  bind := bind
  readVariable node name := by
    refine of_same (.readVariable node name) (fun machine => ?_) fun machine later left => ?_
    · unfold Run.readVariable
      have same : (machine.withSink (.closed reason)).valueAt? node name.lexeme =
        machine.valueAt? node name.lexeme := rfl
      rw [same]
      cases machine.valueAt? node name.lexeme <;> rfl
    · unfold Run.readVariable at left
      split at left <;> cases left <;> rfl
  assignVariable node name value := by
    refine of_same (.assignVariable node name value) (fun machine => ?_)
      fun machine later left => ?_
    · unfold Run.assignVariable
      have same : (machine.withSink (.closed reason)).targetOf? node name.lexeme =
        machine.targetOf? node name.lexeme := rfl
      rw [same]
      cases machine.targetOf? node name.lexeme <;> rfl
    · unfold Run.assignVariable at left
      split at left <;> cases left <;> rfl
  declare name value := of_same (.declare name value) (fun _ => rfl) fun _ _ left => by
    cases left; rfl
  makeFunction name body := of_same (.makeFunction name body) (fun _ => rfl) fun _ _ left => by
    cases left; rfl
  readClock := of_same .readClock (fun _ => rfl) fun _ _ left => by cases left; rfl
  print := print
  currentScope := of_same (.view _) (fun _ => rfl) fun _ _ left => by cases left; rfl
  openScope enclosing := of_same (.openScope enclosing) (fun _ => rfl) fun _ _ left => by
    cases left; rfl
  defineAll scope bindings :=
    of_same (.defineAll scope bindings) (fun _ => rfl) fun _ _ left => by cases left; rfl
  checkCall closing arity arguments := by
    refine of_same (.checkCall closing arity arguments)
      (checkCall_withSink closing arity arguments (.closed reason)) fun machine later left => ?_
    unfold Run.checkCall at left
    split at left
    · cases left
      rfl
    · split at left <;> cases left <;> rfl
  inScope scope _ _ mutes := inScope scope mutes
  inCall mutes := inCall mutes

/-- **With a closed sink, all of evaluation does the same or is refused.** -/
theorem evaluation (reason : String) (fuel : Nat) :
    EvaluationRelated (fun body _ => body.Mutes reason) fuel fuel :=
  (congruence reason).evaluation_same (of_same .exhausted (fun _ => rfl) nofun) fuel

theorem assignVariable (node : NodeId) (name : Token) (value : Value) :
    Run.Mutes reason (Run.assignVariable node name value) :=
  (congruence reason).assignVariable node name value

theorem interpret (fuel : Nat) (program : List Stmt) :
    Run.Mutes reason (interpret fuel program) :=
  (congruence reason).interpret (evaluation reason fuel) program

end Run.Mutes

end

/-! ### Moments -/

namespace Moment

/-- The moment in a machine with this sink. -/
def withSink (moment : Moment) (sink : Sink) : Moment :=
  { moment with machine := moment.machine.withSink sink }

/-- **What is set about with an open sink comes to the same with a closed one, or is refused.** -/
theorem mutes (moment : Moment) (reason : String) (isOpen : moment.machine.sink = .open) :
    moment.outcome.Mutes reason moment.machine.output
      (moment.withSink (.closed reason)).outcome := by
  obtain ⟨fuel, errand, machine⟩ := moment
  have all := Run.Mutes.evaluation reason fuel
  cases errand with
  | expression value => exact ((all.evaluate value).mutes machine isOpen).map _
  | arguments values => exact ((all.evaluateAll values).mutes machine isOpen).map _
  | call callee closing arguments =>
    exact ((all.callValue callee closing arguments).mutes machine isOpen).map _
  | assignment node name value =>
    exact ((Run.Mutes.assignVariable node name value).mutes machine isOpen).map _
  | statement form => exact ((all.execute form).mutes machine isOpen).map _
  | optional value => exact ((all.evaluateOr value).mutes machine isOpen).map _
  | statements forms => exact ((all.executeAll forms).mutes machine isOpen).map _
  | loop condition body => exact ((all.repeatWhile condition body).mutes machine isOpen).map _
  | program forms => exact ((Run.Mutes.interpret fuel forms).mutes machine isOpen).map _

end Moment

/-! ### From one sink to the other -/

theorem Outcome.of_map_done {σ ε α β : Type} {change : α → β}
    (injective : Function.Injective change) {outcome : Outcome σ ε α} {value : α} {later : σ}
    (ended : outcome.map change = .done (change value) later) :
    outcome = .done value later := by
  cases outcome with
  | done found last =>
    obtain ⟨same, rfl⟩ := Outcome.done.inj ended
    rw [injective same]
  | failed | outOfFuel => cases ended

theorem Flow.values_injective : Function.Injective Flow.values := by
  intro first second same
  cases first <;> cases second <;> cases same <;> rfl

/-- What is entered with both sinks and ends with a value with the one, ends with it with the other.
Where that fails, something else holds of the machine that is left. -/
def Moment.Carries (outer : Moment) (sink : Sink) (otherwise : Machine → Prop) : Prop :=
  ∀ part values later, Enters outer part → Enters (outer.withSink sink) (part.withSink sink) →
    part.outcome = .done values later →
      (part.withSink sink).outcome = .done values (later.withSink sink) ∨ otherwise later

section

variable {outer : Moment} {sink : Sink} {otherwise : Machine → Prop}
  (carries : outer.Carries sink otherwise) {fuel : Nat} {machine later : Machine}

include carries

theorem Moment.Carries.evaluate {expression : Expr} {value : Value}
    (enters : Enters outer ⟨fuel, .expression expression, machine⟩)
    (other : Enters (outer.withSink sink) ⟨fuel, .expression expression, machine.withSink sink⟩)
    (ran : evaluate fuel expression machine = .done value later) :
    Lox.evaluate fuel expression (machine.withSink sink) = .done value (later.withSink sink) ∨
      otherwise later :=
  (carries _ [value] later enters other (by rw [Moment.outcome, ran]; rfl)).imp_left
    (Outcome.of_map_done List.singleton_injective)

theorem Moment.Carries.evaluateAll {expressions : List Expr} {values : List Value}
    (enters : Enters outer ⟨fuel, .arguments expressions, machine⟩)
    (other : Enters (outer.withSink sink) ⟨fuel, .arguments expressions, machine.withSink sink⟩)
    (ran : evaluateAll fuel expressions machine = .done values later) :
    Lox.evaluateAll fuel expressions (machine.withSink sink) = .done values (later.withSink sink) ∨
      otherwise later :=
  (carries _ values later enters other (by rw [Moment.outcome, ran]; rfl)).imp_left
    (Outcome.of_map_done Function.injective_id)

theorem Moment.Carries.execute {form : Stmt} {flow : Flow}
    (enters : Enters outer ⟨fuel, .statement form, machine⟩)
    (other : Enters (outer.withSink sink) ⟨fuel, .statement form, machine.withSink sink⟩)
    (ran : execute fuel form machine = .done flow later) :
    Lox.execute fuel form (machine.withSink sink) = .done flow (later.withSink sink) ∨
      otherwise later :=
  (carries _ flow.values later enters other (by rw [Moment.outcome, ran]; rfl)).imp_left
    (Outcome.of_map_done Flow.values_injective)

/-- **With another sink, a moment enters the same one,** unless something that was evaluated before
came to something else. -/
theorem Enters.withSink {inner : Moment} (enters : Enters outer inner)
    (lasts : ∀ {between last : Machine}, between.Prolongs last → otherwise between →
      otherwise last) :
    Enters (outer.withSink sink) (inner.withSink sink) ∨ otherwise inner.machine := by
  cases enters with
  | binaryRight ran => exact (carries.evaluate .binaryLeft .binaryLeft ran).imp_left .binaryRight
  | logicalRight ran decides =>
    exact (carries.evaluate .logicalLeft .logicalLeft ran).imp_left
      fun ran => .logicalRight ran decides
  | ternaryYes ran decides =>
    exact (carries.evaluate .ternaryCondition .ternaryCondition ran).imp_left
      fun ran => .ternaryYes ran decides
  | ternaryNo ran decides =>
    exact (carries.evaluate .ternaryCondition .ternaryCondition ran).imp_left
      fun ran => .ternaryNo ran decides
  | assignment ran => exact (carries.evaluate .assigned .assigned ran).imp_left .assignment
  | arguments ran => exact (carries.evaluate .callee .callee ran).imp_left .arguments
  | call ran ranAll =>
    rcases carries.evaluate .callee .callee ran with ranToo | other
    · exact (carries.evaluateAll (.arguments ran) (.arguments ranToo) ranAll).imp_left
        (.call ranToo)
    · exact .inr (lasts (((Lox.framed _ _).evaluateAll _).of_done ranAll) other)
  | otherArguments ran =>
    exact (carries.evaluate .firstArgument .firstArgument ran).imp_left .otherArguments
  | body checked =>
    refine .inl (.body ?_)
    rw [checkCall_withSink, checked]
    rfl
  | ifYes ran decides =>
    exact (carries.evaluate .ifCondition .ifCondition ran).imp_left fun ran => .ifYes ran decides
  | ifNo ran decides =>
    exact (carries.evaluate .ifCondition .ifCondition ran).imp_left fun ran => .ifNo ran decides
  | otherStatements ran =>
    exact (carries.execute .firstStatement .firstStatement ran).imp_left .otherStatements
  | loopBody ran decides =>
    exact (carries.evaluate .loopCondition .loopCondition ran).imp_left
      fun ran => .loopBody ran decides
  | loopAgain ran decides ranBody =>
    rcases carries.evaluate .loopCondition .loopCondition ran with ranToo | other
    · exact (carries.execute (.loopBody ran decides) (.loopBody ranToo decides) ranBody).imp_left
        (.loopAgain ranToo decides)
    · exact .inr (lasts (((Lox.framed _ _).execute _).of_done ranBody) other)
  | restOfProgram ran =>
    exact (carries.execute .programStatement .programStatement ran).imp_left .restOfProgram
  -- nothing is evaluated before
  | _ =>
    left
    constructor

end

/-- Along a run, the sink stays as it is, -/
theorem Reaches.sink {start moment : Moment} (reaches : Reaches start moment) :
    moment.machine.sink = start.machine.sink :=
  reaches.framed Machine.SameSink (fun _ => rfl) fun _ _ _ => rfl

theorem Enters.sink {outer inner : Moment} (enters : Enters outer inner) :
    inner.machine.sink = outer.machine.sink :=
  Reaches.sink (.single enters)

/-- and what has been printed is not taken back. -/
theorem Reaches.prolongs {start moment : Moment} (reaches : Reaches start moment) :
    start.machine.Prolongs moment.machine :=
  reaches.framed Machine.Prolongs (fun _ => Nat.le_refl _) fun _ _ _ => Nat.le_refl _

theorem Enters.prolongs {outer inner : Moment} (enters : Enters outer inner) :
    outer.machine.Prolongs inner.machine :=
  Reaches.prolongs (.single enters)

theorem Outcome.Refused.passesOn {α β : Type} {reason output : String}
    {outcome : Outcome Machine RuntimeError α} {around : Outcome Machine RuntimeError β}
    (refused : outcome.Refused reason output) (passes : outcome.PassesOn around) :
    around.Refused reason output := by
  obtain ⟨keyword, later, rfl, unchanged⟩ := refused
  obtain ⟨scope, depth, rfl⟩ := passes
  exact ⟨keyword, _, rfl, unchanged⟩

namespace Moment

variable {reason : String} {start outer : Moment}

/-- With a closed sink, what is set about at this moment is refused. With an open one, something has
been printed by the time of this machine. -/
def RefusedBefore (reason : String) (outer : Moment) (later : Machine) : Prop :=
  (∃ output, (outer.withSink (.closed reason)).outcome.Refused reason output) ∧
    outer.machine.output.length < later.output.length

theorem RefusedBefore.lasts {between last : Machine} (prolongs : between.Prolongs last)
    (refused : outer.RefusedBefore reason between) : outer.RefusedBefore reason last :=
  ⟨refused.1, Nat.lt_of_lt_of_le refused.2 prolongs⟩

/-- What ends with a value with an open sink ends with it with a closed one, or
all around it is refused. -/
theorem carries_closed (isOpen : outer.machine.sink = .open) :
    outer.Carries (.closed reason) (outer.RefusedBefore reason) := by
  intro part values later enters other ended
  rcases part.mutes reason (enters.sink.trans isOpen) with ⟨same, -⟩ | ⟨refused, printed⟩
  · left
    rw [same, ended]
    rfl
  · have longer := printed later (by rw [ended]; rfl)
    exact .inr ⟨⟨_, refused.passesOn other.passesOn⟩, Nat.lt_of_le_of_lt enters.prolongs longer⟩

/-- What ends with a value with a closed sink ends with it with an open one. -/
theorem carries_open (isClosed : outer.machine.sink = .closed reason) :
    outer.Carries .open fun _ => False := by
  intro part values later enters _ ended
  have isPart : (part.withSink .open).withSink (.closed reason) = part := by
    obtain ⟨fuel, errand, machine⟩ := part
    exact congrArg (Moment.mk fuel errand) (Machine.withSink_of_eq (enters.sink.trans isClosed))
  have mutes := (part.withSink .open).mutes reason rfl
  rw [isPart, ended] at mutes
  rcases mutes with ⟨same, -⟩ | ⟨⟨_, _, refused, -⟩, -⟩
  · left
    cases ran : (part.withSink .open).outcome with
    | done found last =>
      have isOpen : (part.withSink .open).machine.SameSink last :=
        Moment.framed Machine.SameSink (by rw [ran]; rfl)
      rw [ran] at same
      obtain ⟨rfl, rfl⟩ := Outcome.done.inj same
      exact congrArg (Outcome.done values) (Machine.withSink_of_eq isOpen).symm
    | failed | outOfFuel =>
      rw [ran] at same
      cases same
  · cases refused

/-! ### Where lines are printed -/

/-- At this moment, a `print` statement with this keyword writes a line; this is the machine in
which its value has been evaluated. -/
inductive Prints : Moment → Token → Machine → Prop
  | print {fuel : Nat} {keyword : Token} {value : Expr} {printed : Value}
      {machine evaluated written : Machine} :
      evaluate fuel value machine = .done printed evaluated →
      Run.print keyword printed evaluated = .done () written →
      Prints ⟨fuel + 1, .statement (.print keyword value), machine⟩ keyword evaluated

theorem Prints.prolongs {moment : Moment} {keyword : Token} {evaluated : Machine}
    (prints : moment.Prints keyword evaluated) : moment.machine.Prolongs evaluated := by
  cases prints with
  | @print fuel _ value _ _ _ _ ran _ =>
    exact ((Lox.framed Machine.Prolongs fuel).evaluate value).of_done ran

/-- In the course of the run from a moment, a `print` statement writes a line. -/
def Writes (start : Moment) (keyword : Token) (evaluated : Machine) : Prop :=
  ∃ moment, Reaches start moment ∧ moment.Prints keyword evaluated

/-- **A run that writes a line is refused when the sink is closed.** If nothing has been printed
before that line, it is this line that is refused. -/
theorem refused_of_prints {moment : Moment} {keyword : Token} {evaluated : Machine}
    (isOpen : start.machine.sink = .open) (reaches : Reaches start moment)
    (prints : moment.Prints keyword evaluated) :
    ∃ found later, (start.withSink (.closed reason)).outcome =
      .failed ⟨found, .outputFailed reason⟩ later ∧
      (evaluated.Prolongs start.machine → found = keyword ∧
        ∃ scope depth, later =
          { evaluated with sink := .closed reason, scope := scope, depth := depth }) := by
  induction reaches using Relation.ReflTransGen.head_induction_on with
  | refl =>
    cases prints with
    | @print fuel keyword value printed machine evaluated written ran _ =>
      rcases (carries_closed isOpen).evaluate .print .print ran
        with ranToo | ⟨⟨_, found, later, refused, -⟩, longer⟩
      · refine ⟨keyword, evaluated.withSink (.closed reason), ?_, fun _ => ⟨rfl, _, _, rfl⟩⟩
        show (execute (fuel + 1) (.print keyword value) (machine.withSink (.closed reason))).map
          Flow.values = _
        rw [execute, Step.bind_apply, ranToo]
        rfl
      · exact ⟨found, later, refused, fun first => absurd first (Nat.not_le_of_lt longer)⟩
  | @head outer inner enters reached ih =>
    have within : inner.machine.Prolongs evaluated :=
      Nat.le_trans (Reaches.prolongs reached) prints.prolongs
    rcases enters.withSink (carries_closed isOpen) .lasts
      with entersToo | ⟨⟨_, found, later, refused, -⟩, longer⟩
    · obtain ⟨found, later, failed, same⟩ := ih (enters.sink.trans isOpen)
      have passes := entersToo.passesOn
      rw [failed] at passes
      obtain ⟨scope, depth, failed⟩ := passes
      refine ⟨found, _, failed, fun first => ?_⟩
      obtain ⟨rfl, _, _, rfl⟩ := same (Nat.le_trans first enters.prolongs)
      exact ⟨rfl, scope, depth, rfl⟩
    · have less := Nat.lt_of_lt_of_le longer within
      exact ⟨found, later, refused, fun first => absurd first (Nat.not_le_of_lt less)⟩

/-- **Where a line could not be printed, its value has been evaluated.** -/
theorem comes_to_print {keyword : Token} {later : Machine}
    (failed : start.outcome = .failed ⟨keyword, .outputFailed reason⟩ later) :
    ∃ fuel value machine printed evaluated,
      Reaches start ⟨fuel + 1, .statement (.print keyword value), machine⟩ ∧
      evaluate fuel value machine = .done printed evaluated := by
  -- a `print` statement whose value is refused is not the last one; the value has less fuel
  induction isSize : start.fuel using Nat.strongRecOn generalizing start later with
  | ind size ih =>
    obtain ⟨last, reaches, faults⟩ := traced start _ _ failed
    cases faults with
    | unary raised => cases isOfOperator_of_applyUnary raised
    | binary raised => cases isOfOperator_of_applyBinary raised
    | checked failed =>
      unfold Run.checkCall at failed
      split at failed
      · cases failed
      · split at failed <;> cases failed
    | @print fuel _ value machine =>
      cases fuel with
      | zero => cases failed.symm.trans (reaches.outOfFuel rfl)
      | succ fuel =>
        have inner : Reaches start ⟨fuel, .expression value, machine⟩ := reaches.tail .print
        cases ran : evaluate fuel value machine with
        | done printed evaluated => exact ⟨fuel, value, machine, printed, evaluated, reaches, ran⟩
        | outOfFuel => cases failed.symm.trans (inner.outOfFuel (by rw [Moment.outcome, ran]; rfl))
        | failed error last =>
          have innerFailed : Moment.outcome ⟨fuel, .expression value, machine⟩ =
              .failed error last := by
            rw [Moment.outcome, ran]
            rfl
          obtain ⟨scope, depth, same⟩ := inner.failed innerFailed
          obtain ⟨rfl, -⟩ := Outcome.failed.inj (failed.symm.trans same)
          have less : fuel < size := isSize ▸ reaches.fuel_le
          obtain ⟨_, _, _, _, _, comes, ended⟩ := ih fuel less innerFailed rfl
          exact ⟨_, _, _, _, _, inner.trans comes, ended⟩

/-- Nothing has been written before: the output is still what it was at the start. -/
structure WritesFirst (start : Moment) (keyword : Token) (evaluated : Machine) : Prop where
  writes : start.Writes keyword evaluated
  first : evaluated.output = start.machine.output

/-- What a run with a closed sink comes to, it comes to with an open one. -/
theorem reaches_withOpenSink {moment : Moment} (isClosed : start.machine.sink = .closed reason)
    (reaches : Reaches start moment) : Reaches (start.withSink .open) (moment.withSink .open) := by
  induction reaches with
  | refl => exact .refl
  | tail before enters ih =>
    have between := (Reaches.sink before).trans isClosed
    exact ih.tail ((enters.withSink (carries_open between) fun _ => id).resolve_right id)

/-- **What is refused with a closed sink is what is written first with an open one.** -/
theorem writesFirst_of_failed (isClosed : start.machine.sink = .closed reason) {keyword : Token}
    {later : Machine} (failed : start.outcome = .failed ⟨keyword, .outputFailed reason⟩ later)
    (silent : later.output = start.machine.output) :
    ∃ evaluated, (start.withSink .open).WritesFirst keyword evaluated := by
  obtain ⟨fuel, value, machine, printed, evaluated, reaches, ran⟩ := comes_to_print failed
  have sink : machine.sink = .closed reason := reaches.sink.trans isClosed
  have evaluatedSink : evaluated.sink = .closed reason :=
    (((Lox.framed Machine.SameSink fuel).evaluate value).of_done ran).trans sink
  have carries : Carries ⟨fuel + 1, .statement (.print keyword value), machine⟩ .open
      fun _ => False :=
    carries_open sink
  have ranToo : evaluate fuel value (machine.withSink .open) =
      .done printed (evaluated.withSink .open) :=
    (carries.evaluate .print .print ran).resolve_right id
  have printing : Moment.outcome ⟨fuel + 1, .statement (.print keyword value), machine⟩ =
      .failed ⟨keyword, .outputFailed reason⟩ evaluated := by
    rw [Moment.outcome, execute, Step.bind_apply, ran]
    dsimp only
    rw [Step.bind_apply, Run.print, evaluatedSink]
    rfl
  obtain ⟨scope, depth, same⟩ := reaches.failed printing
  obtain ⟨-, rfl⟩ := Outcome.failed.inj (failed.symm.trans same)
  exact ⟨evaluated.withSink .open, ⟨_, reaches_withOpenSink isClosed reaches, .print ranToo rfl⟩,
    silent⟩

end Moment

/-! ### Runs with either sink -/

theorem Outcome.Mutes.silent {α : Type} {reason output : String}
    {accepting rejecting : Outcome Machine RuntimeError α}
    (mutes : accepting.Mutes reason output rejecting) {later : Machine}
    (left : rejecting.state? = some later) :
    later.output = output := by
  rcases mutes with ⟨rfl, silent⟩ | ⟨⟨_, _, rfl, unchanged⟩, -⟩
  · cases accepting with
    | done value last =>
      cases left
      exact silent last rfl
    | failed error last =>
      cases left
      exact silent last rfl
    | outOfFuel => cases left
  · cases left
    exact unchanged

theorem Outcome.failed_of_map {σ ε α β : Type} {change : α → β} {outcome : Outcome σ ε α}
    {error : ε} {later : σ} (failed : outcome.map change = .failed error later) :
    outcome = .failed error later := by
  cases outcome with
  | failed =>
    cases failed
    rfl
  | done | outOfFuel => cases failed

/-- **A closed sink changes nothing but the printing.** A statement is run on a machine with an open
sink and with a closed one, for whatever reason it is closed. If no line is written with the open
one, the outcome with the closed one is the same, and so is the machine that is left, but for the
sink. Otherwise there is a `print` statement that writes first with the open one, and the run with
the closed one ends with an error at its keyword, which tells the reason. It leaves the machine in
which the value of that statement has been evaluated, with the sink closed and with the scope and
the depth of the beginning. Nothing has been printed. -/
theorem closed_sink_changes_only_printing (fuel : Nat) (form : Stmt) (machine : Machine)
    (reason : String) :
    let start : Moment := ⟨fuel, .statement form, machine.withSink .open⟩
    let accepting := execute fuel form (machine.withSink .open)
    let rejecting := execute fuel form (machine.withSink (.closed reason))
    ((∀ keyword evaluated, ¬ start.Writes keyword evaluated) →
        accepting.SameButSink reason machine.output rejecting) ∧
      ((∃ keyword evaluated, start.Writes keyword evaluated) →
        ∃ keyword evaluated, start.WritesFirst keyword evaluated) ∧
      (∀ keyword evaluated, start.WritesFirst keyword evaluated →
        evaluated.output = machine.output ∧ rejecting = .failed ⟨keyword, .outputFailed reason⟩
          { evaluated with
            sink := .closed reason, scope := machine.scope, depth := machine.depth }) ∧
      (Fault.outputFailed reason).message = "Failed to write output: " ++ reason := by
  intro start accepting rejecting
  have mutes : accepting.Mutes reason machine.output rejecting :=
    ((Run.Mutes.evaluation reason fuel).execute form).mutes (machine.withSink .open) rfl
  have firstOfRefused {keyword later} (refused :
      rejecting = .failed ⟨keyword, .outputFailed reason⟩ later) :
      ∃ evaluated, start.WritesFirst keyword evaluated := by
    have failed : Moment.outcome ⟨fuel, .statement form, machine.withSink (.closed reason)⟩ =
        .failed ⟨keyword, .outputFailed reason⟩ later := congrArg (Outcome.map Flow.values) refused
    exact Moment.writesFirst_of_failed rfl failed (mutes.silent (by rw [refused]; rfl))
  refine ⟨fun silent => ?_, ?_, ?_, rfl⟩
  · rcases mutes with same | ⟨⟨keyword, later, refused, -⟩, -⟩
    · exact same
    · obtain ⟨evaluated, first⟩ := firstOfRefused refused
      exact absurd first.writes (silent keyword evaluated)
  · rintro ⟨_, _, _, reaches, prints⟩
    obtain ⟨found, later, refused, -⟩ := Moment.refused_of_prints rfl reaches prints
    exact ⟨found, firstOfRefused (Outcome.failed_of_map refused)⟩
  · rintro keyword evaluated ⟨⟨_, reaches, prints⟩, first⟩
    obtain ⟨_, later, refused, same⟩ := Moment.refused_of_prints rfl reaches prints
    obtain ⟨rfl, scope, depth, rfl⟩ := same (Nat.le_of_eq (congrArg String.length first))
    have failed : rejecting = .failed ⟨_, .outputFailed reason⟩ _ := Outcome.failed_of_map refused
    have control := (restoring fuel).execute form (machine.withSink (.closed reason)) _
      (congrArg Outcome.state? failed)
    obtain ⟨rfl, rfl⟩ : scope = machine.scope ∧ depth = machine.depth :=
      ⟨control.scope, control.depth⟩
    exact ⟨first, failed⟩

end Lox
