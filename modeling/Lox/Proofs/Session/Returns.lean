/-
**A `return` ends the call whose body it stands in, and nothing else.**

* `execute_yes`, `executeAll_others`, `repeatWhile_again` and others — once its first parts are
  done, a statement is left to one more of its parts, or to the `return` that one of them ended in.
* `Stmt.Contains` — a statement stands in another one, outside of the functions in it.
* `Moment.Returns` — the statements of a moment end in a `return`.
* `RunsInto` — a moment at which statements are run enters another one.
* `Activation` — a call of a function, and the moment at which its body is run.
* `Passes` — where a `return` goes right after a moment: to the statements around it, to the call,
  or to the program (`passes_of_enters`). From a program that is resolved it never comes that far.
* `executeEach`, `RunsThrough` — the statements of a program, run to the last whatever they return,
  and run one after the other to a normal end.
* `returns_are_consumed` — what a request returns, and where it goes.
-/

import Lox.Proofs.Evaluation.Returning
import Lox.Proofs.Session.History

namespace Lox

/-! ### Statements of which the first parts are done -/

section

variable {fuel : Nat} {machine between later : Machine} {decision result : Value}

section

variable {condition : Expr} (done : evaluate fuel condition machine = .done decision between)

include done

theorem execute_yes (truthy : decision.truthy = true) (yes : Stmt) (no : Option Stmt) :
    execute (fuel + 1) (.if condition yes no) machine = execute fuel yes between := by
  rw [execute.eq_def]
  dsimp only
  rw [Step.bind_apply, done]
  dsimp only
  rw [if_pos truthy]

theorem execute_no (truthy : decision.truthy = false) (yes no : Stmt) :
    execute (fuel + 1) (.if condition yes (some no)) machine = execute fuel no between := by
  rw [execute.eq_def]
  dsimp only
  rw [Step.bind_apply, done]
  dsimp only
  rw [truthy, if_neg Bool.false_ne_true]

/-- A `return` in the body ends the loop. -/
theorem repeatWhile_returned (truthy : decision.truthy = true) {body : Stmt}
    (returned : execute fuel body between = .done (.returned result) later) :
    repeatWhile (fuel + 1) condition body machine = .done (.returned result) later := by
  rw [repeatWhile, Step.bind_apply, done]
  dsimp only
  rw [if_pos truthy, Step.bind_apply, returned]
  rfl

theorem repeatWhile_again (truthy : decision.truthy = true) {body : Stmt}
    (doneBody : execute fuel body between = .done .normal later) :
    repeatWhile (fuel + 1) condition body machine = repeatWhile fuel condition body later := by
  rw [repeatWhile, Step.bind_apply, done]
  dsimp only
  rw [if_pos truthy, Step.bind_apply, doneBody]

end

/-- No statement is run after one that returns. -/
theorem executeAll_returned {first : Stmt}
    (returned : execute fuel first machine = .done (.returned result) later) (rest : List Stmt) :
    executeAll (fuel + 1) (first :: rest) machine = .done (.returned result) later := by
  rw [executeAll, Step.bind_apply, returned]
  rfl

theorem executeAll_others {first : Stmt} (done : execute fuel first machine = .done .normal later)
    (rest : List Stmt) :
    executeAll (fuel + 1) (first :: rest) machine = executeAll fuel rest later := by
  rw [executeAll, Step.bind_apply, done]

end

/-! ### Statements in statements -/

/-- The second statement stands in the first, outside of the functions in it. -/
inductive Stmt.Contains : Stmt → Stmt → Prop
  | self {form : Stmt} : Contains form form
  | block {forms : List Stmt} {form inner : Stmt} :
      form ∈ forms → Contains form inner → Contains (.block forms) inner
  | yes {condition : Expr} {yes inner : Stmt} {no : Option Stmt} :
      Contains yes inner → Contains (.if condition yes no) inner
  | no {condition : Expr} {yes no inner : Stmt} : Contains no inner →
      Contains (.if condition yes (some no)) inner
  | body {condition : Expr} {body inner : Stmt} : Contains body inner →
      Contains (.while condition body) inner

/-- The statement stands in what is run, outside of the functions there. -/
def Errand.Contains (inner : Stmt) : Errand → Prop
  | .statement form => form.Contains inner
  | .statements forms => ∃ form ∈ forms, form.Contains inner
  | .loop _ body => body.Contains inner
  | _ => False

/-! ### Where a `return` goes -/

/-- The errand is to run statements. -/
def Errand.runs : Errand → Bool
  | .statement _ | .statements _ | .loop _ _ => true
  | _ => false

/-- The statements of a moment end in a `return` with this value, and leave this machine. -/
inductive Moment.Returns : Moment → Value → Machine → Prop
  | statement {fuel : Nat} {form : Stmt} {result : Value} {machine later : Machine} :
      execute fuel form machine = .done (.returned result) later →
      Returns ⟨fuel, .statement form, machine⟩ result later
  | statements {fuel : Nat} {forms : List Stmt} {result : Value} {machine later : Machine} :
      executeAll fuel forms machine = .done (.returned result) later →
      Returns ⟨fuel, .statements forms, machine⟩ result later
  | loop {fuel : Nat} {condition : Expr} {body : Stmt} {result : Value} {machine later : Machine} :
      repeatWhile fuel condition body machine = .done (.returned result) later →
      Returns ⟨fuel, .loop condition body, machine⟩ result later

/-- Statements that are run enter statements that stand in them. -/
def RunsInto (outer inner : Moment) : Prop :=
  Enters outer inner ∧ outer.errand.runs = true ∧ inner.errand.runs = true

/-- A call of a function that a program has made. -/
structure Activation where
  fuel : Nat
  closure : Closure
  closing : Token
  arguments : List Value
  machine : Machine

namespace Activation

/-- The moment of the call. -/
def call (activation : Activation) : Moment :=
  ⟨activation.fuel + 1, .call (.function activation.closure) activation.closing
    activation.arguments, activation.machine⟩

/-- The moment at which the body is run. -/
def body (activation : Activation) : Moment :=
  ⟨activation.fuel, .statements activation.closure.body.statements,
    activation.machine.inBody activation.closure activation.arguments⟩

/-- The call ends with this value, in the machine that its body has left. -/
def Gives (activation : Activation) (result : Value) (later : Machine) : Prop :=
  callValue (activation.fuel + 1) (.function activation.closure) activation.closing
    activation.arguments activation.machine = .done result (activation.machine.backFrom later)

end Activation

/-- Where a `return` goes that ends the inner moment. -/
inductive Passes (outer inner : Moment) (result : Value) (later : Machine) : Prop
  /-- It ends the statements around as well; of the machine only the current scope is changed. -/
  | outward (last : Machine) :
      outer.errand.runs = true → outer.Returns result last →
      (∀ machine : Machine, machine.backFrom last = machine.backFrom later) →
      (∀ form, inner.errand.Contains form → outer.errand.Contains form) →
      Passes outer inner result later
  /-- It ends the call, and is its value. -/
  | toCall (activation : Activation) :
      outer = activation.call → inner = activation.body → activation.Gives result later →
      Passes outer inner result later
  | toProgram {fuel : Nat} {first : Stmt} {rest : List Stmt} {machine : Machine} :
      outer = ⟨fuel, .program (first :: rest), machine⟩ →
      inner = ⟨fuel, .statement first, machine⟩ →
      Passes outer inner result later

/-- **A `return` passes through the statements around it, up to the call.** -/
theorem passes_of_enters {outer inner : Moment} {result : Value} {later : Machine}
    (enters : Enters outer inner) (returns : inner.Returns result later) :
    Passes outer inner result later := by
  cases enters with
  | @block _ _ machine =>
    cases returns with
    | statements returned =>
      refine .outward (machine.backTo later) rfl (.statement ?_) (fun _ => rfl) ?_
      · rw [execute_block, returned]
        rfl
      · rintro form ⟨around, isAmong, contains⟩
        exact .block isAmong contains
  | ifYes done truthy =>
    cases returns with
    | statement returned =>
      exact .outward later rfl (.statement ((execute_yes done truthy _ _).trans returned))
        (fun _ => rfl) fun _ => .yes
  | ifNo done truthy =>
    cases returns with
    | statement returned =>
      exact .outward later rfl (.statement ((execute_no done truthy _ _).trans returned))
        (fun _ => rfl) fun _ => .no
  | whileLoop =>
    cases returns with
    | loop returned =>
      refine .outward later rfl (.statement ?_) (fun _ => rfl) fun _ => .body
      rw [execute, returned]
  | firstStatement =>
    cases returns with
    | statement returned =>
      exact .outward later rfl (.statements (executeAll_returned returned _)) (fun _ => rfl)
        fun form contains => ⟨_, List.mem_cons_self, contains⟩
  | otherStatements done =>
    cases returns with
    | statements returned =>
      refine .outward later rfl (.statements ((executeAll_others done _).trans returned))
        (fun _ => rfl) ?_
      rintro form ⟨around, isAmong, contains⟩
      exact ⟨around, List.mem_cons_of_mem _ isAmong, contains⟩
  | loopBody done truthy =>
    cases returns with
    | statement returned =>
      exact .outward later rfl (.loop (repeatWhile_returned done truthy returned)) (fun _ => rfl)
        fun _ => id
  | loopAgain done truthy doneBody =>
    cases returns with
    | loop returned =>
      exact .outward later rfl (.loop ((repeatWhile_again done truthy doneBody).trans returned))
        (fun _ => rfl) fun _ => id
  | @body fuel closure closing arguments machine checked =>
    cases returns with
    | statements returned =>
      refine .toCall ⟨fuel, closure, closing, arguments, machine⟩ rfl rfl ?_
      unfold Activation.Gives
      rw [callValue_function, checked]
      dsimp only
      rw [returned]
      rfl
  | programStatement => exact .toProgram rfl rfl
  | _ => cases returns

/-! ### Programs without a `return` -/

/-- What is left of a program without a `return` is one. -/
theorem noReturn_of_reaches {start moment : Moment} (reaches : Reaches start moment)
    (noReturn : ∀ forms, start.errand = .program forms → returnsAmong forms = false) :
    ∀ forms, moment.errand = .program forms → returnsAmong forms = false := by
  induction reaches with
  | refl => exact noReturn
  | tail _ enters ih =>
    rintro forms isProgram
    cases enters with
    | restOfProgram =>
      obtain rfl := Errand.program.inj isProgram
      exact (Bool.or_eq_false_iff.mp (ih _ rfl)).2
    | _ => cases isProgram

/-- **A `return` ends the call in whose body it stands, and is its value.** -/
theorem consumed {start moment : Moment} (reaches : Reaches start moment)
    (noReturn : ∀ forms, start.errand = .program forms → returnsAmong forms = false)
    (outside : start.errand.runs = false) {form : Stmt} {result : Value} {later : Machine}
    (returns : moment.Returns result later) (contains : moment.errand.Contains form) :
    ∃ activation : Activation, Reaches start activation.call ∧
      Enters activation.call activation.body ∧
      Relation.ReflTransGen RunsInto activation.body moment ∧ activation.body.errand.Contains form ∧
      activation.Gives result later := by
  induction reaches generalizing later with
  | refl => cases returns <;> cases outside
  | @tail outer inner toOuter enters ih =>
    cases passes_of_enters enters returns with
    | outward last outerRuns outerReturns same containsToo =>
      obtain ⟨activation, toCall, toBody, path, isWithin, gives⟩ :=
        ih outerReturns (containsToo form contains)
      have innerRuns : inner.errand.runs = true := by cases returns <;> rfl
      refine ⟨activation, toCall, toBody, path.tail ⟨enters, outerRuns, innerRuns⟩, isWithin, ?_⟩
      unfold Activation.Gives at gives ⊢
      rw [gives, same]
    | toCall activation isCall isBody gives =>
      subst isCall isBody
      exact ⟨activation, toOuter, enters, .refl, contains, gives⟩
    | toProgram isProgram isFirst =>
      subst isProgram isFirst
      have noneThere := (Bool.or_eq_false_iff.mp (noReturn_of_reaches toOuter noReturn _ rfl)).1
      cases returns with
      | statement returned => cases (endsNormally _).execute _ noneThere _ _ _ returned

/-- The statements of a program in order, whatever they return, up to the first error. -/
def executeEach (fuel : Nat) : List Stmt → Run Unit
  | [] => pure ()
  | first :: rest => do
    let _ ← execute fuel first
    executeEach fuel rest

/-- The statements are run one after the other, and each of them ends normally. -/
inductive RunsThrough (fuel : Nat) : Machine → List Stmt → Machine → Prop
  | nil {machine : Machine} : RunsThrough fuel machine [] machine
  | cons {machine between later : Machine} {first : Stmt} {rest : List Stmt} :
      execute fuel first machine = .done .normal between → RunsThrough fuel between rest later →
      RunsThrough fuel machine (first :: rest) later

/-- No statement of a program without a `return` ends in one. -/
theorem normal_of_mem {program : List Stmt} (noReturn : returnsAmong program = false) {form : Stmt}
    (isForm : form ∈ program) (fuel : Nat) : Run.Yields (· = .normal) (execute fuel form) := by
  induction program with
  | nil => cases isForm
  | cons first rest ih =>
    obtain ⟨inFirst, inRest⟩ := Bool.or_eq_false_iff.mp noReturn
    rcases List.mem_cons.mp isForm with rfl | later
    · exact (endsNormally fuel).execute form inFirst
    · exact ih inRest later

/-- A program without a `return` is never left before its last statement, unless by an error. -/
theorem interpret_eq_executeEach (fuel : Nat) {program : List Stmt}
    (noReturn : returnsAmong program = false) :
    interpret fuel program = executeEach fuel program := by
  induction program with
  | nil => rfl
  | cons first rest ih =>
    obtain ⟨inFirst, inRest⟩ := Bool.or_eq_false_iff.mp noReturn
    funext machine
    rw [interpret, executeEach, Step.bind_apply, Step.bind_apply]
    cases ran : execute fuel first machine with
    | done flow later =>
      obtain rfl := (endsNormally fuel).execute first inFirst machine flow later ran
      exact congrFun (ih inRest) later
    | failed | outOfFuel => rfl

/-- **A program without a `return` that is run to its end has run each of its
statements to its end.** -/
theorem runsThrough_of_interpret {fuel : Nat} {program : List Stmt}
    (noReturn : returnsAmong program = false) {machine later : Machine}
    (done : interpret fuel program machine = .done () later) :
    RunsThrough fuel machine program later := by
  induction program generalizing machine with
  | nil =>
    cases done
    exact .nil
  | cons first rest ih =>
    obtain ⟨inFirst, inRest⟩ := Bool.or_eq_false_iff.mp noReturn
    rw [interpret, Step.bind_apply] at done
    cases ran : execute fuel first machine with
    | done flow between =>
      obtain rfl := (endsNormally fuel).execute first inFirst machine flow between ran
      rw [ran] at done
      exact .cons ran (ih inRest done)
    | failed | outOfFuel =>
      rw [ran] at done
      cases done

/-! ### Requests -/

/-- What begins to be run is no list of statements, and if it is a program, there is no `return` in
it. -/
theorem Session.Begins.noReturn {session : Session} {request : Request} {root : Site}
    {start : Moment} {next : Nat} (begins : session.Begins request root start next) :
    start.errand.runs = false ∧
      ∀ forms, start.errand = .program forms → returnsAmong forms = false := by
  cases begins with
  | run read resolved =>
    refine ⟨rfl, fun forms isProgram => ?_⟩
    obtain rfl := Errand.program.inj isProgram
    exact returnsAmong_of_resolved resolved
  | evaluate => exact ⟨rfl, nofun⟩

/-- **No `return` leaves the call that it stands in.** In any session, whatever was run in it
before, consider a request whose text is read and resolved. If the text is a program, none of its
statements ends in a `return`, whenever it is executed; so the program goes on to its last statement
unless there is an error, and if the session runs it without one, each of its statements was run to
a normal end. And whatever comes out of the request, if statements end in a `return` there, the body
that they stand in is being run for a call, which ends with that value, in the machine that the
`return` has left; the same holds of each `return` itself. -/
theorem returns_are_consumed {session : Session} {request : Request} {root : Site} {start : Moment}
    {next : Nat} (begins : session.Begins request root start next) :
    (∀ program, start.errand = .program program →
      (∀ form ∈ program, ∀ fuel, Run.Yields (· = .normal) (execute fuel form)) ∧
      (∀ fuel, interpret fuel program = executeEach fuel program) ∧
      ∀ fuel source later, request = .run fuel source →
      Session.run fuel source session = .done () later →
        RunsThrough fuel start.machine program later.machine) ∧
    ∀ moment form result later, Reaches start moment → moment.Returns result later →
      moment.errand.Contains form →
      ∃ activation : Activation, Reaches start activation.call ∧
        Enters activation.call activation.body ∧
        Relation.ReflTransGen RunsInto activation.body moment ∧
        activation.body.errand.Contains form ∧
        activation.Gives result later := by
  obtain ⟨outside, noReturn⟩ := begins.noReturn
  refine ⟨fun program isProgram => ?_, fun moment form result later reaches returns contains =>
    consumed reaches noReturn outside returns contains⟩
  have noneThere := noReturn program isProgram
  refine ⟨fun form isForm fuel => normal_of_mem noneThere isForm fuel,
    fun fuel => interpret_eq_executeEach fuel noneThere, fun fuel source later isRun done => ?_⟩
  subst isRun
  cases begins with
  | run read resolved =>
    obtain rfl := Errand.program.inj isProgram
    rw [Session.run_of_read read resolved] at done
    exact runsThrough_of_interpret noneThere (Session.done_of_onMachine done)

/-- A `return` in a loop in the body of a function is the value of the call. -/
theorem loop_ends_with_call :
    ∃ (start : Moment) (activation : Activation) (later : Machine), Reaches start activation.call ∧
      activation.body.errand.Contains
        (.return ⟨.keyword .return, "return", 1⟩ (some (.literal .true))) ∧
      activation.Gives (.boolean true) later := by
  have reached : ∃ root start, Session.Begins (.start fun _ => 0)
      (.run 20 "fun f() \x7b while (true) return true; \x7d f();") root start 1 ∧
      ∃ moment, Reaches start moment ∧
      moment.errand = .statement (.return ⟨.keyword .return, "return", 1⟩ (some (.literal .true))) ∧
      ∃ later, moment.Returns (.boolean true) later :=
    ⟨_, _, .run rfl rfl, _, .head (.restOfProgram rfl) <| .head .programStatement <|
      .head .expressionStatement <|
      .head (.call rfl rfl) <| .head (.body rfl) <| .head .firstStatement <| .head .whileLoop <|
      .head (.loopBody rfl rfl) .refl, rfl, _, .statement rfl⟩
  obtain ⟨root, start, begins, moment, reaches, isReturn, later, returns⟩ := reached
  obtain ⟨activation, toCall, -, -, contains, gives⟩ :=
    (returns_are_consumed begins).2 moment _ _ later reaches returns (by rw [isReturn]; exact .self)
  exact ⟨start, activation, later, toCall, contains, gives⟩

end Lox
