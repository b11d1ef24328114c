/-
**Code that resolves alike does the same, though some scopes are missing in one run.**

* `Outcome.Matches`, `Run.Matches` — started in machines that match, two computations end
  alike, in machines that match once more. Some scopes may have been opened since, in both runs
  or in the fuller one alone.
* `Run.Matches.inNewScope` — both runs open a scope for a computation. `Run.Matches.inSkippedScope`:
  the sparser run does not, and does the same.
* `Value.Matches.enter` — functions that match are entered alike. `Lookups.lockstep` — so all that a
  run is put together of keeps step.
* `evaluatesMatching` — code that resolves alike does the same.
-/

import Lox.Proofs.Evaluation.Chart
import Lox.Proofs.Evaluation.Framing
import Lox.Proofs.Evaluation.Lockstep

namespace Lox

/-! ### Computations -/

/-- The same way to end, after which some more scopes may be known. -/
inductive Outcome.Matches (lookups : Lookups) (chart : Chart) (stack : List Standing) {α : Type}
    (values : Chart → α → α → Prop) :
    Outcome Machine RuntimeError α → Outcome Machine RuntimeError α → Prop
  | done {later : Chart} {value other : α} {machine machine' : Machine} :
      chart <+: later → values later value other → machine.Matches lookups later stack machine' →
      Matches lookups chart stack values (.done value machine) (.done other machine')
  | failed {later : Chart} {error : RuntimeError} {machine machine' : Machine} :
      chart <+: later → machine.Matches lookups later stack machine' →
      Matches lookups chart stack values (.failed error machine) (.failed error machine')
  | outOfFuel : Matches lookups chart stack values .outOfFuel .outOfFuel

theorem Outcome.Matches.before {lookups : Lookups} {chart later : Chart} {stack : List Standing}
    {α : Type} {values : Chart → α → α → Prop} {outcome other : Outcome Machine RuntimeError α}
    (extension : chart <+: later) (both : Matches lookups later stack values outcome other) :
    Matches lookups chart stack values outcome other := by
  cases both with
  | done further alike machine => exact .done (extension.trans further) alike machine
  | failed further machine => exact .failed (extension.trans further) machine
  | outOfFuel => exact .outOfFuel

/-- If the first computation does not end, neither does the second. -/
theorem Outcome.Matches.eq_outOfFuel {lookups : Lookups} {chart : Chart} {stack : List Standing}
    {α : Type} {values : Chart → α → α → Prop} {outcome : Outcome Machine RuntimeError α}
    (both : Matches lookups chart stack values .outOfFuel outcome) : outcome = .outOfFuel := by
  cases both
  rfl

/-- Started in machines that match, the computations end alike, with values that correspond. -/
def Run.Matches (lookups : Lookups) (base : Chart) (stack : List Standing) {α : Type}
    (values : Chart → α → α → Prop) (first second : Run α) : Prop :=
  ∀ chart, base <+: chart → ∀ machine other, Machine.Matches lookups chart stack machine other →
    Outcome.Matches lookups chart stack values (first machine) (second other)

namespace Run.Matches

variable {lookups : Lookups} {base : Chart} {stack : List Standing} {α β : Type}
  {values : Chart → α → α → Prop} {results : Chart → β → β → Prop}

theorem pure {value other : α} (correspond : ∀ chart, base <+: chart → values chart value other) :
    Run.Matches lookups base stack values (pure value) (pure other) :=
  fun chart extension _ _ machine => .done List.prefix_rfl (correspond chart extension) machine

theorem exhausted : Run.Matches lookups base stack values Step.exhausted Step.exhausted :=
  fun _ _ _ _ _ => .outOfFuel

/-- **One computation after the other.** What comes after starts where more may be known. -/
theorem bind {first second : Run α} {next following : α → Run β}
    (both : Run.Matches lookups base stack values first second)
    (rest : ∀ later value other, base <+: later → values later value other →
      Run.Matches lookups later stack results (next value) (following other)) :
    Run.Matches lookups base stack results (first >>= next) (second >>= following) := by
  intro chart extension machine other alike
  have ran := both chart extension machine other alike
  rw [Step.bind_apply, Step.bind_apply]
  generalize first machine = outcome at ran
  generalize second other = outcome' at ran
  cases ran with
  | @done later _ _ _ _ further correspond alikeLater =>
    exact (rest later _ _ (extension.trans further) correspond later List.prefix_rfl
      _ _ alikeLater).before further
  | failed further alikeLater => exact .failed further alikeLater
  | outOfFuel => exact .outOfFuel

theorem ite {condition condition' : Bool} {yes no yes' no' : Run α} (same : condition' = condition)
    (both : Run.Matches lookups base stack values yes yes')
    (otherwise : Run.Matches lookups base stack values no no') :
    Run.Matches lookups base stack values (if condition then yes else no)
      (if condition' then yes' else no') := by
  subst same
  by_cases holds : condition' = true
  · rw [if_pos holds, if_pos holds]
    exact both
  · rw [if_neg holds, if_neg holds]
    exact otherwise

theorem raise (token : Token) (fault : Fault) :
    Run.Matches lookups base stack values (Run.raise token fault) (Run.raise token fault) :=
  fun _ _ _ _ alike => .failed List.prefix_rfl alike

theorem plain {value : Value} (notFunction : ∀ closure, value ≠ .function closure) :
    Run.Matches lookups base stack (Value.Matches lookups) (Pure.pure value) (Pure.pure value) :=
  pure fun _ _ => .plain value notFunction

section

variable {change : NodeId → NodeId}

theorem readVariable {node : NodeId} (name : Token) (same : lookups.Same change stack node) :
    Run.Matches lookups base stack (Value.Matches lookups) (Run.readVariable node name)
      (Run.readVariable (change node) name) := by
  intro chart _ machine other alike
  have found := alike.valueAt? same name.lexeme
  unfold Run.readVariable
  generalize machine.valueAt? node name.lexeme = first at found
  generalize other.valueAt? (change node) name.lexeme = second at found
  cases found with
  | some alikeValue => exact .done List.prefix_rfl alikeValue alike
  | none => exact .failed List.prefix_rfl alike

theorem assignVariable {node : NodeId} (name : Token) (same : lookups.Same change stack node)
    {value another : Value} (alikeValue : value.Matches lookups base another) :
    Run.Matches lookups base stack (fun _ => Eq) (Run.assignVariable node name value)
      (Run.assignVariable (change node) name another) := by
  intro chart extension machine other alike
  have found := alike.targetOf? same name.lexeme
  unfold Run.assignVariable
  generalize machine.targetOf? node name.lexeme = target at found
  generalize other.targetOf? (change node) name.lexeme = image at found
  cases found with
  | some known =>
    exact .done List.prefix_rfl rfl (alike.ofStore List.prefix_rfl
      (alike.store.define known name.lexeme (alikeValue.mono extension)))
  | none => exact .failed List.prefix_rfl alike

theorem makeFunction (name : Option String) {body : FunctionBody}
    (code : body.ResolvesAlike lookups change stack) :
    Run.Matches lookups base stack (Value.Matches lookups) (Run.makeFunction name body)
      (Run.makeFunction name (body.relabel ⟨change, id⟩)) := by
  intro chart _ machine other alike
  unfold Run.makeFunction
  rw [alike.nextFunction]
  exact .done List.prefix_rfl (.function alike.around code) { alike with nextFunction := rfl }

end

theorem declare (name : Token) {value another : Value} (kept : stack.head? ≠ some .skipped)
    (alikeValue : value.Matches lookups base another) :
    Run.Matches lookups base stack (fun _ => Eq) (Run.declare name value)
      (Run.declare name another) := by
  intro chart extension machine other alike
  exact .done List.prefix_rfl rfl (alike.ofStore List.prefix_rfl
    (alike.store.define (alike.around.image? kept) name.lexeme (alikeValue.mono extension)))

theorem readClock : Run.Matches lookups base stack (fun _ => Eq) Run.readClock Run.readClock := by
  intro chart _ machine other alike
  unfold Run.readClock
  rw [alike.clock, alike.ticks]
  exact .done List.prefix_rfl rfl { alike with clock := rfl, ticks := rfl }

theorem print (keyword : Token) {value another : Value}
    (alikeValue : value.Matches lookups base another) :
    Run.Matches lookups base stack (fun _ => Eq) (Run.print keyword value)
      (Run.print keyword another) := by
  intro chart _ machine other alike
  unfold Run.print
  rw [alike.sink, alike.output, alikeValue.resembles.text]
  cases machine.sink with
  | «open» => exact .done List.prefix_rfl rfl { alike with output := rfl, sink := rfl }
  | closed => exact .failed List.prefix_rfl alike

/-- A scope is opened in both runs. -/
theorem openScope {outer outer' : ScopeId} :
    Run.Matches lookups base stack
      (fun chart scope image => chart.at? scope = some (.kept image (some outer) (some outer')))
      (Run.openScope outer) (Run.openScope outer') := by
  intro chart _ machine other alike
  have extension : chart <+: chart ++ [.kept other.store.nextId (some outer) (some outer')] :=
    List.prefix_append _ _
  refine .done extension ?_ (alike.ofStore extension (alike.store.open outer outer'))
  rw [alike.store.nextId, Chart.at?_append, if_pos rfl]

theorem defineAll {scope image : ScopeId} (known : base.image? scope = some image)
    (names : List String) {values others : List Value}
    (alikeValues : List.Forall₂ (Value.Matches lookups base) values others) :
    Run.Matches lookups base stack (fun _ => Eq) (Run.defineAll scope (names.zip values))
      (Run.defineAll image (names.zip others)) := by
  intro chart extension machine other alike
  have alikeNow : List.Forall₂ (Value.Matches lookups chart) values others :=
    alikeValues.imp fun _ _ alikeValue => alikeValue.mono extension
  exact .done List.prefix_rfl rfl (alike.ofStore List.prefix_rfl
    (alike.store.defineAll (Chart.image?_mono extension known) names alikeNow))

/-- The body runs in scopes around which there are the same; afterwards the
surroundings are those before. -/
theorem inScope {first second : Run α} {scope image : ScopeId} {inner : List Standing}
    (around : base.Around inner scope image)
    (both : Run.Matches lookups base inner values first second) :
    Run.Matches lookups base stack values (Run.inScope scope first) (Run.inScope image second) := by
  intro chart extension machine other alike
  have back : ∀ {later : Chart} {now now' : Machine}, chart <+: later →
      now.Matches lookups later inner now' →
      Machine.Matches lookups later stack { now with scope := machine.scope }
        { now' with scope := other.scope } :=
    fun further now => { now with around := alike.around.mono further }
  have ran := both chart extension { machine with scope := scope } { other with scope := image }
    { alike with around := around.mono extension }
  unfold Run.inScope
  generalize first _ = outcome at ran
  generalize second _ = outcome' at ran
  cases ran with
  | done further correspond now => exact .done further correspond (back further now)
  | failed further now => exact .failed further (back further now)
  | outOfFuel => exact .outOfFuel

theorem inCall {first second : Run α} (both : Run.Matches lookups base stack values first second) :
    Run.Matches lookups base stack values (Run.inCall first) (Run.inCall second) := by
  intro chart extension machine other alike
  have counted : ∀ {later : Chart} {now now' : Machine} (count : Nat → Nat),
      now.Matches lookups later stack now' →
      Machine.Matches lookups later stack { now with depth := count now.depth }
        { now' with depth := count now'.depth } :=
    fun count now => { now with depth := congrArg count now.depth }
  have ran := both chart extension _ _ (counted (· + 1) alike)
  unfold Run.inCall
  generalize first _ = outcome at ran
  generalize second _ = outcome' at ran
  cases ran with
  | done further correspond now => exact .done further correspond (counted (· - 1) now)
  | failed further now => exact .failed further (counted (· - 1) now)
  | outOfFuel => exact .outOfFuel

theorem checkCall (closing : Token) (arity arguments : Nat) :
    Run.Matches lookups base stack (fun _ => Eq) (Run.checkCall closing arity arguments)
      (Run.checkCall closing arity arguments) := by
  intro chart _ machine other alike
  unfold Run.checkCall
  rw [alike.depth]
  by_cases wrong : arguments ≠ arity
  · rw [if_pos wrong, if_pos wrong]
    exact .failed List.prefix_rfl alike
  · rw [if_neg wrong, if_neg wrong]
    by_cases full : maxDepth ≤ machine.depth
    · rw [if_pos full, if_pos full]
      exact .failed List.prefix_rfl alike
    · rw [if_neg full, if_neg full]
      exact .done List.prefix_rfl rfl alike

/-- Both runs open a scope for the body. -/
theorem inNewScope {first second : Run α}
    (both : ∀ later, base <+: later →
      Run.Matches lookups later (.kept :: stack) values first second) :
    Run.Matches lookups base stack values (Run.inNewScope first) (Run.inNewScope second) := by
  have current : Run.Matches lookups base stack
      (fun chart current current' => chart.Around stack current current')
      (Step.view Machine.scope) (Step.view Machine.scope) :=
    fun _ _ _ _ alike => .done List.prefix_rfl alike.around alike
  refine current.bind fun now current current' further around => ?_
  refine openScope.bind fun later scope image opened known => ?_
  exact inScope (.kept known (around.mono opened)) (both later (further.trans opened))

/-- The fuller run opens a scope for the body, the sparser one does not. -/
theorem inSkippedScope {first second : Run α}
    (stays : Step.Stays (fun machine later : Machine => later.scope = machine.scope) second)
    (both : ∀ later, base <+: later →
      Run.Matches lookups later (.skipped :: stack) values first second) :
    Run.Matches lookups base stack values (Run.inNewScope first) second := by
  intro chart extension machine other alike
  have opened : chart <+: chart ++ [.skipped machine.scope] := List.prefix_append _ _
  have isNew : Chart.at? (chart ++ [.skipped machine.scope]) machine.store.nextId =
      some (.skipped machine.scope) := by
    rw [alike.store.nextId, Chart.at?_append, if_pos rfl]
  have ran := both _ (extension.trans opened) _ List.prefix_rfl
    { machine with
      store := machine.store.add (some machine.scope), scope := machine.store.nextId } other
    { alike with
      store := alike.store.openSkipped machine.scope
      around := .skipped isNew (alike.around.mono opened)
      globals := Chart.at?_mono opened alike.globals }
  have restored := stays other
  -- the surroundings are those before, as the sparser run has come back to its scope
  have back {later : Chart} {now now' : Machine} (further : chart <+: later)
      (isBack : now'.scope = other.scope)
      (alikeNow : now.Matches lookups later (.skipped :: stack) now') :
      Machine.Matches lookups later stack { now with scope := machine.scope } now' :=
    { alikeNow with around := isBack ▸ alike.around.mono further }
  have unfolded : Run.inNewScope first machine = Run.inScope machine.store.nextId first
      { machine with store := machine.store.add (some machine.scope) } := rfl
  rw [unfolded]
  unfold Run.inScope
  dsimp only
  generalize first _ = outcome at ran
  generalize second other = outcome' at ran restored
  cases ran with
  | done further correspond now =>
    exact .done (opened.trans further) correspond (back (opened.trans further) (restored _ rfl) now)
  | failed further now => exact .failed (opened.trans further) (back (opened.trans further)
      (restored _ rfl) now)
  | outOfFuel => exact .outOfFuel

end Run.Matches

/-! ### Evaluation -/

/-- The same way for a statement to end. -/
inductive Flow.Matches (lookups : Lookups) (chart : Chart) : Flow → Flow → Prop
  | normal : Matches lookups chart .normal .normal
  | returned {value other : Value} : value.Matches lookups chart other →
      Matches lookups chart (.returned value) (.returned other)

theorem Flow.Matches.value {lookups : Lookups} {chart : Chart} {flow other : Flow}
    (both : flow.Matches lookups chart other) : flow.value.Matches lookups chart other.value := by
  cases both with
  | normal => exact .plain _ fun _ => Value.noConfusion
  | returned alike => exact alike

/-- Code that resolves alike does the same with this fuel. -/
structure EvaluatesMatching (lookups : Lookups) (fuel : Nat) : Prop where
  evaluate : ∀ {base stack change value}, Expr.ResolvesAlike lookups change stack value →
    Run.Matches lookups base stack (Value.Matches lookups) (Lox.evaluate fuel value)
      (Lox.evaluate fuel (value.relabel ⟨change, id⟩))
  evaluateAll : ∀ {base stack change values}, argumentsResolveAlike lookups change stack values →
    Run.Matches lookups base stack (fun chart => List.Forall₂ (Value.Matches lookups chart))
      (Lox.evaluateAll fuel values) (Lox.evaluateAll fuel (relabelArguments ⟨change, id⟩ values))
  evaluateOr : ∀ {base stack change value},
    (∀ given ∈ value, Expr.ResolvesAlike lookups change stack given) →
    Run.Matches lookups base stack (Value.Matches lookups) (Lox.evaluateOr fuel value)
      (Lox.evaluateOr fuel (value.map (Expr.relabel ⟨change, id⟩)))
  callValue : ∀ {base stack callee callee' arguments arguments'} closing,
    Value.Matches lookups base callee callee' →
    List.Forall₂ (Value.Matches lookups base) arguments arguments' →
    Run.Matches lookups base stack (Value.Matches lookups)
      (Lox.callValue fuel callee closing arguments) (Lox.callValue fuel callee' closing arguments')
  execute : ∀ {base stack change form}, Stmt.ResolvesAlike lookups change stack form →
    Run.Matches lookups base stack (Flow.Matches lookups) (Lox.execute fuel form)
      (Lox.execute fuel (form.relabel ⟨change, id⟩))
  executeAll : ∀ {base stack change forms}, statementsResolveAlike lookups change stack forms →
    Run.Matches lookups base stack (Flow.Matches lookups) (Lox.executeAll fuel forms)
      (Lox.executeAll fuel (relabelStatements ⟨change, id⟩ forms))
  repeatWhile : ∀ {base stack change condition body},
    Expr.ResolvesAlike lookups change stack condition →
    Stmt.ResolvesAlike lookups change stack body →
    Run.Matches lookups base stack (Flow.Matches lookups) (Lox.repeatWhile fuel condition body)
      (Lox.repeatWhile fuel (condition.relabel ⟨change, id⟩) (body.relabel ⟨change, id⟩))

/-- What two runs are compared by if some scopes are missing in the second one. -/
def Lookups.comparison (lookups : Lookups) : Comparison Chart (List Standing) where
  grows chart later := chart <+: later
  opens stack inside := inside = .kept :: stack
  token := Eq
  accesses stack node node' name name' := ∃ change, lookups.Same change stack node ∧
    node' = change node ∧ name' = name
  declares stack name name' := stack.head? ≠ some .skipped ∧ name' = name
  code stack part part' := ∃ change, part.ResolvesAlike lookups change stack ∧
    part' = part.relabel ⟨change, id⟩
  value := Value.Matches lookups
  flow := Flow.Matches lookups
  related base stack values first second := Run.Matches lookups base stack values first second

section

variable {lookups : Lookups}

/-- What resolves alike does so layer by layer. -/
theorem Part.ResolvesAlike.compared {change : NodeId → NodeId} {stack : List Standing} {part : Part}
    (code : part.ResolvesAlike lookups change stack) :
    lookups.comparison.Layer stack part (part.relabel ⟨change, id⟩) := by
  have again {inner : Part} {inside : List Standing}
      (code : inner.ResolvesAlike lookups change inside) :
      lookups.comparison.code inside inner (inner.relabel ⟨change, id⟩) := ⟨change, code, rfl⟩
  cases part with
  | expression value =>
    cases value with
    | literal => exact .literal
    | grouping => exact .grouping (again code)
    | unary => exact .unary rfl (again code)
    | binary => exact .binary rfl (again code.1) (again code.2)
    | logical => exact .logical rfl (again code.1) (again code.2)
    | ternary => exact .ternary (again code.1) (again code.2.1) (again code.2.2)
    | «variable» => exact .variable ⟨change, code, rfl, rfl⟩
    | assign => exact .assign ⟨change, code.1, rfl, rfl⟩ (again code.2)
    | call => exact .call rfl (again code.1) (again code.2)
    | lambda => exact .lambda (again code)
  | arguments values =>
    cases values with
    | nil => exact .noArguments
    | cons => exact .arguments (again code.1) (again code.2)
  | statement form =>
    cases form with
    | expression => exact .expressionStatement (again code)
    | print => exact .print rfl (again code)
    | var _ initializer =>
      cases initializer with
      | none => exact .var ⟨code, rfl⟩ .none
      | some => exact .var ⟨code.1, rfl⟩ (.some (again code.2))
    | block => exact .block rfl (again code)
    | «if» _ _ no =>
      cases no with
      | none => exact .if (again code.1) (again code.2) .none
      | some => exact .if (again code.1) (again code.2.1) (.some (again code.2.2))
    | «while» => exact .while (again code.1) (again code.2)
    | function => exact .function ⟨code.1, rfl⟩ rfl (again code.2)
    | «return» _ value =>
      cases value with
      | none => exact .return .none
      | some => exact .return (.some (again code))
  | statements forms =>
    cases forms with
    | nil => exact .noStatements
    | cons => exact .statements (again code.1) (again code.2)
  | function => exact .body
  | target => exact .target

/-- A function is entered in the scope it was made in; its own scope is there in both runs. -/
theorem Value.Matches.enter {base : Chart} {closure : Closure} {other : Value}
    (both : Value.Matches lookups base (.function closure) other) :
    ∃ closure' inside, other = .function closure' ∧ closure'.body.arity = closure.body.arity ∧
      lookups.comparison.code inside (.statements closure.body.statements)
        (.statements closure'.body.statements) ∧
      ∀ {later : Chart} {stack : List Standing} {arguments arguments' : List Value}
        {first second : Run Flow}, base <+: later →
        List.Forall₂ (Value.Matches lookups later) arguments arguments' →
        (∀ last, later <+: last →
          Run.Matches lookups last inside (Flow.Matches lookups) first second) →
        Run.Matches lookups later stack (Value.Matches lookups) (closure.enter arguments first)
          (closure'.enter arguments' second) := by
  cases both with
  | plain _ notFunction => exact absurd rfl (notFunction closure)
  | @function identity name body change inner scope image around code =>
    obtain ⟨parameters, forms⟩ := body
    have parameters' : (FunctionBody.relabel ⟨change, id⟩ ⟨parameters, forms⟩).parameters =
        parameters :=
      List.map_id parameters
    refine ⟨_, .kept :: inner, rfl, congrArg List.length parameters', ⟨change, code, rfl⟩,
      fun extension alikeArguments run => ?_⟩
    unfold Closure.enter
    dsimp only
    rw [parameters']
    refine Run.Matches.openScope.bind fun own scope image opened known => ?_
    have alikeNow := alikeArguments.imp fun _ _ alike => alike.mono opened
    refine .bind (.defineAll (Chart.image?_of_kept known) _ alikeNow) fun _ _ _ defined _ => ?_
    have aroundOwn := (Chart.Around.kept known (around.mono (extension.trans opened))).mono defined
    refine .bind (.inScope aroundOwn (run _ (opened.trans defined)))
      fun _ flow flow' _ alikeFlow => ?_
    exact .pure fun _ further => alikeFlow.value.mono further

/-- Runs of which the second one has fewer scopes are in lockstep. -/
theorem Lookups.lockstep (lookups : Lookups) : lookups.comparison.Lockstep where
  trans := List.IsPrefix.trans
  kind same := same ▸ rfl
  layer := by
    rintro stack part _ ⟨change, code, rfl⟩
    exact code.compared
  mono := Value.Matches.mono
  resembles := Value.Matches.resembles
  plain := .plain
  normal := .normal
  returned := .returned
  flow_cases both := by
    cases both with
    | normal => exact .inl ⟨rfl, rfl⟩
    | returned alike => exact .inr ⟨_, _, rfl, rfl, alike⟩
  exhausted := .exhausted
  pure := .pure
  bind := .bind
  inNewScope := by
    rintro base stack _ α values first second rfl both
    exact .inNewScope both
  inCall := .inCall
  raise := by
    rintro base stack α values token _ fault rfl
    exact .raise token fault
  readVariable := by
    rintro base stack node _ _ name ⟨change, same, rfl, rfl⟩
    exact .readVariable name same
  assignVariable := by
    rintro base stack node _ _ name value other ⟨change, same, rfl, rfl⟩ alike
    exact .assignVariable name same alike
  declare := by
    rintro base stack _ name value other ⟨kept, rfl⟩ alike
    exact .declare name kept alike
  makeFunction := by
    rintro base stack name _ body _ ⟨change, code, same⟩
    cases same
    exact .makeFunction name code
  readClock := .readClock
  print := by
    rintro base stack keyword _ value other rfl alike
    exact .print keyword alike
  checkCall := by
    rintro base stack closing _ arity arguments rfl
    exact .checkCall closing arity arguments
  function := Value.Matches.enter

end

/-- **Code that resolves alike does the same.** -/
theorem evaluatesMatching (lookups : Lookups) (fuel : Nat) : EvaluatesMatching lookups fuel := by
  have all := lookups.lockstep.evaluation fuel
  refine ⟨fun code => all.evaluate ⟨_, code, rfl⟩, fun code => all.evaluateAll ⟨_, code, rfl⟩, ?_,
    fun _ alike alikeArguments => all.callValue alike rfl alikeArguments,
      fun code => all.execute ⟨_, code, rfl⟩,
    fun code => all.executeAll ⟨_, code, rfl⟩,
    fun codeCondition codeBody => all.repeatWhile ⟨_, codeCondition, rfl⟩ ⟨_, codeBody, rfl⟩⟩
  intro base stack change value code
  refine all.evaluateOr ?_
  cases value with
  | none => exact .none
  | some value => exact .some ⟨_, code value rfl, rfl⟩

end Lox
