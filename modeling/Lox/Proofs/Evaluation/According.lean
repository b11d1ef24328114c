/-
**Code that accords does the same.**

* `Outcome.Accords`, `Run.Accords` — started in machines that accord, two computations end alike, in
  machines that accord once more; some scopes may have been opened, whose namings are known then.
* One lemma for each operation on a machine, and `Run.Accords.bind` for one
  computation after the other.
* `Value.Accords.enter` — functions that accord are entered alike. `Accord.lockstep` — so all that a
  run is put together of keeps step.
* `evaluatesAccordingly` — parts that stand for one another do the same.
  `interpretsAccordingly` — so do programs.
-/

import Lox.Proofs.Evaluation.Accord
import Lox.Proofs.Evaluation.Lockstep

namespace Lox

/-! ### Computations -/

/-- The same way to end, after which some more scopes may be known. -/
inductive Outcome.Accords (accord : Accord) (world : World) (stack : List Naming) {α : Type}
    (values : World → α → α → Prop) :
    Outcome Machine RuntimeError α → Outcome Machine RuntimeError α → Prop
  | done {later : World} {value other : α} {machine machine' : Machine} :
      world <+: later → values later value other → machine.Accords accord later stack machine' →
      Accords accord world stack values (.done value machine) (.done other machine')
  | failed {later : World} {error error' : RuntimeError} {machine machine' : Machine} :
      world <+: later → accord.error error error' → machine.Accords accord later stack machine' →
      Accords accord world stack values (.failed error machine) (.failed error' machine')
  | outOfFuel : Accords accord world stack values .outOfFuel .outOfFuel

theorem Outcome.Accords.before {accord : Accord} {world later : World} {stack : List Naming}
    {α : Type} {values : World → α → α → Prop} {outcome other : Outcome Machine RuntimeError α}
    (extension : world <+: later) (accords : Accords accord later stack values outcome other) :
    Accords accord world stack values outcome other := by
  cases accords with
  | done further alike machine => exact .done (extension.trans further) alike machine
  | failed further error machine => exact .failed (extension.trans further) error machine
  | outOfFuel => exact .outOfFuel

/-- Started in machines that accord, the computations end alike, with values that correspond. -/
def Run.Accords (accord : Accord) (base : World) (stack : List Naming) {α : Type}
    (values : World → α → α → Prop) (first second : Run α) : Prop :=
  ∀ world, base <+: world → ∀ machine other, Machine.Accords accord world stack machine other →
    Outcome.Accords accord world stack values (first machine) (second other)

/-- Values that accord, in a world that is known later. -/
abbrev Accord.Values (accord : Accord) : World → Value → Value → Prop :=
  Value.Accords accord

/-- The two are the same, whatever the world. -/
abbrev Accord.Same {α : Type} : World → α → α → Prop :=
  fun _ => Eq

namespace Run.Accords

variable {accord : Accord} {base : World} {stack : List Naming} {α β : Type}
  {values : World → α → α → Prop} {results : World → β → β → Prop}

theorem pure {value other : α} (correspond : ∀ world, base <+: world → values world value other) :
    Run.Accords accord base stack values (pure value) (pure other) :=
  fun world extension _ _ machine => .done List.prefix_rfl (correspond world extension) machine

theorem exhausted : Run.Accords accord base stack values Step.exhausted Step.exhausted :=
  fun _ _ _ _ _ => .outOfFuel

/-- **One computation after the other.** What comes after starts in a world where more may be
known. -/
theorem bind {first second : Run α} {next following : α → Run β}
    (accords : Run.Accords accord base stack values first second)
    (rest : ∀ later value other, base <+: later → values later value other →
      Run.Accords accord later stack results (next value) (following other)) :
    Run.Accords accord base stack results (first >>= next) (second >>= following) := by
  intro world extension machine other alike
  have ran := accords world extension machine other alike
  rw [Step.bind_apply, Step.bind_apply]
  generalize first machine = outcome at ran
  generalize second other = outcome' at ran
  cases ran with
  | @done later _ _ _ _ further correspond alikeLater =>
    exact (rest later _ _ (extension.trans further) correspond later List.prefix_rfl
      _ _ alikeLater).before further
  | failed further error alikeLater => exact .failed further error alikeLater
  | outOfFuel => exact .outOfFuel

theorem imp {weaker : World → α → α → Prop} {first second : Run α}
    (accords : Run.Accords accord base stack values first second)
    (implies : ∀ world value other, values world value other → weaker world value other) :
    Run.Accords accord base stack weaker first second := by
  intro world extension machine other alike
  have ran := accords world extension machine other alike
  generalize first machine = outcome at ran ⊢
  generalize second other = outcome' at ran ⊢
  cases ran with
  | done further correspond alikeLater => exact .done further (implies _ _ _ correspond) alikeLater
  | failed further error alikeLater => exact .failed further error alikeLater
  | outOfFuel => exact .outOfFuel

theorem raise {token token' : Token} {fault : Fault} (stands : accord.token token token') :
    Run.Accords accord base stack values (Run.raise token fault) (Run.raise token' fault) :=
  fun _ _ _ _ alike => .failed List.prefix_rfl (accord.raise stands) alike

theorem readVariable {node node' : NodeId} {name name' : Token}
    (same : accord.SameVariable stack node node' name name') :
    Run.Accords accord base stack accord.Values (Run.readVariable node name)
      (Run.readVariable node' name') := by
  intro world _ machine other alike
  have found := alike.valueAt? same
  unfold Run.readVariable
  generalize machine.valueAt? node name.lexeme = first at found
  generalize other.valueAt? node' name'.lexeme = second at found
  cases found with
  | some alikeValue => exact .done List.prefix_rfl alikeValue alike
  | none => exact .failed List.prefix_rfl same.undefined alike

theorem assignVariable {node node' : NodeId} {name name' : Token} {value another : Value}
    (same : accord.SameVariable stack node node' name name')
    (alikeValue : value.Accords accord base another) :
    Run.Accords accord base stack Accord.Same (Run.assignVariable node name value)
      (Run.assignVariable node' name' another) := by
  intro world extension machine other alike
  obtain ⟨target, names⟩ := alike.targetOf? same
  unfold Run.assignVariable
  rw [target]
  cases found : machine.targetOf? node name.lexeme with
  | none => exact .failed List.prefix_rfl same.undefined alike
  | some target =>
    obtain ⟨entry, known, lexeme⟩ := names target found
    refine .done List.prefix_rfl rfl (alike.ofStore List.prefix_rfl ?_)
    rw [lexeme]
    exact alike.store.define known name.lexeme (alikeValue.mono extension)

theorem declare {name name' : Token} {value another : Value}
    (lexeme : name'.lexeme = namingAt stack (some 0) name.lexeme)
    (alikeValue : value.Accords accord base another) :
    Run.Accords accord base stack Accord.Same (Run.declare name value)
      (Run.declare name' another) := by
  intro world extension machine other alike
  obtain ⟨entry, known, names⟩ := alike.around.here
  refine .done List.prefix_rfl rfl (alike.ofStore List.prefix_rfl ?_)
  rw [lexeme, alike.scope, ← names]
  exact alike.store.define known name.lexeme (alikeValue.mono extension)

theorem makeFunction {name name' : Option String} {kind : FunctionKind} {body body' : FunctionBody}
    (same : name' = name) (code : accord.code stack (.function kind body) (.function kind body')) :
    Run.Accords accord base stack accord.Values (Run.makeFunction name body)
      (Run.makeFunction name' body') := by
  intro world _ machine other alike
  unfold Run.makeFunction
  rw [same, alike.nextFunction, alike.scope]
  exact .done List.prefix_rfl (.function alike.around code)
    { alike with scope := rfl, nextFunction := rfl }

theorem readClock : Run.Accords accord base stack Accord.Same Run.readClock Run.readClock := by
  intro world _ machine other alike
  unfold Run.readClock
  rw [alike.clock, alike.ticks]
  exact .done List.prefix_rfl rfl { alike with clock := rfl, ticks := rfl }

theorem print {keyword keyword' : Token} {value another : Value}
    (stands : accord.token keyword keyword') (alikeValue : value.Accords accord base another) :
    Run.Accords accord base stack Accord.Same (Run.print keyword value)
      (Run.print keyword' another) := by
  intro world _ machine other alike
  unfold Run.print
  rw [alike.sink, alike.output, alikeValue.resembles.text]
  cases machine.sink with
  | «open» => exact .done List.prefix_rfl rfl { alike with output := rfl, sink := rfl }
  | closed => exact .failed List.prefix_rfl (accord.raise stands) alike

/-- The current scope is the same, and around it the scopes name like the stack. -/
theorem viewScope :
    Run.Accords accord base stack (fun world scope other => other = scope ∧
      world.Around scope stack)
    (Step.view Machine.scope) (Step.view Machine.scope) :=
  fun _ _ _ _ alike => .done List.prefix_rfl ⟨alike.scope, alike.around⟩ alike

/-- A scope is opened that names in whatever way. -/
theorem openScope {enclosing : ScopeId} (naming : Naming) :
    Run.Accords accord base stack
      (fun world scope other => other = scope ∧ world.scope? scope = some ⟨some enclosing, naming⟩)
      (Run.openScope enclosing) (Run.openScope enclosing) := by
  intro world _ machine other alike
  have extension : world <+: world ++ [⟨some enclosing, naming⟩] := List.prefix_append _ _
  refine .done extension ⟨?_, ?_⟩
    (alike.ofStore extension (alike.store.add (some enclosing) naming))
  · rw [alike.store.nextId, alike.store.nextId']
  · rw [alike.store.nextId, World.scope?_append, if_pos rfl]

theorem defineAll {values others : List Value} {scope : ScopeId} {entry : KnownScope}
    (known : base.scope? scope = some entry) (names : List String)
    (alikeValues : List.Forall₂ (Value.Accords accord base) values others) :
    Run.Accords accord base stack Accord.Same (Run.defineAll scope (names.zip values))
      (Run.defineAll scope ((names.map entry.naming).zip others)) := by
  intro world extension machine other alike
  have alikeNow : List.Forall₂ (Value.Accords accord world) values others :=
    alikeValues.imp fun _ _ alikeValue => alikeValue.mono extension
  exact .done List.prefix_rfl rfl
    (alike.ofStore List.prefix_rfl
      (alike.store.defineAll (World.scope?_mono extension known) names alikeNow))

/-- The body runs in a scope with other surroundings; afterwards the surroundings are those
before. -/
theorem inScope {first second : Run α} {scope : ScopeId} {inner : List Naming}
    (around : base.Around scope inner)
      (accords : Run.Accords accord base inner values first second) :
    Run.Accords accord base stack values (Run.inScope scope first) (Run.inScope scope second) := by
  intro world extension machine other alike
  have back : ∀ {later : World} {now now' : Machine}, world <+: later →
      now.Accords accord later inner now' →
      Machine.Accords accord later stack { now with scope := machine.scope }
        { now' with scope := other.scope } :=
    fun further now => { now with scope := alike.scope, around := alike.around.mono further }
  have ran := accords world extension { machine with scope := scope } { other with scope := scope }
    { alike with scope := rfl, around := around.mono extension }
  unfold Run.inScope
  generalize first _ = outcome at ran
  generalize second _ = outcome' at ran
  cases ran with
  | done further correspond now => exact .done further correspond (back further now)
  | failed further error now => exact .failed further error (back further now)
  | outOfFuel => exact .outOfFuel

theorem inCall {first second : Run α}
    (accords : Run.Accords accord base stack values first second) :
    Run.Accords accord base stack values (Run.inCall first) (Run.inCall second) := by
  intro world extension machine other alike
  have counted : ∀ {later : World} {now now' : Machine} (count : Nat → Nat),
      now.Accords accord later stack now' →
      Machine.Accords accord later stack { now with depth := count now.depth }
        { now' with depth := count now'.depth } :=
    fun count now => { now with depth := congrArg count now.depth }
  have ran := accords world extension _ _ (counted (· + 1) alike)
  unfold Run.inCall
  generalize first _ = outcome at ran
  generalize second _ = outcome' at ran
  cases ran with
  | done further correspond now => exact .done further correspond (counted (· - 1) now)
  | failed further error now => exact .failed further error (counted (· - 1) now)
  | outOfFuel => exact .outOfFuel

theorem checkCall {closing closing' : Token} (arity arguments : Nat)
    (stands : accord.token closing closing') :
    Run.Accords accord base stack Accord.Same (Run.checkCall closing arity arguments)
      (Run.checkCall closing' arity arguments) := by
  intro world _ machine other alike
  unfold Run.checkCall
  rw [alike.depth]
  by_cases wrong : arguments ≠ arity
  · rw [if_pos wrong, if_pos wrong]
    exact .failed List.prefix_rfl (accord.raise stands) alike
  · rw [if_neg wrong, if_neg wrong]
    by_cases full : maxDepth ≤ machine.depth
    · rw [if_pos full, if_pos full]
      exact .failed List.prefix_rfl (accord.raise stands) alike
    · rw [if_neg full, if_neg full]
      exact .done List.prefix_rfl rfl alike

end Run.Accords

/-! ### Evaluation -/

/-- The same way for a statement to end. -/
inductive Flow.Accords (accord : Accord) (world : World) : Flow → Flow → Prop
  | normal : Accords accord world .normal .normal
  | returned {value other : Value} : value.Accords accord world other →
      Accords accord world (.returned value) (.returned other)

theorem Flow.Accords.value {accord : Accord} {world : World} {flow other : Flow}
    (accords : flow.Accords accord world other) : flow.value.Accords accord world other.value := by
  cases accords with
  | normal => exact .plain _ fun _ => Value.noConfusion
  | returned alike => exact alike

/-- Parts that stand for one another do the same with this fuel. -/
structure EvaluatesAccordingly (accord : Accord) (fuel : Nat) : Prop where
  evaluate : ∀ {base stack value value'},
    accord.code stack (.expression value) (.expression value') →
    Run.Accords accord base stack accord.Values (Lox.evaluate fuel value) (Lox.evaluate fuel value')
  evaluateAll : ∀ {base stack values values'},
    accord.code stack (.arguments values) (.arguments values') →
    Run.Accords accord base stack (fun world => List.Forall₂ (Value.Accords accord world))
      (Lox.evaluateAll fuel values) (Lox.evaluateAll fuel values')
  callValue : ∀ {base stack callee callee' closing closing' arguments arguments'},
    Value.Accords accord base callee callee' → accord.token closing closing' →
    List.Forall₂ (Value.Accords accord base) arguments arguments' →
    Run.Accords accord base stack accord.Values (Lox.callValue fuel callee closing arguments)
      (Lox.callValue fuel callee' closing' arguments')
  execute : ∀ {base stack form form'}, accord.code stack (.statement form) (.statement form') →
    Run.Accords accord base stack (Flow.Accords accord) (Lox.execute fuel form)
      (Lox.execute fuel form')
  evaluateOr : ∀ {base stack value value'},
    Option.Rel (fun value value' => accord.code stack (.expression value) (.expression value'))
      value value' →
    Run.Accords accord base stack accord.Values (Lox.evaluateOr fuel value)
      (Lox.evaluateOr fuel value')
  executeAll : ∀ {base stack forms forms'},
    accord.code stack (.statements forms) (.statements forms') →
    Run.Accords accord base stack (Flow.Accords accord) (Lox.executeAll fuel forms)
      (Lox.executeAll fuel forms')
  repeatWhile : ∀ {base stack condition condition' body body'},
    accord.code stack (.expression condition) (.expression condition') →
    accord.code stack (.statement body) (.statement body') →
    Run.Accords accord base stack (Flow.Accords accord) (Lox.repeatWhile fuel condition body)
      (Lox.repeatWhile fuel condition' body')

/-- What two runs are compared by if they may differ in this manner. -/
def Accord.comparison (accord : Accord) : Comparison World (List Naming) where
  grows world later := world <+: later
  opens stack inside := ∃ naming, inside = naming :: stack
  token := accord.token
  accesses := accord.SameVariable
  declares stack name name' := name'.lexeme = namingAt stack (some 0) name.lexeme
  code := accord.code
  value := Value.Accords accord
  flow := Flow.Accords accord
  related base stack values first second := Run.Accords accord base stack values first second

/-- What this manner says about a layer is what the comparison asks of it. -/
theorem Manner.Layer.compared {accord : Accord} {stack : List Naming} {part part' : Part}
    (layer : accord.Layer stack part part') : accord.comparison.Layer stack part part' := by
  cases layer with
  | literal => exact .literal
  | grouping inner => exact .grouping inner
  | unary stands right => exact .unary stands right
  | binary stands left right => exact .binary stands left right
  | logical stands left right => exact .logical stands left right
  | ternary condition yes no => exact .ternary condition yes no
  | «variable» same => exact .variable same
  | assign same value => exact .assign same value
  | call stands callee arguments => exact .call stands callee arguments
  | lambda body => exact .lambda body
  | noArguments => exact .noArguments
  | arguments first rest => exact .arguments first rest
  | expressionStatement value => exact .expressionStatement value
  | print stands value => exact .print stands value
  | var lexeme initializer => exact .var lexeme initializer
  | block inside => exact .block ⟨_, rfl⟩ inside
  | «if» condition yes no => exact .if condition yes no
  | «while» condition body => exact .while condition body
  | function lexeme named body => exact .function lexeme named body
  | «return» value => exact .return value
  | noStatements => exact .noStatements
  | statements first rest => exact .statements first rest
  | body => exact .body

/-- A function is entered in the scope it was made in; its own scope names the
parameters as its body does. -/
theorem Value.Accords.enter {accord : Accord} {base : World} {closure : Closure} {other : Value}
    (accords : Value.Accords accord base (.function closure) other) :
    ∃ closure' inside, other = .function closure' ∧ closure'.body.arity = closure.body.arity ∧
      accord.code inside (.statements closure.body.statements)
        (.statements closure'.body.statements) ∧
      ∀ {later : World} {stack : List Naming} {arguments arguments' : List Value}
        {first second : Run Flow}, base <+: later →
        List.Forall₂ (Value.Accords accord later) arguments arguments' →
        (∀ last, later <+: last →
          Run.Accords accord last inside (Flow.Accords accord) first second) →
        Run.Accords accord later stack accord.Values (closure.enter arguments first)
          (closure'.enter arguments' second) := by
  cases accords with
  | plain _ notFunction => exact absurd rfl (notFunction closure)
  | @function identity name kind body body' scope outer around code =>
    cases accord.layer code with
    | @body naming _ parameters parameters' forms forms' names inside =>
      have arity : FunctionBody.arity ⟨parameters', forms'⟩ =
          FunctionBody.arity ⟨parameters, forms⟩ := by
        have lengths := congrArg List.length names
        rwa [List.length_map, List.length_map, List.length_map] at lengths
      refine ⟨_, _, rfl, arity, inside, fun extension alikeArguments both => ?_⟩
      unfold Closure.enter
      dsimp only
      refine .bind (.openScope naming) ?_
      rintro _ own _ opened ⟨rfl, known⟩
      rw [names]
      have alikeNow := alikeArguments.imp fun _ _ alike => alike.mono opened
      refine .bind (.defineAll known _ alikeNow) fun _ _ _ defined _ => ?_
      have aroundOwn :=
        (World.Around.inner known (around.mono (extension.trans opened))).mono defined
      refine .bind (.inScope aroundOwn (both _ (opened.trans defined)))
        fun _ flow flow' _ alikeFlow => ?_
      exact .pure fun _ further => alikeFlow.value.mono further

/-- Runs that may differ in such a manner are in lockstep. -/
theorem Accord.lockstep (accord : Accord) : accord.comparison.Lockstep where
  trans := List.IsPrefix.trans
  kind := accord.kind
  layer code := (accord.layer code).compared
  mono := Value.Accords.mono
  resembles := Value.Accords.resembles
  plain := .plain
  normal := .normal
  returned := .returned
  flow_cases accords := by
    cases accords with
    | normal => exact .inl ⟨rfl, rfl⟩
    | returned alike => exact .inr ⟨_, _, rfl, rfl, alike⟩
  exhausted := .exhausted
  pure := .pure
  bind := .bind
  inNewScope := by
    rintro base stack _ α values first second ⟨naming, rfl⟩ both
    refine .bind .viewScope ?_
    rintro _ current _ further ⟨rfl, around⟩
    refine .bind (.openScope naming) ?_
    rintro _ scope _ opened ⟨rfl, known⟩
    exact .inScope (.inner known (around.mono opened)) (both _ (further.trans opened))
  inCall := .inCall
  raise := .raise
  readVariable := .readVariable
  assignVariable := .assignVariable
  declare := .declare
  makeFunction := .makeFunction rfl
  readClock := .readClock
  print := .print
  checkCall := .checkCall _ _
  function := Value.Accords.enter

/-- **Parts that stand for one another do the same.** -/
theorem evaluatesAccordingly (accord : Accord) (fuel : Nat) : EvaluatesAccordingly accord fuel :=
  have all := accord.lockstep.evaluation fuel
  ⟨all.evaluate, all.evaluateAll, all.callValue, all.execute, all.evaluateOr,
    all.executeAll, all.repeatWhile⟩

/-- **So do programs.** -/
theorem interpretsAccordingly (accord : Accord) (fuel : Nat) {base : World} {stack : List Naming}
    {forms forms' : List Stmt} (code : accord.code stack (.statements forms) (.statements forms')) :
    Run.Accords accord base stack Accord.Same (interpret fuel forms) (interpret fuel forms') :=
  accord.lockstep.interpret fuel code

end Lox
