/-
**Two runs in lockstep.**

* `Run.inNewScope`, `Closure.enter` — what blocks and calls do around their statements.
* `Comparison` — what two runs are compared by: what is known of both, where code stands in both,
  and which tokens, values and parts of the one stand for which of the other.
* `Comparison.Layer` — two parts have the same form, and what they consist of stands
  for one another in turn.
* `Comparison.Lockstep` — the rules of such a comparison. There is one for each operation on a
  machine, and one for each way in which computations are put together.
* `Comparison.Lockstep.evaluation` — then parts that stand for one another do the same. The
  induction over evaluation is made here, once for all comparisons of different code.
  `Comparison.Lockstep.interpret` — so do programs.
-/

import Lox.Proofs.Evaluation.Values
import Lox.Proofs.Scoping.Site
import Mathlib.Data.List.Forall2

namespace Lox

/-! ### Computations in scopes of their own -/

/-- A computation in a scope that is opened for it in the current one. -/
def Run.inNewScope {α : Type} (body : Run α) : Run α := do
  let current ← Step.view Machine.scope
  let scope ← Run.openScope current
  Run.inScope scope body

/-- The value of a call of the function, where this computation is its body. -/
def Closure.enter (closure : Closure) (arguments : List Value) (body : Run Flow) : Run Value := do
  let scope ← Run.openScope closure.scope
  Run.defineAll scope ((closure.body.parameters.map Token.lexeme).zip arguments)
  let flow ← Run.inScope scope body
  return flow.value

/-! ### Comparisons -/

/-- What two runs are compared by, given what may be known of both and the places where code may
stand. -/
structure Comparison (World Place : Type) where
  /-- In the second world, as much is known as in the first. -/
  grows : World → World → Prop
  /-- The second place is right within a scope that is opened at the first. -/
  opens : Place → Place → Prop
  /-- The second token stands for the first. -/
  token : Token → Token → Prop
  /-- Both runs come to the same variable, under whatever name. -/
  accesses : Place → NodeId → NodeId → Token → Token → Prop
  /-- Both runs declare the same variable, under whatever name. -/
  declares : Place → Token → Token → Prop
  /-- The second part stands for the first. -/
  code : Place → Part → Part → Prop
  value : World → Value → Value → Prop
  flow : World → Flow → Flow → Prop
  /-- Started where this is known, the two computations end alike, with values that correspond. -/
  related : ∀ {α : Type}, World → Place → (World → α → α → Prop) → Run α → Run α → Prop

namespace Comparison

variable {World Place : Type}

/-- The two parts have the same form, and what they consist of stands for one another. -/
inductive Layer (comparison : Comparison World Place) (place : Place) : Part → Part → Prop
  | literal {value : Literal} :
      Layer comparison place (.expression (.literal value)) (.expression (.literal value))
  | grouping {inner inner' : Expr} :
      comparison.code place (.expression inner) (.expression inner') →
      Layer comparison place (.expression (.grouping inner)) (.expression (.grouping inner'))
  | unary {operator operator' : Token} {right right' : Expr} :
      comparison.token operator operator' →
      comparison.code place (.expression right) (.expression right') →
      Layer comparison place (.expression (.unary operator right))
        (.expression (.unary operator' right'))
  | binary {operator operator' : Token} {left left' right right' : Expr} :
      comparison.token operator operator' →
      comparison.code place (.expression left) (.expression left') →
      comparison.code place (.expression right) (.expression right') →
      Layer comparison place (.expression (.binary left operator right))
        (.expression (.binary left' operator' right'))
  | logical {operator operator' : Token} {left left' right right' : Expr} :
      comparison.token operator operator' →
      comparison.code place (.expression left) (.expression left') →
      comparison.code place (.expression right) (.expression right') →
      Layer comparison place (.expression (.logical left operator right))
        (.expression (.logical left' operator' right'))
  | ternary {question question' : Token} {condition condition' yes yes' no no' : Expr} :
      comparison.code place (.expression condition) (.expression condition') →
      comparison.code place (.expression yes) (.expression yes') →
      comparison.code place (.expression no) (.expression no') →
      Layer comparison place (.expression (.ternary condition question yes no))
        (.expression (.ternary condition' question' yes' no'))
  | variable {node node' : NodeId} {name name' : Token} :
      comparison.accesses place node node' name name' →
      Layer comparison place (.expression (.variable node name))
        (.expression (.variable node' name'))
  | assign {node node' : NodeId} {name name' : Token} {value value' : Expr} :
      comparison.accesses place node node' name name' →
      comparison.code place (.expression value) (.expression value') →
      Layer comparison place (.expression (.assign node name value))
        (.expression (.assign node' name' value'))
  | call {callee callee' : Expr} {arguments arguments' : List Expr} {closing closing' : Token} :
      comparison.token closing closing' →
      comparison.code place (.expression callee) (.expression callee') →
      comparison.code place (.arguments arguments) (.arguments arguments') →
      Layer comparison place (.expression (.call callee arguments closing))
        (.expression (.call callee' arguments' closing'))
  | lambda {keyword keyword' : Token} {body body' : FunctionBody} :
      comparison.code place (.function .lambda body) (.function .lambda body') →
      Layer comparison place (.expression (.lambda keyword body))
        (.expression (.lambda keyword' body'))
  | noArguments : Layer comparison place (.arguments []) (.arguments [])
  | arguments {first first' : Expr} {rest rest' : List Expr} :
      comparison.code place (.expression first) (.expression first') →
      comparison.code place (.arguments rest) (.arguments rest') →
      Layer comparison place (.arguments (first :: rest)) (.arguments (first' :: rest'))
  | expressionStatement {value value' : Expr} :
      comparison.code place (.expression value) (.expression value') →
      Layer comparison place (.statement (.expression value)) (.statement (.expression value'))
  | print {keyword keyword' : Token} {value value' : Expr} :
      comparison.token keyword keyword' →
      comparison.code place (.expression value) (.expression value') →
      Layer comparison place (.statement (.print keyword value))
        (.statement (.print keyword' value'))
  | var {name name' : Token} {initializer initializer' : Option Expr} :
      comparison.declares place name name' →
      Option.Rel (fun value value' => comparison.code place (.expression value)
        (.expression value')) initializer initializer' →
      Layer comparison place (.statement (.var name initializer))
        (.statement (.var name' initializer'))
  | block {inside : Place} {forms forms' : List Stmt} :
      comparison.opens place inside →
      comparison.code inside (.statements forms) (.statements forms') →
      Layer comparison place (.statement (.block forms)) (.statement (.block forms'))
  | if {condition condition' : Expr} {yes yes' : Stmt} {no no' : Option Stmt} :
      comparison.code place (.expression condition) (.expression condition') →
      comparison.code place (.statement yes) (.statement yes') →
      Option.Rel (fun form form' => comparison.code place (.statement form) (.statement form'))
        no no' →
      Layer comparison place (.statement (.if condition yes no))
        (.statement (.if condition' yes' no'))
  | while {condition condition' : Expr} {body body' : Stmt} :
      comparison.code place (.expression condition) (.expression condition') →
      comparison.code place (.statement body) (.statement body') →
      Layer comparison place (.statement (.while condition body))
        (.statement (.while condition' body'))
  | function {name name' : Token} {body body' : FunctionBody} :
      comparison.declares place name name' → name'.lexeme = name.lexeme →
      comparison.code place (.function .function body) (.function .function body') →
      Layer comparison place (.statement (.function name body)) (.statement (.function name' body'))
  | return {keyword keyword' : Token} {value value' : Option Expr} :
      Option.Rel (fun value value' => comparison.code place (.expression value)
        (.expression value')) value value' →
      Layer comparison place (.statement (.return keyword value))
        (.statement (.return keyword' value'))
  | noStatements : Layer comparison place (.statements []) (.statements [])
  | statements {first first' : Stmt} {rest rest' : List Stmt} :
      comparison.code place (.statement first) (.statement first') →
      comparison.code place (.statements rest) (.statements rest') →
      Layer comparison place (.statements (first :: rest)) (.statements (first' :: rest'))
  /-- A body is run where its function is called, so that nothing is asked of it here. -/
  | body {kind : FunctionKind} {body body' : FunctionBody} :
      Layer comparison place (.function kind body) (.function kind body')
  /-- A variable is read or assigned by the expression around it. -/
  | target {node node' : NodeId} {access access' : Access} {name name' : Token} :
      Layer comparison place (.target node access name) (.target node' access' name')

/-- The rules by which two runs are related, whatever they are put together of. -/
structure Lockstep (comparison : Comparison World Place) : Prop where
  trans {first second third : World} :
    comparison.grows first second → comparison.grows second third → comparison.grows first third
  kind {first second : Token} : comparison.token first second → second.kind = first.kind
  layer {place : Place} {part part' : Part} : comparison.code place part part' →
    comparison.Layer place part part'
  -- values and flows
  mono {world later : World} {value other : Value} :
    comparison.value world value other → comparison.grows world later →
      comparison.value later value other
  resembles {world : World} {value other : Value} : comparison.value world value other →
    value.Resembles other
  plain {world : World} (value : Value) :
    (∀ closure, value ≠ .function closure) → comparison.value world value value
  normal {world : World} : comparison.flow world .normal .normal
  returned {world : World} {value other : Value} :
    comparison.value world value other → comparison.flow world (.returned value) (.returned other)
  flow_cases {world : World} {flow other : Flow} : comparison.flow world flow other →
    (flow = .normal ∧ other = .normal) ∨
      ∃ value another, flow = .returned value ∧ other = .returned another ∧
      comparison.value world value another
  -- computations
  exhausted {base : World} {place : Place} {α : Type} {values : World → α → α → Prop} :
    comparison.related base place values Step.exhausted Step.exhausted
  pure {base : World} {place : Place} {α : Type} {values : World → α → α → Prop} {value other : α} :
    (∀ later, comparison.grows base later → values later value other) →
    comparison.related base place values (pure value) (pure other)
  bind {base : World} {place : Place} {α β : Type} {values : World → α → α → Prop}
    {results : World → β → β → Prop} {first second : Run α} {next following : α → Run β} :
    comparison.related base place values first second →
    (∀ later value other, comparison.grows base later → values later value other →
      comparison.related later place results (next value) (following other)) →
    comparison.related base place results (first >>= next) (second >>= following)
  inNewScope {base : World} {place inside : Place} {α : Type} {values : World → α → α → Prop}
    {first second : Run α} : comparison.opens place inside →
    (∀ later, comparison.grows base later → comparison.related later inside values first second) →
    comparison.related base place values (Run.inNewScope first) (Run.inNewScope second)
  inCall {base : World} {place : Place} {α : Type} {values : World → α → α → Prop}
    {first second : Run α} :
    comparison.related base place values first second →
    comparison.related base place values (Run.inCall first) (Run.inCall second)
  -- operations
  raise {base : World} {place : Place} {α : Type} {values : World → α → α → Prop}
    {token token' : Token} {fault : Fault} : comparison.token token token' →
    comparison.related base place values (Run.raise token fault) (Run.raise token' fault)
  readVariable {base : World} {place : Place} {node node' : NodeId} {name name' : Token} :
    comparison.accesses place node node' name name' →
    comparison.related base place comparison.value (Run.readVariable node name)
      (Run.readVariable node' name')
  assignVariable {base : World} {place : Place} {node node' : NodeId} {name name' : Token}
    {value other : Value} :
    comparison.accesses place node node' name name' → comparison.value base value other →
    comparison.related base place (fun _ => Eq) (Run.assignVariable node name value)
      (Run.assignVariable node' name' other)
  declare {base : World} {place : Place} {name name' : Token} {value other : Value} :
    comparison.declares place name name' → comparison.value base value other →
    comparison.related base place (fun _ => Eq) (Run.declare name value) (Run.declare name' other)
  makeFunction {base : World} {place : Place} {name : Option String} {kind : FunctionKind}
    {body body' : FunctionBody} :
    comparison.code place (.function kind body) (.function kind body') →
    comparison.related base place comparison.value (Run.makeFunction name body)
      (Run.makeFunction name body')
  readClock {base : World} {place : Place} :
    comparison.related base place (fun _ => Eq) Run.readClock Run.readClock
  print {base : World} {place : Place} {keyword keyword' : Token} {value other : Value} :
    comparison.token keyword keyword' → comparison.value base value other →
    comparison.related base place (fun _ => Eq) (Run.print keyword value) (Run.print keyword' other)
  checkCall {base : World} {place : Place} {closing closing' : Token} {arity arguments : Nat} :
    comparison.token closing closing' →
    comparison.related base place (fun _ => Eq) (Run.checkCall closing arity arguments)
      (Run.checkCall closing' arity arguments)
  /-- A function stands for one that is called alike, from wherever. -/
  function {base : World} {closure : Closure} {other : Value} :
    comparison.value base (.function closure) other →
    ∃ closure' inside, other = .function closure' ∧ closure'.body.arity = closure.body.arity ∧
      comparison.code inside (.statements closure.body.statements)
        (.statements closure'.body.statements) ∧
      ∀ {later : World} {place : Place} {arguments arguments' : List Value}
        {first second : Run Flow}, comparison.grows base later →
        List.Forall₂ (comparison.value later) arguments arguments' →
        (∀ last, comparison.grows later last →
          comparison.related last inside comparison.flow first second) →
        comparison.related later place comparison.value (closure.enter arguments first)
          (closure'.enter arguments' second)

/-- Parts that stand for one another do the same with this fuel. -/
structure Evaluates (comparison : Comparison World Place) (fuel : Nat) : Prop where
  evaluate : ∀ {base place value value'},
    comparison.code place (.expression value) (.expression value') →
    comparison.related base place comparison.value (Lox.evaluate fuel value)
      (Lox.evaluate fuel value')
  evaluateAll : ∀ {base place values values'},
    comparison.code place (.arguments values) (.arguments values') →
    comparison.related base place (fun world => List.Forall₂ (comparison.value world))
      (Lox.evaluateAll fuel values) (Lox.evaluateAll fuel values')
  evaluateOr : ∀ {base place value value'},
    Option.Rel (fun value value' => comparison.code place (.expression value) (.expression value'))
      value value' →
    comparison.related base place comparison.value (Lox.evaluateOr fuel value)
      (Lox.evaluateOr fuel value')
  callValue : ∀ {base place callee callee' closing closing' arguments arguments'},
    comparison.value base callee callee' → comparison.token closing closing' →
    List.Forall₂ (comparison.value base) arguments arguments' →
    comparison.related base place comparison.value (Lox.callValue fuel callee closing arguments)
      (Lox.callValue fuel callee' closing' arguments')
  execute : ∀ {base place form form'}, comparison.code place (.statement form) (.statement form') →
    comparison.related base place comparison.flow (Lox.execute fuel form) (Lox.execute fuel form')
  executeAll : ∀ {base place forms forms'},
    comparison.code place (.statements forms) (.statements forms') →
    comparison.related base place comparison.flow (Lox.executeAll fuel forms)
      (Lox.executeAll fuel forms')
  repeatWhile : ∀ {base place condition condition' body body'},
    comparison.code place (.expression condition) (.expression condition') →
    comparison.code place (.statement body) (.statement body') →
    comparison.related base place comparison.flow (Lox.repeatWhile fuel condition body)
      (Lox.repeatWhile fuel condition' body')

namespace Lockstep

variable {comparison : Comparison World Place} (lockstep : comparison.Lockstep)
  {base : World} {place : Place}

/-! ### Putting computations together -/

/-- Both runs go the same way. -/
theorem ite {α : Type} {values : World → α → α → Prop} {condition condition' : Bool}
    {yes no yes' no' : Run α} (same : condition' = condition)
    (holds : comparison.related base place values yes yes')
    (otherwise : comparison.related base place values no no') :
    comparison.related base place values (if condition then yes else no)
      (if condition' then yes' else no') := by
  subst same
  cases condition' with
  | true => exact holds
  | false => exact otherwise

include lockstep

/-- A constant stands for itself. -/
theorem pureConstant {value : Value} (isConstant : value.IsConstant) :
    comparison.related base place comparison.value (Pure.pure value) (Pure.pure value) :=
  lockstep.pure fun _ _ => lockstep.plain value isConstant.ne_function

theorem orRaise {token token' : Token} {result : Except Fault Value}
    (stands : comparison.token token token')
    (isConstant : ∀ value, result = .ok value → value.IsConstant) :
    comparison.related base place comparison.value (Run.orRaise token result)
      (Run.orRaise token' result) := by
  cases result with
  | error => exact lockstep.raise stands
  | ok value => exact lockstep.pureConstant (isConstant value rfl)

/-- What comes after a statement is run only if that ends normally. -/
theorem andThen {α : Type} {values : World → α → α → Prop} {first second : Run Flow}
    {next following : Flow → Run α}
    (both : comparison.related base place comparison.flow first second)
    (rest : ∀ later, comparison.grows base later →
      comparison.related later place values (next .normal) (following .normal))
    (back : ∀ later value other, comparison.grows base later → comparison.value later value other →
      comparison.related later place values (next (.returned value))
        (following (.returned other))) :
    comparison.related base place values (first >>= next) (second >>= following) := by
  refine lockstep.bind both fun later flow other extension alike => ?_
  rcases lockstep.flow_cases alike with ⟨rfl, rfl⟩ | ⟨value, another, rfl, rfl, alikeValue⟩
  · exact rest later extension
  · exact back later value another extension alikeValue

/-! ### Evaluation -/

section

variable {fuel : Nat} (ih : comparison.Evaluates fuel)

include ih

theorem expression {value value' : Expr}
    (code : comparison.code place (.expression value) (.expression value')) :
    comparison.related base place comparison.value (evaluate (fuel + 1) value)
      (evaluate (fuel + 1) value') := by
  rw [evaluate.eq_def, evaluate.eq_def]
  cases lockstep.layer code with
  | @literal value => exact lockstep.pureConstant (.literal value)
  | grouping inner => exact ih.evaluate inner
  | unary stands right =>
    refine lockstep.bind (ih.evaluate right) fun _ operand operand' _ alike => ?_
    rw [lockstep.kind stands, (lockstep.resembles alike).applyUnary]
    exact lockstep.orRaise stands fun _ => applyUnary_isConstant
  | binary stands left right =>
    refine lockstep.bind (ih.evaluate left) fun _ first first' _ alikeFirst => ?_
    refine lockstep.bind (ih.evaluate right) fun _ second second' _ alikeSecond => ?_
    rw [lockstep.kind stands, (lockstep.resembles alikeFirst).applyBinary _
      (lockstep.resembles alikeSecond)]
    exact lockstep.orRaise stands fun _ => applyBinary_isConstant
  | logical stands left right =>
    refine lockstep.bind (ih.evaluate left) fun _ first first' _ alikeFirst => ?_
    refine ite ((lockstep.resembles alikeFirst).decidesLogical (lockstep.kind stands)) ?_ ?_
    · exact lockstep.pure fun _ extension => lockstep.mono alikeFirst extension
    · refine lockstep.bind (ih.evaluate right) fun _ second second' _ alikeSecond => ?_
      rw [(lockstep.resembles alikeSecond).truthy]
      exact lockstep.pureConstant (.boolean _)
  | ternary condition yes no =>
    refine lockstep.bind (ih.evaluate condition) fun _ decision decision' _ alike => ?_
    exact ite (lockstep.resembles alike).truthy (ih.evaluate yes) (ih.evaluate no)
  | «variable» same => exact lockstep.readVariable same
  | assign same value =>
    refine lockstep.bind (ih.evaluate value) fun _ assigned assigned' _ alike => ?_
    refine lockstep.bind (lockstep.assignVariable same alike) fun _ _ _ extension _ => ?_
    exact lockstep.pure fun _ further => lockstep.mono alike (lockstep.trans extension further)
  | call stands callee arguments =>
    refine lockstep.bind (ih.evaluate callee) fun _ function function' _ alike => ?_
    refine lockstep.bind (ih.evaluateAll arguments) fun _ values values' extension alikeValues => ?_
    exact ih.callValue (lockstep.mono alike extension) stands alikeValues
  | lambda body => exact lockstep.makeFunction body

theorem expressions {values values' : List Expr}
    (code : comparison.code place (.arguments values) (.arguments values')) :
    comparison.related base place (fun world => List.Forall₂ (comparison.value world))
      (evaluateAll (fuel + 1) values) (evaluateAll (fuel + 1) values') := by
  cases lockstep.layer code with
  | noArguments => exact lockstep.pure fun _ _ => .nil
  | arguments first rest =>
    refine lockstep.bind (ih.evaluate first) fun _ value value' _ alike => ?_
    refine lockstep.bind (ih.evaluateAll rest) fun _ others others' extension alikeOthers => ?_
    refine lockstep.pure fun _ further =>
      .cons (lockstep.mono alike (lockstep.trans extension further)) ?_
    exact alikeOthers.imp fun _ _ alikeOther => lockstep.mono alikeOther further

theorem optional {value value' : Option Expr}
    (code : Option.Rel (fun value value' => comparison.code place (.expression value)
      (.expression value'))
      value value') :
    comparison.related base place comparison.value (evaluateOr (fuel + 1) value)
      (evaluateOr (fuel + 1) value') := by
  cases code with
  | none => exact lockstep.pureConstant .nil
  | some code => exact ih.evaluate code

theorem call {callee callee' : Value} {closing closing' : Token} {arguments arguments' : List Value}
    (alike : comparison.value base callee callee') (stands : comparison.token closing closing')
    (alikeArguments : List.Forall₂ (comparison.value base) arguments arguments') :
    comparison.related base place comparison.value (callValue (fuel + 1) callee closing arguments)
      (callValue (fuel + 1) callee' closing' arguments') := by
  have count : arguments'.length = arguments.length := alikeArguments.length_eq.symm
  cases callee with
  | function closure =>
    obtain ⟨closure', inside, rfl, arity, code, enter⟩ := lockstep.function alike
    unfold callValue
    dsimp only
    rw [count, arity]
    refine lockstep.bind (lockstep.checkCall stands) fun _ _ _ checked _ => lockstep.inCall ?_
    have alikeNow := alikeArguments.imp fun _ _ alike => lockstep.mono alike checked
    exact enter checked alikeNow fun _ _ => ih.executeAll code
  | native known =>
    cases lockstep.resembles alike
    unfold callValue
    rw [count]
    have resemble := alikeArguments.imp fun _ _ alike => lockstep.resembles alike
    refine lockstep.bind (lockstep.checkCall stands) fun _ _ _ _ _ => lockstep.inCall ?_
    refine lockstep.bind lockstep.readClock fun _ time time' _ same => ?_
    obtain rfl := same
    rw [known.answer_of_resembles resemble]
    exact lockstep.orRaise stands fun _ => Native.answer_isConstant
  | nil | boolean | number | string =>
    cases lockstep.resembles alike
    exact lockstep.raise stands

theorem statement {form form' : Stmt}
    (code : comparison.code place (.statement form) (.statement form')) :
    comparison.related base place comparison.flow (execute (fuel + 1) form)
      (execute (fuel + 1) form') := by
  rw [execute.eq_def, execute.eq_def]
  cases lockstep.layer code with
  | expressionStatement value =>
    refine lockstep.bind (ih.evaluate value) fun _ _ _ _ _ => ?_
    exact lockstep.pure fun _ _ => lockstep.normal
  | print stands value =>
    refine lockstep.bind (ih.evaluate value) fun _ printed printed' _ alike => ?_
    refine lockstep.bind (lockstep.print stands alike) fun _ _ _ _ _ => ?_
    exact lockstep.pure fun _ _ => lockstep.normal
  | var declares initializer =>
    refine lockstep.bind (ih.evaluateOr initializer) fun _ value value' _ alike => ?_
    refine lockstep.bind (lockstep.declare declares alike) fun _ _ _ _ _ => ?_
    exact lockstep.pure fun _ _ => lockstep.normal
  | block opens inside => exact lockstep.inNewScope opens fun _ _ => ih.executeAll inside
  | «if» condition yes no =>
    refine lockstep.bind (ih.evaluate condition) fun _ decision decision' _ alike => ?_
    refine ite (lockstep.resembles alike).truthy (ih.execute yes) ?_
    cases no with
    | none => exact lockstep.pure fun _ _ => lockstep.normal
    | some no => exact ih.execute no
  | «while» condition body => exact ih.repeatWhile condition body
  | function declares named body =>
    dsimp only
    rw [named]
    refine lockstep.bind (lockstep.makeFunction body) fun _ value value' _ alike => ?_
    refine lockstep.bind (lockstep.declare declares alike) fun _ _ _ _ _ => ?_
    exact lockstep.pure fun _ _ => lockstep.normal
  | «return» value =>
    refine lockstep.bind (ih.evaluateOr value) fun _ result result' _ alike => ?_
    exact lockstep.pure fun _ extension => lockstep.returned (lockstep.mono alike extension)

theorem statements {forms forms' : List Stmt}
    (code : comparison.code place (.statements forms) (.statements forms')) :
    comparison.related base place comparison.flow (executeAll (fuel + 1) forms)
      (executeAll (fuel + 1) forms') := by
  cases lockstep.layer code with
  | noStatements => exact lockstep.pure fun _ _ => lockstep.normal
  | statements first rest =>
    refine lockstep.andThen (ih.execute first) (fun _ _ => ih.executeAll rest)
      fun _ value other _ alike => ?_
    exact lockstep.pure fun _ extension => lockstep.returned (lockstep.mono alike extension)

theorem loop {condition condition' : Expr} {body body' : Stmt}
    (codeCondition : comparison.code place (.expression condition) (.expression condition'))
    (codeBody : comparison.code place (.statement body) (.statement body')) :
    comparison.related base place comparison.flow (repeatWhile (fuel + 1) condition body)
      (repeatWhile (fuel + 1) condition' body') := by
  refine lockstep.bind (ih.evaluate codeCondition) fun _ decision decision' _ alike => ?_
  refine ite (lockstep.resembles alike).truthy (lockstep.andThen (ih.execute codeBody)
    (fun _ _ => ih.repeatWhile codeCondition codeBody) fun _ value other _ alike => ?_) ?_
  · exact lockstep.pure fun _ extension => lockstep.returned (lockstep.mono alike extension)
  · exact lockstep.pure fun _ _ => lockstep.normal

end

/-- **Parts that stand for one another do the same.** -/
theorem evaluation (fuel : Nat) : comparison.Evaluates fuel := by
  induction fuel with
  | zero =>
    constructor
    all_goals
      intros
      exact lockstep.exhausted
  | succ fuel ih =>
    exact ⟨lockstep.expression ih, lockstep.expressions ih, lockstep.optional ih, lockstep.call ih,
      lockstep.statement ih, lockstep.statements ih, lockstep.loop ih⟩

/-- **So do programs.** -/
theorem interpret (fuel : Nat) {forms forms' : List Stmt}
    (code : comparison.code place (.statements forms) (.statements forms')) :
    comparison.related base place (fun _ => Eq) (Lox.interpret fuel forms)
      (Lox.interpret fuel forms') := by
  induction forms generalizing base forms' with
  | nil =>
    cases lockstep.layer code with
    | noStatements => exact lockstep.pure fun _ _ => rfl
  | cons first rest ih =>
    cases lockstep.layer code with
    | statements first rest =>
      refine lockstep.andThen ((lockstep.evaluation fuel).execute first) (fun _ _ => ih rest)
        fun _ _ _ _ _ => ?_
      exact lockstep.pure fun _ _ => rfl

end Lockstep

end Comparison

end Lox
