/-
**Two runs that do the same.**

* `Counterparts`, `Likeness` — which token of one run stands for which of another, and which nodes
  are in their code, for which both know the same distances.
* `Likeness.Covers` — a tree whose tokens become others is like the one with its own tokens.
* `Value.Alike`, `Store.Alike`, `Machine.Alike` — the same, but for functions whose
  bodies are like one another.
* `Run.Alike` — started in machines that are alike, two computations end alike. What evaluation does
  to a machine is alike, and so is one computation after the other (`Run.Alike.bind`).
* `Likeness.lockstep` — runs that have this in common are in lockstep, and so programs that are
  alike do the same (`interpretsAlike`).
-/

import Lox.Proofs.Evaluation.Lockstep
import Lox.Proofs.Evaluation.Stores
import Lox.Proofs.Evaluation.Values
import Lox.Proofs.Relabelling

namespace Lox

/-! ### Code -/

/-- Tokens that stand for one another; they differ in their lines only. -/
structure Counterparts where
  /-- The second token stands for the first. -/
  token : Token → Token → Prop
  kind : ∀ {first second : Token}, token first second → second.kind = first.kind
  lexeme : ∀ {first second : Token}, token first second → second.lexeme = first.lexeme

/-- Each token stands for itself. -/
def Counterparts.same : Counterparts where
  token := Eq
  kind := fun same => same ▸ rfl
  lexeme := fun same => same ▸ rfl

/-- What two runs have in common. -/
structure Likeness extends Counterparts where
  /-- The code of both runs may have this node. -/
  node : NodeId → Prop
  /-- The distances that the two runs know. -/
  distances : Distances → Distances → Prop
  known : ∀ {first second : Distances}, distances first second →
    ∀ {place : NodeId}, node place → second.get? place = first.get? place

/-- The tokens of a part may become these others, and its nodes may be in the code of both runs. -/
structure Likeness.Covers (like : Likeness) (change : Token → Token) (part : Part) : Prop where
  tokens : ∀ token ∈ part.tokens, like.token token (change token)
  nodes : ∀ node ∈ part.nodes, like.node node

/-- One likeness has all that another has. -/
structure Likeness.Within (like wider : Likeness) : Prop where
  token : ∀ {first second : Token}, like.token first second → wider.token first second
  node : ∀ {place : NodeId}, like.node place → wider.node place

theorem Likeness.Covers.mono {like wider : Likeness} {change : Token → Token} {part : Part}
    (covers : like.Covers change part) (within : like.Within wider) : wider.Covers change part :=
  ⟨fun token isToken => within.token (covers.tokens token isToken),
    fun node isNode => within.node (covers.nodes node isNode)⟩

theorem Likeness.Covers.lexemes {like : Likeness} {change : Token → Token} {kind : FunctionKind}
    {body : FunctionBody} (covers : like.Covers change (.function kind body)) :
    (body.parameters.map change).map Token.lexeme = body.parameters.map Token.lexeme := by
  obtain ⟨parameters, forms⟩ := body
  rw [List.map_map]
  refine List.map_congr_left fun token isParameter => ?_
  exact like.lexeme (covers.tokens token (List.mem_append_left _ isParameter))

/-! ### Values -/

/-- The same values, but for functions whose bodies are alike. -/
inductive Value.Alike (like : Likeness) : Value → Value → Prop
  | function {kind : FunctionKind} (closure : Closure) (change : Token → Token) :
      like.Covers change (.function kind closure.body) →
      Alike like (.function closure)
        (.function { closure with body := closure.body.relabel ⟨id, change⟩ })
  | plain (value : Value) : (∀ closure, value ≠ .function closure) → Alike like value value

theorem Value.Alike.resembles {like : Likeness} {value other : Value}
    (alike : Alike like value other) :
    value.Resembles other := by
  cases alike with
  | function => exact .function rfl rfl
  | plain => exact .plain _

/-! ### Stores -/

theorem Value.Alike.mono {like wider : Likeness} {value other : Value}
    (alike : value.Alike like other) (within : like.Within wider) : value.Alike wider other := by
  cases alike with
  | function closure change covers => exact .function closure change (covers.mono within)
  | plain value notFunction => exact .plain value notFunction

/-- A value is like itself if all of its code is common. -/
theorem Value.alike_self {like : Likeness} {value : Value}
    (covered : ∀ closure, value = .function closure →
      like.Covers id (.function (.ofName closure.name) closure.body)) :
    value.Alike like value := by
  cases value with
  | function closure =>
    have alike := Value.Alike.function closure id (covered closure rfl)
    rwa [FunctionBody.relabel_id] at alike
  | _ => exact .plain _ fun _ => Value.noConfusion

/-- The same scopes, whose values are alike. -/
structure Store.Alike (like : Likeness) (store other : Store) : Prop where
  size : other.size = store.size
  enclosing : ∀ scope, other.enclosing? scope = store.enclosing? scope
  values : ∀ scope name, Option.Rel (Value.Alike like) (store.local? scope name)
    (other.local? scope name)

namespace Store.Alike

variable {like : Likeness} {store other : Store}

theorem mono {wider : Likeness} (alike : Alike like store other) (within : like.Within wider) :
    Alike wider store other := by
  refine ⟨alike.size, alike.enclosing, fun scope name => ?_⟩
  have found := alike.values scope name
  generalize store.local? scope name = first at found
  generalize other.local? scope name = second at found
  cases found with
  | some alikeValue => exact .some (alikeValue.mono within)
  | none => exact .none

theorem self (covered : ∀ scope name closure, store.local? scope name = some (.function closure) →
    like.Covers id (.function (.ofName closure.name) closure.body)) : Alike like store store := by
  refine ⟨rfl, fun _ => rfl, fun scope name => ?_⟩
  cases found : store.local? scope name with
  | none => exact .none
  | some value =>
    refine .some (Value.alike_self fun closure isFunction => ?_)
    exact covered scope name closure (by rw [found, isFunction])

theorem isSome_local? (alike : Alike like store other) (scope : ScopeId) (name : String) :
    (other.local? scope name).isSome = (store.local? scope name).isSome := by
  have found := alike.values scope name
  generalize store.local? scope name = first at found ⊢
  generalize other.local? scope name = second at found ⊢
  cases found <;> rfl

theorem isSome_scope? (alike : Alike like store other) (scope : ScopeId) :
    (other.scope? scope).isSome = (store.scope? scope).isSome := by
  have same : other.scopes.size = store.scopes.size := alike.size
  unfold Store.scope?
  rw [Bool.eq_iff_iff, isSome_getElem?, isSome_getElem?, same]

theorem nextId (alike : Alike like store other) : other.nextId = store.nextId :=
  congrArg ScopeId.mk alike.size

theorem add (alike : Alike like store other) (enclosing : Option ScopeId) :
    Alike like (store.add enclosing) (other.add enclosing) := by
  refine ⟨?_, fun scope => ?_, fun scope name => ?_⟩
  · have same : other.scopes.size = store.scopes.size := alike.size
    unfold Store.size Store.add
    rw [Array.size_push, Array.size_push, same]
  · unfold Store.enclosing?
    rw [Store.scope?_add, Store.scope?_add, alike.nextId]
    by_cases isNew : scope = store.nextId
    · rw [if_pos isNew, if_pos isNew]
    · rw [if_neg isNew, if_neg isNew]
      exact alike.enclosing scope
  · rw [Store.local?_add, Store.local?_add, alike.nextId]
    by_cases isNew : scope = store.nextId
    · rw [if_pos isNew, if_pos isNew]
      exact .none
    · rw [if_neg isNew, if_neg isNew]
      exact alike.values scope name

theorem define {value another : Value} (alike : Alike like store other) (target : ScopeId)
    (name : String) (alikeValue : Value.Alike like value another) :
    Alike like (store.define target name value) (other.define target name another) := by
  refine ⟨?_, fun scope => ?_, fun scope asked => ?_⟩
  · have same : other.scopes.size = store.scopes.size := alike.size
    unfold Store.size Store.define
    rw [Array.size_modify, Array.size_modify, same]
  · have unchanged : ∀ (store : Store) (value : Value),
        (store.define target name value).enclosing? scope = store.enclosing? scope := by
      intro store value
      unfold Store.enclosing?
      rw [Store.scope?_define]
      by_cases isTarget : scope = target
      · rw [if_pos isTarget]
        cases store.scope? scope <;> rfl
      · rw [if_neg isTarget]
    rw [unchanged, unchanged, alike.enclosing]
  · rw [Store.local?_define, Store.local?_define, alike.isSome_scope?]
    by_cases isHere : scope = target ∧ asked = name ∧ (store.scope? scope).isSome
    · rw [if_pos isHere, if_pos isHere]
      exact .some alikeValue
    · rw [if_neg isHere, if_neg isHere]
      exact alike.values scope asked

theorem defineAll {values others : List Value} (alike : Alike like store other) (target : ScopeId)
    (names : List String) (alikeValues : List.Forall₂ (Value.Alike like) values others) :
    Alike like (store.defineAll target (names.zip values))
      (other.defineAll target (names.zip others)) := by
  unfold Store.defineAll
  induction alikeValues generalizing store other names with
  | nil =>
    rw [List.zip_nil_right]
    exact alike
  | cons alikeFirst _ ih =>
    cases names with
    | nil => exact alike
    | cons name names => exact ih (alike.define target name alikeFirst) names

theorem getWithin (alike : Alike like store other) (name : String) (steps : Nat) (scope : ScopeId) :
    Option.Rel (Value.Alike like) (store.getWithin name steps scope)
      (other.getWithin name steps scope) := by
  induction steps generalizing scope with
  | zero => exact .none
  | succ steps ih =>
    unfold Store.getWithin
    have found := alike.values scope name
    rw [alike.enclosing]
    generalize store.local? scope name = first at found
    generalize other.local? scope name = second at found
    cases found with
    | some alikeValue => exact .some alikeValue
    | none =>
      cases store.enclosing? scope with
      | none => exact .none
      | some outer => exact ih outer

theorem holderWithin (alike : Alike like store other) (name : String) (steps : Nat)
    (scope : ScopeId) :
    other.holderWithin name steps scope = store.holderWithin name steps scope := by
  induction steps generalizing scope with
  | zero => rfl
  | succ steps ih =>
    unfold Store.holderWithin
    rw [alike.isSome_local?, alike.enclosing, funext ih]

theorem ancestor? (alike : Alike like store other) (scope : ScopeId) (distance : Nat) :
    other.ancestor? scope distance = store.ancestor? scope distance := by
  induction distance generalizing scope with
  | zero => rfl
  | succ distance ih =>
    unfold Store.ancestor?
    rw [alike.enclosing, funext ih]

end Store.Alike

/-! ### Machines -/

/-- The same machines, but for the values in their scopes, and the distances of nodes that are in
none of their code. -/
structure Machine.Alike (like : Likeness) (machine other : Machine) : Prop where
  store : machine.store.Alike like other.store
  scope : other.scope = machine.scope
  globals : other.globals = machine.globals
  distances : like.distances machine.distances other.distances
  depth : other.depth = machine.depth
  output : other.output = machine.output
  sink : other.sink = machine.sink
  clock : other.clock = machine.clock
  ticks : other.ticks = machine.ticks
  nextFunction : other.nextFunction = machine.nextFunction

namespace Machine.Alike

variable {like : Likeness} {machine other : Machine}

/-- The machines go on with other distances, and have more in common. -/
theorem relearn {wider : Likeness} {known known' : Distances} (alike : Alike like machine other)
    (within : like.Within wider) (distances : wider.distances known known') :
    Alike wider { machine with distances := known } { other with distances := known' } :=
  ⟨alike.store.mono within, alike.scope, alike.globals, distances, alike.depth,
    alike.output, alike.sink, alike.clock, alike.ticks, alike.nextFunction⟩

/-- The machines go on in scopes whose values are alike. -/
theorem ofStore {store another : Store} (alike : Alike like machine other)
    (alikeStore : store.Alike like another) :
    Alike like { machine with store := store } { other with store := another } :=
  ⟨alikeStore, alike.scope, alike.globals, alike.distances, alike.depth, alike.output, alike.sink,
    alike.clock, alike.ticks, alike.nextFunction⟩

theorem define {value another : Value} (alike : Alike like machine other) (target : ScopeId)
    (name : String) (alikeValue : value.Alike like another) :
    Alike like (machine.define target name value) (other.define target name another) :=
  alike.ofStore (alike.store.define target name alikeValue)

theorem valueAt? {node : NodeId} {name name' : String} (alike : Alike like machine other)
    (known : like.node node) (same : name' = name) :
    Option.Rel (Value.Alike like) (machine.valueAt? node name) (other.valueAt? node name') := by
  subst same
  unfold Machine.valueAt? Store.getAt? Store.get?
  rw [like.known alike.distances known, alike.scope, alike.globals, alike.store.size]
  cases machine.distances.get? node with
  | none => exact alike.store.getWithin name' _ _
  | some distance =>
    dsimp only
    rw [alike.store.ancestor?]
    cases machine.store.ancestor? machine.scope distance with
    | none => exact .none
    | some target => exact alike.store.values target name'

theorem targetOf? {node : NodeId} {name name' : String} (alike : Alike like machine other)
    (known : like.node node) (same : name' = name) :
    other.targetOf? node name' = machine.targetOf? node name := by
  subst same
  unfold Machine.targetOf? Store.holder?
  rw [like.known alike.distances known, alike.scope, alike.globals, alike.store.size,
    alike.store.holderWithin, funext fun distance => alike.store.ancestor? machine.scope distance]

end Machine.Alike

/-! ### Computations -/

/-- The same fault, at tokens of which one stands for the other. -/
structure RuntimeError.Alike (like : Likeness) (error other : RuntimeError) : Prop where
  token : like.token error.token other.token
  fault : other.fault = error.fault

/-- The same way to end, with values, errors and states that correspond. -/
inductive Outcome.Alike {σ ε α : Type} (values : α → α → Prop) (errors : ε → ε → Prop)
    (states : σ → σ → Prop) : Outcome σ ε α → Outcome σ ε α → Prop
  | done {value other : α} {state later : σ} :
      values value other → states state later →
      Alike values errors states (.done value state) (.done other later)
  | failed {error other : ε} {state later : σ} :
      errors error other → states state later →
      Alike values errors states (.failed error state) (.failed other later)
  | outOfFuel : Alike values errors states .outOfFuel .outOfFuel

theorem Outcome.Alike.mono {σ ε α : Type} {values : α → α → Prop} {errors : ε → ε → Prop}
    {states weaker : σ → σ → Prop} {outcome other : Outcome σ ε α}
    (alike : Alike values errors states outcome other)
    (implies : ∀ state later, states state later → weaker state later) :
    Alike values errors weaker outcome other := by
  cases alike with
  | done value state => exact .done value (implies _ _ state)
  | failed error state => exact .failed error (implies _ _ state)
  | outOfFuel => exact .outOfFuel

/-- One computation after the other: those that come first end alike, and so do those after them, or
else what failed is alike. -/
theorem Outcome.Alike.bind {σ ε α β : Type} {values : α → α → Prop} {results : β → β → Prop}
    {errors errors' : ε → ε → Prop} {between states : σ → σ → Prop} {first second : Step σ ε α}
    {next following : α → Step σ ε β} {state other : σ}
    (alike : Alike values errors between (first state) (second other))
    (rest : ∀ value value' later later', values value value' → between later later' →
      Alike results errors' states (next value later) (following value' later'))
    (failed : ∀ error error' later later', errors error error' → between later later' →
      errors' error error' ∧ states later later') :
    Alike results errors' states ((first >>= next) state) ((second >>= following) other) := by
  rw [Step.bind_apply, Step.bind_apply]
  generalize first state = outcome at alike
  generalize second other = outcome' at alike
  cases alike with
  | done correspond alikeLater => exact rest _ _ _ _ correspond alikeLater
  | failed alikeError alikeLater =>
    obtain ⟨error, later⟩ := failed _ _ _ _ alikeError alikeLater
    exact .failed error later
  | outOfFuel => exact .outOfFuel

/-- Started in machines that are alike, the computations end alike, with values that correspond. -/
def Run.Alike (like : Likeness) {α : Type} (values : α → α → Prop) (first second : Run α) : Prop :=
  ∀ machine other, machine.Alike like other →
    Outcome.Alike values (RuntimeError.Alike like) (Machine.Alike like)
      (first machine) (second other)

namespace Run.Alike

variable {like : Likeness} {α β : Type} {values : α → α → Prop} {results : β → β → Prop}

theorem pure {value other : α} (correspond : values value other) :
    Run.Alike like values (pure value) (pure other) :=
  fun _ _ alike => .done correspond alike

theorem exhausted : Run.Alike like values Step.exhausted Step.exhausted :=
  fun _ _ _ => .outOfFuel

/-- **One computation after the other.** -/
theorem bind {first second : Run α} {next following : α → Run β}
    (alike : Run.Alike like values first second)
    (rest : ∀ value other, values value other →
      Run.Alike like results (next value) (following other)) :
    Run.Alike like results (first >>= next) (second >>= following) := by
  intro machine other alikeMachine
  exact (alike machine other alikeMachine).bind
      (fun value value' later later' correspond alikeLater =>
    rest value value' correspond later later' alikeLater) fun _ _ _ _ error later => ⟨error, later⟩

theorem raise {token token' : Token} {fault : Fault} (stands : like.token token token') :
    Run.Alike like values (Run.raise token fault) (Run.raise token' fault) :=
  fun _ _ alike => .failed ⟨stands, rfl⟩ alike

/-- Changes of the machine that keep it alike. -/
theorem update {change change' : Machine → Machine}
    (keeps : ∀ machine other, machine.Alike like other →
      (change machine).Alike like (change' other)) :
    Run.Alike like Eq (Step.update change) (Step.update change') :=
  fun machine other alike => .done rfl (keeps machine other alike)

theorem readVariable {node : NodeId} {name name' : Token} (known : like.node node)
    (stands : like.token name name') :
    Run.Alike like (Value.Alike like) (Run.readVariable node name)
      (Run.readVariable node name') := by
  intro machine other alike
  have same := like.lexeme stands
  have found := alike.valueAt? known same
  unfold Run.readVariable
  generalize machine.valueAt? node name.lexeme = first at found
  generalize other.valueAt? node name'.lexeme = second at found
  cases found with
  | some alikeValue => exact .done alikeValue alike
  | none => exact .failed ⟨stands, congrArg Fault.undefinedVariable same⟩ alike

theorem assignVariable {node : NodeId} {name name' : Token} {value another : Value}
    (known : like.node node) (stands : like.token name name')
    (alikeValue : value.Alike like another) :
    Run.Alike like Eq (Run.assignVariable node name value)
      (Run.assignVariable node name' another) := by
  intro machine other alike
  have same := like.lexeme stands
  unfold Run.assignVariable
  rw [alike.targetOf? known same]
  cases machine.targetOf? node name.lexeme with
  | none => exact .failed ⟨stands, congrArg Fault.undefinedVariable same⟩ alike
  | some target =>
    rw [same]
    exact .done rfl (alike.define target name.lexeme alikeValue)

theorem declare {name name' : Token} {value another : Value} (stands : like.token name name')
    (alikeValue : value.Alike like another) :
    Run.Alike like Eq (Run.declare name value) (Run.declare name' another) := by
  refine update fun machine other alike => ?_
  rw [like.lexeme stands, alike.scope]
  exact alike.define machine.scope name.lexeme alikeValue

theorem makeFunction {name name' : Option String} {kind : FunctionKind} {body : FunctionBody}
    {change : Token → Token} (same : name' = name)
    (covers : like.Covers change (.function kind body)) :
    Run.Alike like (Value.Alike like) (Run.makeFunction name body)
      (Run.makeFunction name' (body.relabel ⟨id, change⟩)) := by
  intro machine other alike
  unfold Run.makeFunction
  rw [same, alike.nextFunction, alike.scope]
  exact .done (.function ⟨machine.nextFunction, name, body, machine.scope⟩ change covers)
    ⟨alike.store, rfl, alike.globals, alike.distances, alike.depth, alike.output,
      alike.sink, alike.clock, alike.ticks, rfl⟩

theorem readClock : Run.Alike like Eq Run.readClock Run.readClock := by
  intro machine other alike
  unfold Run.readClock
  rw [alike.clock, alike.ticks]
  exact .done rfl
    ⟨alike.store, alike.scope, alike.globals, alike.distances, alike.depth,
      alike.output, alike.sink, rfl, rfl, alike.nextFunction⟩

theorem print {keyword keyword' : Token} {value another : Value}
    (stands : like.token keyword keyword') (alikeValue : value.Alike like another) :
    Run.Alike like Eq (Run.print keyword value) (Run.print keyword' another) := by
  intro machine other alike
  unfold Run.print
  rw [alike.sink, alike.output, alikeValue.resembles.text]
  cases machine.sink with
  | «open» =>
    exact .done rfl ⟨alike.store, alike.scope, alike.globals, alike.distances,
      alike.depth, rfl, rfl, alike.clock, alike.ticks, alike.nextFunction⟩
  | closed => exact .failed ⟨stands, rfl⟩ alike

theorem viewScope : Run.Alike like Eq (Step.view Machine.scope) (Step.view Machine.scope) :=
  fun _ _ alike => .done alike.scope.symm alike

theorem openScope (enclosing : ScopeId) :
    Run.Alike like Eq (Run.openScope enclosing) (Run.openScope enclosing) := by
  intro machine other alike
  exact .done alike.store.nextId.symm (alike.ofStore (alike.store.add (some enclosing)))

theorem defineAll {values others : List Value} (scope : ScopeId) (names : List String)
    (alikeValues : List.Forall₂ (Value.Alike like) values others) :
    Run.Alike like Eq (Run.defineAll scope (names.zip values))
      (Run.defineAll scope (names.zip others)) :=
  update fun _ _ alike => alike.ofStore (alike.store.defineAll scope names alikeValues)

theorem inScope {first second : Run α} (scope : ScopeId)
    (alike : Run.Alike like values first second) :
    Run.Alike like values (Run.inScope scope first) (Run.inScope scope second) := by
  intro machine other same
  have back : ∀ {later later' : Machine}, later.Alike like later' →
      Machine.Alike like { later with scope := machine.scope }
        { later' with scope := other.scope } :=
    fun now => ⟨now.store, same.scope, now.globals, now.distances, now.depth,
      now.output, now.sink, now.clock, now.ticks, now.nextFunction⟩
  have ran := alike { machine with scope := scope } { other with scope := scope }
    ⟨same.store, rfl, same.globals, same.distances, same.depth, same.output, same.sink, same.clock,
      same.ticks, same.nextFunction⟩
  unfold Run.inScope
  generalize first _ = outcome at ran
  generalize second _ = outcome' at ran
  cases ran with
  | done correspond now => exact .done correspond (back now)
  | failed alikeError now => exact .failed alikeError (back now)
  | outOfFuel => exact .outOfFuel

theorem inCall {first second : Run α} (alike : Run.Alike like values first second) :
    Run.Alike like values (Run.inCall first) (Run.inCall second) := by
  intro machine other same
  have counted : ∀ {later later' : Machine} (count : Nat → Nat), later.Alike like later' →
      Machine.Alike like { later with depth := count later.depth }
        { later' with depth := count later'.depth } :=
    fun count now => ⟨now.store, now.scope, now.globals, now.distances,
      congrArg count now.depth, now.output, now.sink, now.clock, now.ticks, now.nextFunction⟩
  have ran := alike _ _ (counted (· + 1) same)
  unfold Run.inCall
  generalize first _ = outcome at ran
  generalize second _ = outcome' at ran
  cases ran with
  | done correspond now => exact .done correspond (counted (· - 1) now)
  | failed alikeError now => exact .failed alikeError (counted (· - 1) now)
  | outOfFuel => exact .outOfFuel

theorem checkCall {closing closing' : Token} (arity arguments : Nat)
    (stands : like.token closing closing') :
    Run.Alike like Eq (Run.checkCall closing arity arguments)
      (Run.checkCall closing' arity arguments) := by
  intro machine other alike
  unfold Run.checkCall
  rw [alike.depth]
  by_cases wrong : arguments ≠ arity
  · rw [if_pos wrong, if_pos wrong]
    exact .failed ⟨stands, rfl⟩ alike
  · rw [if_neg wrong, if_neg wrong]
    by_cases full : maxDepth ≤ machine.depth
    · rw [if_pos full, if_pos full]
      exact .failed ⟨stands, rfl⟩ alike
    · rw [if_neg full, if_neg full]
      exact .done rfl alike

end Run.Alike

/-! ### Evaluation -/

/-- The same way for a statement to end. -/
inductive Flow.Alike (like : Likeness) : Flow → Flow → Prop
  | normal : Alike like .normal .normal
  | returned {value other : Value} : value.Alike like other →
      Alike like (.returned value) (.returned other)

theorem Flow.Alike.value {like : Likeness} {flow other : Flow} (alike : flow.Alike like other) :
    flow.value.Alike like other.value := by
  cases alike with
  | normal => exact .plain _ fun _ => Value.noConfusion
  | returned alikeValue => exact alikeValue

/-- What two runs are compared by that have this in common. The scopes of both are the
same wherever code stands. -/
def Likeness.comparison (like : Likeness) : Comparison Unit Unit where
  grows _ _ := True
  opens _ _ := True
  token := like.token
  accesses _ node node' name name' := like.node node ∧ node' = node ∧ like.token name name'
  declares _ := like.token
  code _ part part' := ∃ change, like.Covers change part ∧ part' = part.relabel ⟨id, change⟩
  value _ := Value.Alike like
  flow _ := Flow.Alike like
  related _ _ values first second := Run.Alike like (values ()) first second

section

variable {like : Likeness}

/-- What is covered is so layer by layer. -/
theorem Likeness.Covers.compared {change : Token → Token} {part : Part}
    (covers : like.Covers change part) :
    like.comparison.Layer () part (part.relabel ⟨id, change⟩) := by
  obtain ⟨tokens, nodes⟩ := covers
  have again {inner : Part} (tokens : ∀ token ∈ inner.tokens, like.token token (change token))
      (nodes : ∀ node ∈ inner.nodes, like.node node) :
      like.comparison.code () inner (inner.relabel ⟨id, change⟩) := ⟨change, ⟨tokens, nodes⟩, rfl⟩
  cases part with
  | expression value =>
    cases value with
    | literal => exact .literal
    | grouping => exact .grouping (again tokens nodes)
    | unary =>
      simp only [Part.tokens, Expr.tokens, List.forall_mem_cons] at tokens
      exact .unary tokens.1 (again tokens.2 nodes)
    | binary =>
      simp only [Part.tokens, Expr.tokens, Part.nodes, Expr.nodes, List.forall_mem_append,
        List.forall_mem_cons] at tokens nodes
      exact .binary tokens.2.1 (again tokens.1 nodes.1) (again tokens.2.2 nodes.2)
    | logical =>
      simp only [Part.tokens, Expr.tokens, Part.nodes, Expr.nodes, List.forall_mem_append,
        List.forall_mem_cons] at tokens nodes
      exact .logical tokens.2.1 (again tokens.1 nodes.1) (again tokens.2.2 nodes.2)
    | ternary =>
      simp only [Part.tokens, Expr.tokens, Part.nodes, Expr.nodes, List.forall_mem_append,
        List.forall_mem_cons] at tokens nodes
      exact .ternary (again tokens.1 nodes.1.1) (again tokens.2.2.1 nodes.1.2)
        (again tokens.2.2.2 nodes.2)
    | «variable» node name =>
      exact .variable ⟨nodes node List.mem_cons_self, rfl, tokens name List.mem_cons_self⟩
    | assign =>
      simp only [Part.tokens, Expr.tokens, Part.nodes, Expr.nodes, List.forall_mem_append,
        List.forall_mem_cons] at tokens nodes
      exact .assign ⟨nodes.2.1, rfl, tokens.1⟩ (again tokens.2 nodes.1)
    | call =>
      simp only [Part.tokens, Expr.tokens, Part.nodes, Expr.nodes, List.forall_mem_append,
        List.forall_mem_singleton] at tokens nodes
      exact .call tokens.2 (again tokens.1.1 nodes.1) (again tokens.1.2 nodes.2)
    | lambda => exact .lambda (again
        (fun token isToken => tokens token (List.mem_cons_of_mem _ isToken)) nodes)
  | arguments values =>
    cases values with
    | nil => exact .noArguments
    | cons =>
      simp only [Part.tokens, tokensOfArguments, Part.nodes, nodesOfArguments,
        List.forall_mem_append] at tokens nodes
      exact .arguments (again tokens.1 nodes.1) (again tokens.2 nodes.2)
  | statement form =>
    cases form with
    | expression => exact .expressionStatement (again tokens nodes)
    | print =>
      simp only [Part.tokens, Stmt.tokens, List.forall_mem_cons] at tokens
      exact .print tokens.1 (again tokens.2 nodes)
    | var name initializer =>
      cases initializer with
      | none => exact .var (tokens name List.mem_cons_self) .none
      | some =>
        simp only [Part.tokens, Stmt.tokens, List.forall_mem_cons] at tokens
        exact .var tokens.1 (.some (again tokens.2 nodes))
    | block => exact .block trivial (again tokens nodes)
    | «if» _ _ no =>
      cases no with
      | none =>
        simp only [Part.tokens, Stmt.tokens, Part.nodes, Stmt.nodes, List.forall_mem_append]
          at tokens nodes
        exact .if (again tokens.1 nodes.1) (again tokens.2 nodes.2) .none
      | some =>
        simp only [Part.tokens, Stmt.tokens, Part.nodes, Stmt.nodes, List.forall_mem_append]
          at tokens nodes
        exact .if (again tokens.1.1 nodes.1.1) (again tokens.1.2 nodes.1.2)
          (.some (again tokens.2 nodes.2))
    | «while» =>
      simp only [Part.tokens, Stmt.tokens, Part.nodes, Stmt.nodes, List.forall_mem_append]
        at tokens nodes
      exact .while (again tokens.1 nodes.1) (again tokens.2 nodes.2)
    | function =>
      simp only [Part.tokens, Stmt.tokens, List.forall_mem_cons] at tokens
      exact .function tokens.1 (like.lexeme tokens.1) (again tokens.2 nodes)
    | «return» _ value =>
      cases value with
      | none => exact .return .none
      | some => exact .return (.some
          (again (fun token isToken => tokens token (List.mem_cons_of_mem _ isToken)) nodes))
  | statements forms =>
    cases forms with
    | nil => exact .noStatements
    | cons =>
      simp only [Part.tokens, tokensOfStatements, Part.nodes, nodesOfStatements,
        List.forall_mem_append] at tokens nodes
      exact .statements (again tokens.1 nodes.1) (again tokens.2 nodes.2)
  | function => exact .body
  | target => exact .target

/-- A function is entered in the scope it was made in, with the same names for its parameters. -/
theorem Value.Alike.enter {closure : Closure} {other : Value}
    (alike : Value.Alike like (.function closure) other) :
    ∃ closure', other = .function closure' ∧ closure'.body.arity = closure.body.arity ∧
      like.comparison.code () (.statements closure.body.statements)
        (.statements closure'.body.statements) ∧
      ∀ {arguments arguments' : List Value} {first second : Run Flow},
        List.Forall₂ (Value.Alike like) arguments arguments' →
        Run.Alike like (Flow.Alike like) first second →
        Run.Alike like (Value.Alike like) (closure.enter arguments first)
          (closure'.enter arguments' second) := by
  cases alike with
  | plain _ notFunction => exact absurd rfl (notFunction closure)
  | function _ change covers =>
    obtain ⟨identity, name, ⟨parameters, forms⟩, scope⟩ := closure
    have coversForms : like.Covers change (.statements forms) :=
      ⟨fun token isToken => covers.tokens token (List.mem_append_right _ isToken), covers.nodes⟩
    have lexemes : (parameters.map change).map Token.lexeme = parameters.map Token.lexeme :=
      covers.lexemes
    refine ⟨_, rfl, List.length_map _, ⟨change, coversForms, rfl⟩, fun alikeArguments both => ?_⟩
    unfold Closure.enter FunctionBody.relabel
    dsimp only
    rw [lexemes]
    refine .bind (.openScope scope) ?_
    rintro own _ rfl
    refine .bind (.defineAll own _ alikeArguments) fun _ _ _ => ?_
    exact .bind (.inScope own both) fun flow flow' alikeFlow => .pure alikeFlow.value

/-- Runs that have this in common are in lockstep. -/
theorem Likeness.lockstep (like : Likeness) : like.comparison.Lockstep where
  trans _ _ := trivial
  kind := like.kind
  layer := by
    rintro _ part _ ⟨change, covers, rfl⟩
    exact covers.compared
  mono alike _ := alike
  resembles := Value.Alike.resembles
  plain := .plain
  normal := .normal
  returned := .returned
  flow_cases alike := by
    cases alike with
    | normal => exact .inl ⟨rfl, rfl⟩
    | returned alikeValue => exact .inr ⟨_, _, rfl, rfl, alikeValue⟩
  exhausted := .exhausted
  pure correspond := .pure (correspond () trivial)
  bind alike rest := .bind alike fun value other => rest () value other trivial
  inNewScope := by
    rintro _ _ _ α values first second - both
    refine .bind .viewScope ?_
    rintro current _ rfl
    refine .bind (.openScope current) ?_
    rintro scope _ rfl
    exact .inScope scope (both () trivial)
  inCall := .inCall
  raise := .raise
  readVariable := by
    rintro _ _ node _ name name' ⟨known, rfl, stands⟩
    exact .readVariable known stands
  assignVariable := by
    rintro _ _ node _ name name' value other ⟨known, rfl, stands⟩ alike
    exact .assignVariable known stands alike
  declare := .declare
  makeFunction := by
    rintro _ _ name _ body _ ⟨change, covers, same⟩
    cases same
    exact .makeFunction rfl covers
  readClock := .readClock
  print := .print
  checkCall := .checkCall _ _
  function alike := by
    obtain ⟨closure', same, arity, code, enter⟩ := alike.enter
    exact ⟨closure', (), same, arity, code,
      fun _ alikeArguments both => enter alikeArguments (both () trivial)⟩

end

/-- There is nothing more to be known of the runs, so that whatever is related is alike. -/
theorem Run.Alike.of_related {like : Likeness} {α : Type} {values : α → α → Prop}
    {first second : Run α}
    (related : like.comparison.related () () (fun _ => values) first second) :
    Run.Alike like values first second :=
  related

/-- **Programs that are alike do the same.** -/
theorem interpretsAlike (like : Likeness) (fuel : Nat) {change : Token → Token} {forms : List Stmt}
    (covers : like.Covers change (.statements forms)) :
    Run.Alike like Eq (interpret fuel forms)
      (interpret fuel (relabelStatements ⟨id, change⟩ forms)) :=
  .of_related (like.lockstep.interpret fuel ⟨_, covers, rfl⟩)

end Lox
