/-
**Machines that accord, though names of local variables and identities of nodes differ.**

* `Naming`, `World` — how each scope of one run names its variables in the other run. The scopes of
  both runs have the same identities and enclose one another in the same way.
* `World.Around` — the namings of the scopes from one scope outward; the
  outermost scope keeps its names.
* `Manner`, `Manner.Layer` — which tokens, errors and trees of one run may stand for which of the
  other, and what this has to say about the outermost layer of two trees. A name that is used has to
  be named as its scope names it.
* `Accord` — a manner in which trees that stand for one another do so layer by layer.
* `Value.Accords`, `Store.Accords`, `Machine.Accords` — the same, but for the code of functions and
  the names in scopes. Reading, assigning and declaring variables keeps this so (`valueAt?`,
  `targetOf?`, `define`).
-/

import Lox.Proofs.Evaluation.Stores
import Lox.Proofs.Evaluation.Values
import Lox.Proofs.Scoping.Site
import Mathlib.Algebra.Group.End
import Mathlib.Data.List.Forall2

namespace Lox

/-! ### Names of scopes -/

/-- A renaming: every name has another one, and no two names have the same. -/
abbrev Naming : Type :=
  Equiv.Perm String

/-- What both runs know about a scope: the scope around it, and how its names differ. -/
structure KnownScope where
  enclosing : Option ScopeId
  naming : Naming

/-- All scopes of both runs. -/
abbrev World : Type :=
  List KnownScope

/-- The naming of the scope that a distance leads to; without a distance it is the scope of
the global variables, which keeps its names, and so does whatever is further outward than
the scopes of the stack. -/
def namingAt (stack : List Naming) : (distance : Option Nat) → Naming
  | some distance => stack.getD distance 1
  | none => 1

namespace World

variable {world later : World} {scope : ScopeId} {entry : KnownScope} {stack : List Naming}

/-- What is known about a scope. -/
def scope? (world : World) (scope : ScopeId) : Option KnownScope :=
  world[scope.index]?

/-- The scope around a scope. -/
def enclosing? (world : World) (scope : ScopeId) : Option ScopeId :=
  (world.scope? scope).bind KnownScope.enclosing

theorem scope?_mono (extension : world <+: later) (known : world.scope? scope = some entry) :
    later.scope? scope = some entry := by
  obtain ⟨more, rfl⟩ := extension
  obtain ⟨inside, -⟩ := List.getElem?_eq_some_iff.mp known
  exact (List.getElem?_append_left inside).trans known

theorem scope?_append (world : World) (entry : KnownScope) (scope : ScopeId) :
    scope? (world ++ [entry]) scope =
      if scope = ⟨world.length⟩ then some entry else world.scope? scope := by
  obtain ⟨index⟩ := scope
  unfold scope?
  by_cases isNew : index = world.length
  · subst isNew
    rw [if_pos rfl]
    exact List.getElem?_concat_length
  · rw [if_neg fun same => isNew (congrArg ScopeId.index same), List.getElem?_append]
    split
    · rfl
    · rename_i outside
      have beyond : world.length < index :=
        Nat.lt_of_le_of_ne (Nat.le_of_not_lt outside) (Ne.symm isNew)
      rw [List.getElem?_eq_none (by rw [List.length_singleton]; exact Nat.sub_pos_of_lt beyond),
        List.getElem?_eq_none (Nat.le_of_lt beyond)]

/-- These are the namings of the scopes from a scope outward. The outermost one keeps its names. -/
inductive Around (world : World) : ScopeId → List Naming → Prop
  | outermost {scope : ScopeId} : world.scope? scope = some ⟨none, 1⟩ → Around world scope []
  | inner {scope outer : ScopeId} {naming : Naming} {stack : List Naming} :
      world.scope? scope = some ⟨some outer, naming⟩ → Around world outer stack →
      Around world scope (naming :: stack)

theorem Around.mono (around : world.Around scope stack) (extension : world <+: later) :
    later.Around scope stack := by
  induction around with
  | outermost known => exact .outermost (scope?_mono extension known)
  | inner known _ ih => exact .inner (scope?_mono extension known) ih

/-- The innermost scope is there, and names as the stack says. -/
theorem Around.here (around : world.Around scope stack) :
    ∃ entry, world.scope? scope = some entry ∧ entry.naming = namingAt stack (some 0) := by
  cases around with
  | outermost known => exact ⟨_, known, rfl⟩
  | inner known => exact ⟨_, known, rfl⟩

end World

/-! ### Code -/

/-- What two runs may differ in. -/
structure Manner where
  /-- The second token stands for the first. -/
  token : Token → Token → Prop
  /-- The second error stands for the first. -/
  error : RuntimeError → RuntimeError → Prop
  /-- The distances that the first run knows. -/
  distances : Distances
  /-- The distances that the second run knows. -/
  distances' : Distances
  /-- The second part does what the first does, in scopes that are named like this. -/
  code : List Naming → Part → Part → Prop

namespace Manner

/-- Two places where one and the same variable is read or assigned, though under different names. -/
structure SameVariable (manner : Manner) (stack : List Naming) (node node' : NodeId)
    (name name' : Token) :
    Prop where
  distance : manner.distances'.get? node' = manner.distances.get? node
  lexeme : name'.lexeme = namingAt stack (manner.distances.get? node) name.lexeme
  undefined : manner.error ⟨name, .undefinedVariable name.lexeme⟩
    ⟨name', .undefinedVariable name'.lexeme⟩

/-- The two parts have the same form, and what they consist of does the same. A block and the body
of a function have a scope of their own, which names in some way. -/
inductive Layer (manner : Manner) (stack : List Naming) : Part → Part → Prop
  | literal {value : Literal} :
      Layer manner stack (.expression (.literal value)) (.expression (.literal value))
  | grouping {inner inner' : Expr} :
      manner.code stack (.expression inner) (.expression inner') →
      Layer manner stack (.expression (.grouping inner)) (.expression (.grouping inner'))
  | unary {operator operator' : Token} {right right' : Expr} :
      manner.token operator operator' →
      manner.code stack (.expression right) (.expression right') →
      Layer manner stack (.expression (.unary operator right))
        (.expression (.unary operator' right'))
  | binary {operator operator' : Token} {left left' right right' : Expr} :
      manner.token operator operator' →
      manner.code stack (.expression left) (.expression left') →
      manner.code stack (.expression right) (.expression right') →
      Layer manner stack (.expression (.binary left operator right))
        (.expression (.binary left' operator' right'))
  | logical {operator operator' : Token} {left left' right right' : Expr} :
      manner.token operator operator' →
      manner.code stack (.expression left) (.expression left') →
      manner.code stack (.expression right) (.expression right') →
      Layer manner stack (.expression (.logical left operator right))
        (.expression (.logical left' operator' right'))
  | ternary {question question' : Token} {condition condition' yes yes' no no' : Expr} :
      manner.code stack (.expression condition) (.expression condition') →
      manner.code stack (.expression yes) (.expression yes') →
      manner.code stack (.expression no) (.expression no') →
      Layer manner stack (.expression (.ternary condition question yes no))
        (.expression (.ternary condition' question' yes' no'))
  | variable {node node' : NodeId} {name name' : Token} :
      manner.SameVariable stack node node' name name' →
      Layer manner stack (.expression (.variable node name)) (.expression (.variable node' name'))
  | assign {node node' : NodeId} {name name' : Token} {value value' : Expr} :
      manner.SameVariable stack node node' name name' →
      manner.code stack (.expression value) (.expression value') →
      Layer manner stack (.expression (.assign node name value))
        (.expression (.assign node' name' value'))
  | call {callee callee' : Expr} {arguments arguments' : List Expr} {closing closing' : Token} :
      manner.token closing closing' →
      manner.code stack (.expression callee) (.expression callee') →
      manner.code stack (.arguments arguments) (.arguments arguments') →
      Layer manner stack (.expression (.call callee arguments closing))
        (.expression (.call callee' arguments' closing'))
  | lambda {keyword keyword' : Token} {body body' : FunctionBody} :
      manner.code stack (.function .lambda body) (.function .lambda body') →
      Layer manner stack (.expression (.lambda keyword body)) (.expression (.lambda keyword' body'))
  | noArguments : Layer manner stack (.arguments []) (.arguments [])
  | arguments {first first' : Expr} {rest rest' : List Expr} :
      manner.code stack (.expression first) (.expression first') →
      manner.code stack (.arguments rest) (.arguments rest') →
      Layer manner stack (.arguments (first :: rest)) (.arguments (first' :: rest'))
  | expressionStatement {value value' : Expr} :
      manner.code stack (.expression value) (.expression value') →
      Layer manner stack (.statement (.expression value)) (.statement (.expression value'))
  | print {keyword keyword' : Token} {value value' : Expr} :
      manner.token keyword keyword' →
      manner.code stack (.expression value) (.expression value') →
      Layer manner stack (.statement (.print keyword value)) (.statement (.print keyword' value'))
  | var {name name' : Token} {initializer initializer' : Option Expr} :
      name'.lexeme = namingAt stack (some 0) name.lexeme →
      Option.Rel (fun value value' => manner.code stack (.expression value) (.expression value'))
        initializer initializer' →
      Layer manner stack (.statement (.var name initializer)) (.statement (.var name' initializer'))
  | block {naming : Naming} {forms forms' : List Stmt} :
      manner.code (naming :: stack) (.statements forms) (.statements forms') →
      Layer manner stack (.statement (.block forms)) (.statement (.block forms'))
  | if {condition condition' : Expr} {yes yes' : Stmt} {no no' : Option Stmt} :
      manner.code stack (.expression condition) (.expression condition') →
      manner.code stack (.statement yes) (.statement yes') →
      Option.Rel (fun form form' => manner.code stack (.statement form) (.statement form')) no no' →
      Layer manner stack (.statement (.if condition yes no)) (.statement (.if condition' yes' no'))
  | while {condition condition' : Expr} {body body' : Stmt} :
      manner.code stack (.expression condition) (.expression condition') →
      manner.code stack (.statement body) (.statement body') →
      Layer manner stack (.statement (.while condition body)) (.statement (.while condition' body'))
  | function {name name' : Token} {body body' : FunctionBody} :
      name'.lexeme = namingAt stack (some 0) name.lexeme → name'.lexeme = name.lexeme →
      manner.code stack (.function .function body) (.function .function body') →
      Layer manner stack (.statement (.function name body)) (.statement (.function name' body'))
  | return {keyword keyword' : Token} {value value' : Option Expr} :
      Option.Rel (fun value value' => manner.code stack (.expression value) (.expression value'))
        value value' →
      Layer manner stack (.statement (.return keyword value)) (.statement (.return keyword' value'))
  | noStatements : Layer manner stack (.statements []) (.statements [])
  | statements {first first' : Stmt} {rest rest' : List Stmt} :
      manner.code stack (.statement first) (.statement first') →
      manner.code stack (.statements rest) (.statements rest') →
      Layer manner stack (.statements (first :: rest)) (.statements (first' :: rest'))
  | body {naming : Naming} {kind : FunctionKind} {parameters parameters' : List Token}
      {forms forms' : List Stmt} :
      parameters'.map Token.lexeme = (parameters.map Token.lexeme).map naming →
      manner.code (naming :: stack) (.statements forms) (.statements forms') →
      Layer manner stack (.function kind ⟨parameters, forms⟩) (.function kind ⟨parameters', forms'⟩)

/-- What stands for one another in one manner does so in another that allows as much. -/
theorem Layer.imp {manner other : Manner} {stack : List Naming} {part part' : Part}
    (layer : manner.Layer stack part part')
    (token : ∀ {first second}, manner.token first second → other.token first second)
    (error : ∀ {first second}, manner.error first second → other.error first second)
    (distances : other.distances = manner.distances)
    (distances' : other.distances' = manner.distances')
    (code : ∀ {stack part part'}, manner.code stack part part' → other.code stack part part') :
    other.Layer stack part part' := by
  have places {node node' : NodeId} {name name' : Token}
      (same : manner.SameVariable stack node node' name name') :
      other.SameVariable stack node node' name name' :=
    ⟨by rw [distances, distances', same.distance], by rw [distances,
      same.lexeme], error same.undefined⟩
  have optional {value value' : Option Expr}
      (both : Option.Rel (fun value value' => manner.code stack (.expression value)
        (.expression value')) value value') :
      Option.Rel (fun value value' => other.code stack (.expression value) (.expression value'))
        value value' := by
    cases both with
    | some value => exact .some (code value)
    | none => exact .none
  cases layer with
  | literal => exact .literal
  | grouping inner => exact .grouping (code inner)
  | unary operator right => exact .unary (token operator) (code right)
  | binary operator left right => exact .binary (token operator) (code left) (code right)
  | logical operator left right => exact .logical (token operator) (code left) (code right)
  | ternary condition yes no => exact .ternary (code condition) (code yes) (code no)
  | «variable» same => exact .variable (places same)
  | assign same value => exact .assign (places same) (code value)
  | call closing callee arguments => exact .call (token closing) (code callee) (code arguments)
  | lambda body => exact .lambda (code body)
  | noArguments => exact .noArguments
  | arguments first rest => exact .arguments (code first) (code rest)
  | expressionStatement value => exact .expressionStatement (code value)
  | print keyword value => exact .print (token keyword) (code value)
  | var name initializer => exact .var name (optional initializer)
  | block forms => exact .block (code forms)
  | «if» condition yes no =>
    refine .if (code condition) (code yes) ?_
    cases no with
    | some no => exact .some (code no)
    | none => exact .none
  | «while» condition body => exact .while (code condition) (code body)
  | function name same body => exact .function name same (code body)
  | «return» value => exact .return (optional value)
  | noStatements => exact .noStatements
  | statements first rest => exact .statements (code first) (code rest)
  | body parameters forms => exact .body parameters (code forms)

end Manner

/-- A manner in which parts that stand for one another do so layer by layer. -/
structure Accord extends Manner where
  layer : ∀ {stack : List Naming} {part part' : Part}, code stack part part' →
    toManner.Layer stack part part'
  kind : ∀ {first second : Token}, token first second → second.kind = first.kind
  raise : ∀ {first second : Token} {fault : Fault}, token first second →
    error ⟨first, fault⟩ ⟨second, fault⟩

/-! ### Values -/

/-- The same values, but for functions, which are made in the same scope and have
bodies that do the same there. -/
inductive Value.Accords (accord : Accord) (world : World) : Value → Value → Prop
  | function {identity : Nat} {name : Option String} {kind : FunctionKind}
      {body body' : FunctionBody} {scope : ScopeId} {stack : List Naming} :
      world.Around scope stack → accord.code stack (.function kind body) (.function kind body') →
      Accords accord world (.function ⟨identity, name, body, scope⟩)
        (.function ⟨identity, name, body', scope⟩)
  | plain (value : Value) : (∀ closure, value ≠ .function closure) →
      Accords accord world value value

namespace Value.Accords

variable {accord : Accord} {world later : World} {value other : Value}

theorem mono (accords : Accords accord world value other) (extension : world <+: later) :
    Accords accord later value other := by
  cases accords with
  | function around code => exact .function (around.mono extension) code
  | plain value notFunction => exact .plain value notFunction

/-- Values that accord in one manner do so in another that allows as much. -/
theorem imp {another : Accord} (accords : Accords accord world value other)
    (code : ∀ {stack part part'}, accord.code stack part part' → another.code stack part part') :
    Accords another world value other := by
  cases accords with
  | function around same => exact .function around (code same)
  | plain value notFunction => exact .plain value notFunction

theorem resembles (accords : Accords accord world value other) : value.Resembles other := by
  cases accords with
  | function => exact .function rfl rfl
  | plain => exact .plain _

end Value.Accords

/-! ### Stores -/

/-- The scopes that are known in both stores, with values that accord under the names of each
scope. -/
structure Store.Accords (accord : Accord) (world : World) (store other : Store) : Prop where
  size : store.size = world.length
  size' : other.size = world.length
  enclosing : ∀ scope, store.enclosing? scope = world.enclosing? scope
  enclosing' : ∀ scope, other.enclosing? scope = world.enclosing? scope
  values : ∀ scope entry, world.scope? scope = some entry → ∀ name,
    Option.Rel (Value.Accords accord world) (store.local? scope name)
      (other.local? scope (entry.naming name))

namespace Store

theorem size_add (store : Store) (enclosing : Option ScopeId) :
    (store.add enclosing).size = store.size + 1 :=
  Array.size_push _

theorem size_define (store : Store) (target : ScopeId) (name : String) (value : Value) :
    (store.define target name value).size = store.size :=
  Array.size_modify

end Store

namespace Store.Accords

variable {accord : Accord} {world : World} {store other : Store}

theorem nextId (accords : Accords accord world store other) : store.nextId = ⟨world.length⟩ :=
  congrArg ScopeId.mk accords.size

theorem nextId' (accords : Accords accord world store other) : other.nextId = ⟨world.length⟩ :=
  congrArg ScopeId.mk accords.size'

/-- A scope whose entry is known is there. -/
theorem isSome_scope? (accords : Accords accord world store other) {scope : ScopeId}
    {entry : KnownScope} (known : world.scope? scope = some entry) :
    (store.scope? scope).isSome = true ∧ (other.scope? scope).isSome = true := by
  obtain ⟨inside, -⟩ := List.getElem?_eq_some_iff.mp known
  rw [isSome_scope?_iff, isSome_scope?_iff, accords.size, accords.size']
  exact ⟨inside, inside⟩

/-- Stores that accord in one manner do so in another that allows as much. -/
theorem imp {another : Accord} (accords : Accords accord world store other)
    (code : ∀ {stack part part'}, accord.code stack part part' → another.code stack part part') :
    Accords another world store other where
  size := accords.size
  size' := accords.size'
  enclosing := accords.enclosing
  enclosing' := accords.enclosing'
  values scope entry known name := by
    have before := accords.values scope entry known name
    generalize store.local? scope name = first at before ⊢
    generalize other.local? scope _ = second at before ⊢
    cases before with
    | some alike => exact .some (alike.imp code)
    | none => exact .none

/-- Stores without scopes accord. -/
theorem empty (accord : Accord) : Accords accord [] .empty .empty :=
  ⟨rfl, rfl, fun _ => rfl, fun _ => rfl, fun _ _ => nofun⟩

/-- A scope is opened in both stores, with whatever naming. -/
theorem add (accords : Accords accord world store other) (enclosing : Option ScopeId)
    (naming : Naming) :
    Accords accord (world ++ [⟨enclosing, naming⟩]) (store.add enclosing)
      (other.add enclosing) := by
  have worldEnclosing (scope : ScopeId) : World.enclosing? (world ++ [⟨enclosing, naming⟩]) scope =
      if scope = ⟨world.length⟩ then enclosing else world.enclosing? scope := by
    unfold World.enclosing?
    rw [World.scope?_append]
    split <;> rfl
  refine ⟨?_, ?_, fun scope => ?_, fun scope => ?_, fun scope entry known name => ?_⟩
  · rw [size_add, accords.size, List.length_append]
    rfl
  · rw [size_add, accords.size', List.length_append]
    rfl
  · rw [enclosing?_add, accords.nextId, accords.enclosing, worldEnclosing]
  · rw [enclosing?_add, accords.nextId', accords.enclosing', worldEnclosing]
  · rw [local?_add, local?_add, accords.nextId, accords.nextId']
    rw [World.scope?_append] at known
    by_cases isNew : scope = ⟨world.length⟩
    · rw [if_pos isNew, if_pos isNew]
      exact .none
    · rw [if_neg isNew] at known
      rw [if_neg isNew, if_neg isNew]
      have before := accords.values scope entry known name
      generalize store.local? scope name = first at before
      generalize other.local? scope _ = second at before
      cases before with
      | some alike => exact .some (alike.mono (List.prefix_append _ _))
      | none => exact .none

/-- A name is bound in a scope of both stores, each under the name that it has there. -/
theorem define {value another : Value} {target : ScopeId} {entry : KnownScope}
    (accords : Accords accord world store other) (known : world.scope? target = some entry)
    (name : String) (alike : Value.Accords accord world value another) :
    Accords accord world (store.define target name value)
      (other.define target (entry.naming name) another) := by
  refine ⟨?_, ?_, fun scope => ?_, fun scope => ?_, fun scope entry' known' asked => ?_⟩
  · rw [size_define, accords.size]
  · rw [size_define, accords.size']
  · rw [enclosing?_define, accords.enclosing]
  · rw [enclosing?_define, accords.enclosing']
  · obtain ⟨isThere, isThere'⟩ := accords.isSome_scope? known'
    rw [local?_define, local?_define]
    by_cases isHere : scope = target ∧ asked = name
    · obtain ⟨rfl, rfl⟩ := isHere
      obtain rfl := Option.some_inj.mp (known'.symm.trans known)
      rw [if_pos ⟨rfl, rfl, isThere⟩, if_pos ⟨rfl, rfl, isThere'⟩]
      exact .some alike
    · have isNotHere : ¬(scope = target ∧ entry'.naming asked = entry.naming name) := by
        rintro ⟨rfl, same⟩
        obtain rfl := Option.some_inj.mp (known'.symm.trans known)
        exact isHere ⟨rfl, entry'.naming.injective same⟩
      rw [if_neg fun here => isHere ⟨here.1, here.2.1⟩,
        if_neg fun here => isNotHere ⟨here.1, here.2.1⟩]
      exact accords.values scope entry' known' asked

theorem defineAll {values others : List Value} {target : ScopeId} {entry : KnownScope}
    (accords : Accords accord world store other) (known : world.scope? target = some entry)
    (names : List String) (alike : List.Forall₂ (Value.Accords accord world) values others) :
    Accords accord world (store.defineAll target (names.zip values))
      (other.defineAll target ((names.map entry.naming).zip others)) := by
  unfold Store.defineAll
  induction alike generalizing store other names with
  | nil =>
    rw [List.zip_nil_right, List.zip_nil_right]
    exact accords
  | cons alikeFirst _ ih =>
    cases names with
    | nil => exact accords
    | cons name names => exact ih (accords.define known name alikeFirst) names

/-- The same scope is as far outward. -/
theorem ancestor? (accords : Accords accord world store other) (scope : ScopeId) (distance : Nat) :
    other.ancestor? scope distance = store.ancestor? scope distance := by
  induction distance generalizing scope with
  | zero => rfl
  | succ distance ih =>
    unfold Store.ancestor?
    rw [accords.enclosing, accords.enclosing', funext ih]

/-- The scope that is so far outward names as the stack says. -/
theorem scope_of_ancestor? {scope target : ScopeId} {stack : List Naming} {distance : Nat}
    (accords : Accords accord world store other) (around : world.Around scope stack)
    (ancestor : store.ancestor? scope distance = some target) :
    ∃ entry, world.scope? target = some entry ∧ entry.naming = namingAt stack (some distance) := by
  induction around generalizing distance with
  | @outermost scope known =>
    cases distance with
    | zero =>
      obtain rfl := Option.some_inj.mp ancestor
      exact ⟨_, known, rfl⟩
    | succ distance =>
      rw [Store.ancestor?, accords.enclosing, World.enclosing?, known] at ancestor
      cases ancestor
  | @inner scope outer naming stack known _ ih =>
    cases distance with
    | zero =>
      obtain rfl := Option.some_inj.mp ancestor
      exact ⟨_, known, rfl⟩
    | succ distance =>
      rw [Store.ancestor?, accords.enclosing, World.enclosing?, known] at ancestor
      exact ih ancestor

section

variable {scope : ScopeId}

/-- The outermost scope is the only one where a name can be found from there. -/
theorem getWithin_outermost (outermost : store.enclosing? scope = none) (name : String)
    (steps : Nat) :
    store.getWithin name (steps + 1) scope = store.local? scope name := by
  unfold Store.getWithin
  cases store.local? scope name with
  | some => rfl
  | none =>
    rw [outermost]
    rfl

theorem holderWithin_outermost (outermost : store.enclosing? scope = none) (name : String)
    (steps : Nat) :
    store.holderWithin name (steps + 1) scope =
      if (store.local? scope name).isSome then some scope else none := by
  unfold Store.holderWithin
  rw [outermost]
  rfl

/-- Walking outward from the outermost scope finds the same in both stores. -/
theorem outermost (accords : Accords accord world store other)
    (known : world.scope? scope = some ⟨none, 1⟩) (name : String) :
    Option.Rel (Value.Accords accord world) (store.get? scope name) (other.get? scope name) ∧
      other.holder? scope name = store.holder? scope name ∧
      ∀ target, store.holder? scope name = some target → target = scope := by
  obtain ⟨inside, -⟩ := List.getElem?_eq_some_iff.mp known
  obtain ⟨steps, length⟩ : ∃ steps, world.length = steps + 1 := ⟨world.length - 1, by omega⟩
  have alone : world.enclosing? scope = none := by
    rw [World.enclosing?, known]
    rfl
  have found : Option.Rel (Value.Accords accord world) (store.local? scope name)
      (other.local? scope name) :=
    accords.values scope _ known name
  unfold Store.get? Store.holder?
  rw [accords.size, accords.size', length,
    getWithin_outermost ((accords.enclosing scope).trans alone),
    getWithin_outermost ((accords.enclosing' scope).trans alone),
    holderWithin_outermost ((accords.enclosing scope).trans alone),
    holderWithin_outermost ((accords.enclosing' scope).trans alone)]
  generalize store.local? scope name = first at found ⊢
  generalize other.local? scope name = second at found ⊢
  cases found with
  | some alike => exact ⟨.some alike, rfl,
      fun target isTarget => (Option.some_inj.mp isTarget).symm⟩
  | none => exact ⟨.none, rfl, nofun⟩

end

end Store.Accords

/-! ### Machines -/

/-- The same machines, but for the names and the values in their scopes and for the distances they
know. The current scope is one whose surroundings name like the stack. -/
structure Machine.Accords (accord : Accord) (world : World) (stack : List Naming)
    (machine other : Machine) :
    Prop where
  store : machine.store.Accords accord world other.store
  scope : other.scope = machine.scope
  around : world.Around machine.scope stack
  globals : other.globals = machine.globals
  outermost : world.scope? machine.globals = some ⟨none, 1⟩
  distances : machine.distances = accord.distances
  distances' : other.distances = accord.distances'
  depth : other.depth = machine.depth
  output : other.output = machine.output
  sink : other.sink = machine.sink
  clock : other.clock = machine.clock
  ticks : other.ticks = machine.ticks
  nextFunction : other.nextFunction = machine.nextFunction

namespace Machine.Accords

variable {accord : Accord} {world : World} {stack : List Naming} {machine other : Machine}

/-- Two machines that have run nothing accord. -/
theorem start (clock : Nat → Float) (nothing : accord.distances = [])
    (nothing' : accord.distances' = []) :
    Accords accord [⟨none, 1⟩] [] (.start clock) (.start clock) where
  store := by
    have opened := (Store.Accords.empty accord).add none 1
    have natives : List.Forall₂ (Value.Accords accord [⟨none, 1⟩]) (Native.all.map Value.native)
        (Native.all.map Value.native) :=
      List.forall₂_same.mpr fun value isNative => by
        obtain ⟨known, -, rfl⟩ := List.mem_map.mp isNative
        exact .plain _ nofun
    have known : World.scope? [⟨none, 1⟩] ⟨0⟩ = some ⟨none, 1⟩ := rfl
    exact opened.defineAll known (Native.all.map Native.name) natives
  scope := rfl
  around := .outermost rfl
  globals := rfl
  outermost := rfl
  distances := nothing.symm
  distances' := nothing'.symm
  depth := rfl
  output := rfl
  sink := rfl
  clock := rfl
  ticks := rfl
  nextFunction := rfl

/-- The machines go on with other stores, of which perhaps more scopes are known. -/
theorem ofStore {later : World} {store another : Store}
    (accords : Accords accord world stack machine other) (extension : world <+: later)
    (alike : store.Accords accord later another) :
    Accords accord later stack { machine with store := store } { other with store := another } where
  store := alike
  scope := accords.scope
  around := accords.around.mono extension
  globals := accords.globals
  outermost := World.scope?_mono extension accords.outermost
  distances := accords.distances
  distances' := accords.distances'
  depth := accords.depth
  output := accords.output
  sink := accords.sink
  clock := accords.clock
  ticks := accords.ticks
  nextFunction := accords.nextFunction

/-- Machines that learn other distances go on in another manner that allows as much. -/
theorem relearn {another : Accord} (accords : Accords accord world stack machine other)
    (code : ∀ {stack part part'}, accord.code stack part part' → another.code stack part part') :
    Accords another world stack { machine with distances := another.distances }
      { other with distances := another.distances' } where
  store := accords.store.imp code
  scope := accords.scope
  around := accords.around
  globals := accords.globals
  outermost := accords.outermost
  distances := rfl
  distances' := rfl
  depth := accords.depth
  output := accords.output
  sink := accords.sink
  clock := accords.clock
  ticks := accords.ticks
  nextFunction := accords.nextFunction

section

variable {node node' : NodeId} {name name' : Token}

/-- What a variable holds is found under both of its names. -/
theorem valueAt? (accords : Accords accord world stack machine other)
    (same : accord.SameVariable stack node node' name name') :
    Option.Rel (Value.Accords accord world) (machine.valueAt? node name.lexeme)
      (other.valueAt? node' name'.lexeme) := by
  unfold Machine.valueAt?
  rw [same.lexeme, accords.distances', same.distance, accords.distances,
    accords.scope, accords.globals]
  cases accord.distances.get? node with
  | none => exact (accords.store.outermost accords.outermost name.lexeme).1
  | some distance =>
    unfold Store.getAt?
    dsimp only
    rw [accords.store.ancestor?]
    cases ancestor : machine.store.ancestor? machine.scope distance with
    | none => exact .none
    | some target =>
      obtain ⟨entry, known, names⟩ := accords.store.scope_of_ancestor? accords.around ancestor
      rw [← names]
      exact accords.store.values target entry known name.lexeme

/-- An assignment goes to the same scope, where each name is the other one in its naming. -/
theorem targetOf? (accords : Accords accord world stack machine other)
    (same : accord.SameVariable stack node node' name name') :
    other.targetOf? node' name'.lexeme = machine.targetOf? node name.lexeme ∧
      ∀ target, machine.targetOf? node name.lexeme = some target →
        ∃ entry, world.scope? target = some entry ∧ name'.lexeme = entry.naming name.lexeme := by
  unfold Machine.targetOf?
  rw [same.lexeme, accords.distances', same.distance, accords.distances,
    accords.scope, accords.globals]
  cases accord.distances.get? node with
  | none =>
    obtain ⟨-, holder, here⟩ := accords.store.outermost accords.outermost name.lexeme
    refine ⟨holder, fun target isTarget => ?_⟩
    obtain rfl := here target isTarget
    exact ⟨_, accords.outermost, rfl⟩
  | some distance =>
    refine ⟨accords.store.ancestor? _ _, fun target isTarget => ?_⟩
    obtain ⟨entry, known, names⟩ := accords.store.scope_of_ancestor? accords.around isTarget
    exact ⟨entry, known, by rw [names]⟩

end

end Machine.Accords

end Lox
