/-
**Code that is read twice, with other node identities each time.**

* `Tables` — the distances that two machines know, and how many node identities each of them has
  used.
* `Tables.Twins` — the same part, with its nodes numbered from two places on. For every node of it,
  both machines know the same distance. `Tables.accord`: twins do the same, and so
  `evaluatesAccordingly` is about them.
* `Tables.Grows` — more has been read and resolved since. Twins stay twins (`Tables.Grows.twins`).
* `Value.bare` — a value without the node identities in its function. `Value.Accords.bare`: twins
  are the same without them.
-/

import Lox.Proofs.Evaluation.According
import Lox.Proofs.Grammar.Shifting
import Lox.Proofs.Scoping.Nodes

namespace Lox

/-- The distances that two machines know, and the next unused node identity of either. -/
structure Tables where
  distances : Distances
  distances' : Distances
  next : Nat
  next' : Nat

namespace Tables

/-- Both machines have used the node, which is numbered differently, and know the same distance for
it. -/
structure Agree (tables : Tables) (shift shift' : Nat) (node : NodeId) : Prop where
  used : node.index + shift < tables.next
  used' : node.index + shift' < tables.next'
  distance : tables.distances'.get? ⟨node.index + shift'⟩ =
    tables.distances.get? ⟨node.index + shift⟩

/-- The part is not just the variable that is read or assigned. -/
def IsCode : Part → Prop
  | .target .. => False
  | _ => True

/-- The same part, numbered from two places on. -/
inductive Twins (tables : Tables) : Part → Part → Prop
  | intro (part : Part) (shift shift' : Nat) :
      IsCode part → (∀ node ∈ part.nodes, tables.Agree shift shift' node) →
      Twins tables (part.relabel (.shift shift)) (part.relabel (.shift shift'))

/-- All scopes keep their names. -/
def Plain (stack : List Naming) : Prop :=
  ∀ naming ∈ stack, naming = 1

theorem Plain.nil : Plain [] :=
  nofun

theorem Plain.cons {stack : List Naming} (plain : Plain stack) : Plain (1 :: stack) :=
  List.forall_mem_cons.mpr ⟨rfl, plain⟩

theorem Plain.namingAt {stack : List Naming} (plain : Plain stack) (distance : Option Nat) :
    namingAt stack distance = 1 := by
  cases distance with
  | none => rfl
  | some distance =>
    show stack.getD distance 1 = 1
    rw [List.getD_eq_getElem?_getD]
    cases found : stack[distance]? with
    | none => rfl
    | some naming => exact plain naming (List.mem_of_getElem? found)

/-- The two parts are twins, in scopes that keep their names. Tokens and errors are the same. -/
def manner (tables : Tables) : Manner where
  token := Eq
  error := Eq
  distances := tables.distances
  distances' := tables.distances'
  code stack part part' := Plain stack ∧ tables.Twins part part'

section

variable {tables : Tables} {stack : List Naming} {shift shift' : Nat} {node : NodeId} {name : Token}

theorem Agree.sameVariable (agree : tables.Agree shift shift' node) (plain : Plain stack)
    (name : Token) :
    tables.manner.SameVariable stack ((Relabelling.shift shift).node node)
      ((Relabelling.shift shift').node node) name name where
  distance := agree.distance
  lexeme := (congrArg (fun naming : Naming => naming name.lexeme) (plain.namingAt _)).symm
  undefined := rfl

theorem sameLexeme (plain : Plain stack) (name : Token) :
    name.lexeme = namingAt stack (some 0) name.lexeme :=
  (congrArg (fun naming : Naming => naming name.lexeme) (plain.namingAt _)).symm

/-- A part that has none but these nodes, in scopes that keep their names. -/
theorem code_of_subset {nodes : List NodeId}
    (agree : ∀ node ∈ nodes, tables.Agree shift shift' node) {stack : List Naming}
    (plain : Plain stack) (part : Part) (inside : part.nodes ⊆ nodes) (isCode : IsCode part) :
    tables.manner.code stack (part.relabel (.shift shift)) (part.relabel (.shift shift')) :=
  ⟨plain, .intro part shift shift' isCode fun node isNode => agree node (inside isNode)⟩

theorem layer_expression {value : Expr} (plain : Plain stack)
    (agree : ∀ node ∈ value.nodes, tables.Agree shift shift' node) :
    tables.manner.Layer stack (.expression (value.relabel (.shift shift)))
      (.expression (value.relabel (.shift shift'))) := by
  have inner := code_of_subset agree plain
  cases value with
  | literal => exact .literal
  | grouping value => exact .grouping (inner (.expression value)
      (by simp [Part.nodes, Expr.nodes]) trivial)
  | unary _ right => exact .unary rfl (inner (.expression right)
      (by simp [Part.nodes, Expr.nodes]) trivial)
  | binary left _ right =>
    exact .binary rfl (inner (.expression left) (by simp [Part.nodes, Expr.nodes]) trivial)
      (inner (.expression right) (by simp [Part.nodes, Expr.nodes]) trivial)
  | logical left _ right =>
    exact .logical rfl (inner (.expression left) (by simp [Part.nodes, Expr.nodes]) trivial)
      (inner (.expression right) (by simp [Part.nodes, Expr.nodes]) trivial)
  | ternary condition _ yes no =>
    exact .ternary (inner (.expression condition) (by simp [Part.nodes, Expr.nodes]) trivial)
      (inner (.expression yes) (by intro; simp_all [Part.nodes, Expr.nodes]) trivial)
      (inner (.expression no) (by intro; simp_all [Part.nodes, Expr.nodes]) trivial)
  | «variable» node name =>
    exact .variable ((agree node (by simp [Expr.nodes])).sameVariable plain name)
  | assign node name value =>
    exact .assign ((agree node (by simp [Expr.nodes])).sameVariable plain name)
      (inner (.expression value) (by simp [Part.nodes, Expr.nodes]) trivial)
  | call callee arguments closing =>
    exact .call rfl (inner (.expression callee) (by simp [Part.nodes, Expr.nodes]) trivial)
      (inner (.arguments arguments) (by simp [Part.nodes, Expr.nodes]) trivial)
  | lambda keyword body => exact .lambda (inner (.function .lambda body)
      (by simp [Part.nodes, Expr.nodes]) trivial)

theorem layer_statement {form : Stmt} (plain : Plain stack)
    (agree : ∀ node ∈ form.nodes, tables.Agree shift shift' node) :
    tables.manner.Layer stack (.statement (form.relabel (.shift shift)))
      (.statement (form.relabel (.shift shift'))) := by
  have inner := code_of_subset agree plain
  cases form with
  | expression value =>
    exact .expressionStatement
      (inner (.expression value) (by simp [Part.nodes, Stmt.nodes]) trivial)
  | print keyword value =>
    exact .print rfl (inner (.expression value) (by simp [Part.nodes, Stmt.nodes]) trivial)
  | var name initializer =>
    cases initializer with
    | none => exact .var (sameLexeme plain name) .none
    | some initializer =>
      exact .var (sameLexeme plain name)
        (.some (inner (.expression initializer) (by simp [Part.nodes, Stmt.nodes]) trivial))
  | block forms =>
    exact .block (code_of_subset agree plain.cons (.statements forms)
      (by simp [Part.nodes, Stmt.nodes]) trivial)
  | «if» condition yes no =>
    cases no with
    | none =>
      exact .if (inner (.expression condition) (by simp [Part.nodes, Stmt.nodes]) trivial)
        (inner (.statement yes) (by simp [Part.nodes, Stmt.nodes]) trivial) .none
    | some no =>
      exact .if (inner (.expression condition) (by simp [Part.nodes, Stmt.nodes]) trivial)
        (inner (.statement yes) (by intro; simp_all [Part.nodes, Stmt.nodes]) trivial)
        (.some (inner (.statement no) (by intro; simp_all [Part.nodes, Stmt.nodes]) trivial))
  | «while» condition body =>
    exact .while (inner (.expression condition) (by simp [Part.nodes, Stmt.nodes]) trivial)
      (inner (.statement body) (by simp [Part.nodes, Stmt.nodes]) trivial)
  | function name body =>
    exact .function (sameLexeme plain name) rfl
      (inner (.function .function body) (by simp [Part.nodes, Stmt.nodes]) trivial)
  | «return» keyword value =>
    cases value with
    | none => exact .return .none
    | some value =>
      exact .return (.some (inner (.expression value) (by simp [Part.nodes, Stmt.nodes]) trivial))

end

/-- Twins do the same. -/
def accord (tables : Tables) : Accord where
  toManner := tables.manner
  layer := by
    rintro stack _ _ ⟨plain, part, shift, shift', isCode, agree⟩
    have inner := code_of_subset agree plain
    cases part with
    | expression value => exact layer_expression plain agree
    | statement form => exact layer_statement plain agree
    | arguments values =>
      cases values with
      | nil => exact .noArguments
      | cons first rest =>
        exact .arguments (inner (.expression first)
          (by simp [Part.nodes, nodesOfArguments]) trivial)
          (inner (.arguments rest) (by simp [Part.nodes, nodesOfArguments]) trivial)
    | statements forms =>
      cases forms with
      | nil => exact .noStatements
      | cons first rest =>
        exact .statements (inner (.statement first)
          (by simp [Part.nodes, nodesOfStatements]) trivial)
          (inner (.statements rest) (by simp [Part.nodes, nodesOfStatements]) trivial)
    | function kind body =>
      obtain ⟨parameters, forms⟩ := body
      exact .body (by simp [Relabelling.shift])
        (code_of_subset agree plain.cons (.statements forms)
          (by simp [Part.nodes, FunctionBody.nodes]) trivial)
    | target node access name => exact isCode.elim
  kind := by
    rintro first _ rfl
    rfl
  raise := by
    rintro first _ fault rfl
    rfl

/-! ### Reading on -/

/-- More node identities are used, and nothing else is known about those that were used before. -/
structure Grows (tables later : Tables) : Prop where
  next : tables.next ≤ later.next
  next' : tables.next' ≤ later.next'
  distances : ∀ node : NodeId, node.index < tables.next →
    later.distances.get? node = tables.distances.get? node
  distances' : ∀ node : NodeId, node.index < tables.next' →
    later.distances'.get? node = tables.distances'.get? node

namespace Grows

variable {tables later : Tables}

theorem agree (grows : tables.Grows later) {shift shift' : Nat} {node : NodeId}
    (agree : tables.Agree shift shift' node) : later.Agree shift shift' node where
  used := Nat.lt_of_lt_of_le agree.used grows.next
  used' := Nat.lt_of_lt_of_le agree.used' grows.next'
  distance := by
    rw [grows.distances ⟨_⟩ agree.used, grows.distances' ⟨_⟩ agree.used', agree.distance]

theorem twins (grows : tables.Grows later) {part part' : Part} (twins : tables.Twins part part') :
    later.Twins part part' := by
  cases twins with
  | intro part shift shift' isCode agree =>
    exact .intro part shift shift' isCode fun node isNode => grows.agree (agree node isNode)

theorem code (grows : tables.Grows later) {stack : List Naming} {part part' : Part}
    (code : tables.accord.code stack part part') : later.accord.code stack part part' :=
  ⟨code.1, grows.twins code.2⟩

end Grows

end Tables

/-! ### Values without node identities -/

section

variable (first second : Relabelling)

/-- One change after the other. -/
def Relabelling.after : Relabelling :=
  ⟨fun node => second.node (first.node node), fun token => second.token (first.token token)⟩

mutual

theorem Expr.relabel_relabel :
    (value : Expr) → (value.relabel first).relabel second = value.relabel (first.after second)
  | .literal _ | .variable _ _ => rfl
  | .grouping inner => congrArg Expr.grouping inner.relabel_relabel
  | .unary operator right => by simp only [Expr.relabel, right.relabel_relabel]; rfl
  | .binary left operator right | .logical left operator right => by
    simp only [Expr.relabel, left.relabel_relabel, right.relabel_relabel]
    rfl
  | .ternary condition question yes no => by
    simp only [Expr.relabel, condition.relabel_relabel, yes.relabel_relabel, no.relabel_relabel]
    rfl
  | .assign node name value => by simp only [Expr.relabel, value.relabel_relabel]; rfl
  | .call callee arguments closing => by
    simp only [Expr.relabel, callee.relabel_relabel, relabelArguments_relabel arguments]
    rfl
  | .lambda keyword body => by simp only [Expr.relabel, body.relabel_relabel]; rfl

theorem relabelArguments_relabel : (values : List Expr) →
    relabelArguments second (relabelArguments first values) =
      relabelArguments (first.after second) values
  | [] => rfl
  | value :: rest => by
    simp only [relabelArguments, value.relabel_relabel, relabelArguments_relabel rest]

theorem Stmt.relabel_relabel :
    (form : Stmt) → (form.relabel first).relabel second = form.relabel (first.after second)
  | .expression value => by simp only [Stmt.relabel, value.relabel_relabel]
  | .print keyword value => by simp only [Stmt.relabel, value.relabel_relabel]; rfl
  | .var name none => rfl
  | .var name (some initializer) => by simp only [Stmt.relabel, initializer.relabel_relabel]; rfl
  | .block forms => by simp only [Stmt.relabel, relabelStatements_relabel forms]
  | .if condition yes none => by simp only [Stmt.relabel, condition.relabel_relabel,
      yes.relabel_relabel]
  | .if condition yes (some no) => by
    simp only [Stmt.relabel, condition.relabel_relabel, yes.relabel_relabel, no.relabel_relabel]
  | .while condition body => by simp only [Stmt.relabel, condition.relabel_relabel,
      body.relabel_relabel]
  | .function name body => by simp only [Stmt.relabel, body.relabel_relabel]; rfl
  | .return keyword none => rfl
  | .return keyword (some value) => by simp only [Stmt.relabel, value.relabel_relabel]; rfl

theorem relabelStatements_relabel : (forms : List Stmt) →
    relabelStatements second (relabelStatements first forms) =
      relabelStatements (first.after second) forms
  | [] => rfl
  | form :: rest => by
    simp only [relabelStatements, form.relabel_relabel, relabelStatements_relabel rest]

theorem FunctionBody.relabel_relabel :
    (body : FunctionBody) → (body.relabel first).relabel second = body.relabel (first.after second)
  | ⟨parameters, forms⟩ => by
    simp only [FunctionBody.relabel, relabelStatements_relabel forms, List.map_map]
    rfl

end

end

/-- The value, with all node identities in its function forgotten. -/
def Value.bare : Value → Value
  | .function closure => .function { closure with body := closure.body.relabel ⟨fun _ => ⟨0⟩, id⟩ }
  | value => value

/-- **Values that are twins are the same, but for the node identities in functions.** -/
theorem Value.Accords.bare {tables : Tables} {world : World} {value other : Value}
    (accords : value.Accords tables.accord world other) : other.bare = value.bare := by
  cases accords with
  | plain => rfl
  | @function identity name _ _ _ scope _ around code =>
    obtain ⟨-, twins⟩ := code
    have forget (body : FunctionBody) (shift : Nat) :
        (body.relabel (.shift shift)).relabel ⟨fun _ => ⟨0⟩, id⟩ =
          body.relabel ⟨fun _ => ⟨0⟩, id⟩ :=
      FunctionBody.relabel_relabel _ _ body
    generalize first : Part.function _ _ = part at twins
    generalize second : Part.function _ _ = part' at twins
    cases twins with
    | intro source shift shift' =>
      cases source with
      | function kind body =>
        obtain ⟨-, rfl⟩ := Part.function.inj first
        obtain ⟨-, rfl⟩ := Part.function.inj second
        show Value.function ⟨identity, name, _, scope⟩ = Value.function ⟨identity, name, _, scope⟩
        rw [forget, forget]
      | _ => cases first

end Lox
