/-
**Running a program where a local variable has another name.**

* `RuntimeError.Renames` — the same error, or one that names the variable as it is called now.
* `Renaming.Known` — the renaming suits the program, and two machines know for the nodes of the
  program the distances that the renaming knows.
* `Renaming.Under` — a part of the program, and the same part under the new name, in scopes that are
  named as the renaming says.
* `Renaming.accord` — such parts do the same. So do functions that were there
  before, which are twins.
-/

import Lox.Proofs.Evaluation.Renumbered
import Lox.Proofs.Scoping.Renamed

namespace Lox

/-- The second error is the first one, but it may name a variable anew. -/
inductive RuntimeError.Renames (old new : String) : RuntimeError → RuntimeError → Prop
  | same (error : RuntimeError) : Renames old new error error
  | undefined (name : Token) : name.lexeme = old →
      Renames old new ⟨name, .undefinedVariable old⟩
        ⟨{ name with lexeme := new }, .undefinedVariable new⟩

namespace Renaming

/-- A part of the program at a place, and the same part under the new name. -/
inductive Under (change : Renaming) (root : Site) : List Naming → Part → Part → Prop
  | intro (site : Site) (spot : Spot) : Within root site → change.Spares spot site.part →
      Tables.IsCode site.part →
      Under change root (change.stack spot) site.part (site.part.rename change spot)

/-- Parts are under the new name, or they are twins, which were there before. An error
may name the variable anew. -/
def manner (change : Renaming) (root : Site) (tables : Tables) : Manner where
  token := Eq
  error := RuntimeError.Renames change.old change.new
  distances := tables.distances
  distances' := tables.distances'
  code stack part part' := tables.manner.code stack part part' ∨ change.Under root stack part part'

/-- The renaming suits the program. Both machines know for the nodes of the program
what the renaming knows. -/
structure Known (change : Renaming) (root : Site) (tables : Tables) : Prop where
  suits : change.Suits root
  distance : ∀ node ∈ root.part.nodes, tables.distances.get? node = change.distance node
  distance' : ∀ node ∈ root.part.nodes, tables.distances'.get? node = change.distance node

variable {change : Renaming} {root : Site} {tables : Tables} {spot : Spot}
  {frames : List Frame} {walk : Walk}

/-- A variable that is read or assigned is the same under its new name. -/
theorem Known.sameVariable (known : change.Known root tables) {node : NodeId} {name : Token}
    (isNode : node ∈ root.part.nodes) (isNot : name.lexeme ≠ change.new) :
    (change.manner root tables).SameVariable (change.stack spot) node node name
      (change.referred spot node name) where
  distance := (known.distance' node isNode).trans (known.distance node isNode).symm
  lexeme := by
    show _ = namingAt (change.stack spot) (tables.distances.get? node) name.lexeme
    rw [known.distance node isNode, lexeme_referred isNot]
  undefined := by
    show RuntimeError.Renames _ _ _ _
    unfold referred token
    split
    · rename_i isVariable
      obtain same : name.lexeme = change.old := eq_of_beq (Bool.and_eq_true_iff.mp isVariable).2
      rw [same]
      exact .undefined name same
    · exact .same _

/-- A declared variable is named as its scope says. -/
theorem Suits.declared (suits : change.Suits root) {name : Token} {initializer : Option Expr}
    (within : Within root ⟨.statement (.var name initializer), frames, walk⟩) :
    (change.declared spot name).lexeme = namingAt (change.stack spot) (some 0) name.lexeme := by
  refine lexeme_declared (suits.ne_new within ?_)
  cases initializer <;> simp [Part.tokens, Stmt.tokens]

/-- A declared function keeps its name, which its scope keeps too. -/
theorem Suits.declaredFunction (suits : change.Suits root) {name : Token} {body : FunctionBody}
    (within : Within root ⟨.statement (.function name body), frames, walk⟩)
    (spares : change.Spares spot (.statement (.function name body))) :
    name.lexeme = namingAt (change.stack spot) (some 0) name.lexeme := by
  rw [namingAt_stack]
  exact (change.naming_of_ne _ spares
    (suits.ne_new within (by simp [Part.tokens, Stmt.tokens]))).symm

/-- Parameters are named as the scope of the function says. -/
theorem Suits.parameters (suits : change.Suits root) {kind : FunctionKind} {parameters : List Token}
    {forms : List Stmt}
    (within : Within root ⟨.function kind ⟨parameters, forms⟩, frames, walk⟩) (isChosen : Bool) :
    (parameters.map (change.declared (spot.inside isChosen))).map Token.lexeme =
      (parameters.map Token.lexeme).map (change.naming isChosen) := by
  rw [List.map_map, List.map_map]
  refine List.map_congr_left fun name isName => ?_
  exact lexeme_token (suits.ne_new within (by simp [Part.tokens, FunctionBody.tokens, isName]))
    isChosen

/-- What is right within a part is under the new name too, wherever that is in it. -/
theorem code_of_child {site child : Site} (within : Within root site)
    (isChild : child ∈ site.children) (spot : Spot) (spares : change.Spares spot child.part)
    (isCode : Tables.IsCode child.part) :
    (change.manner root tables).code (change.stack spot) child.part
      (child.part.rename change spot) :=
  .inr (.intro child spot (within.step isChild) spares isCode)

section

variable {value : Expr} {form : Stmt}

theorem layer_expression (known : change.Known root tables)
    (within : Within root ⟨.expression value, frames, walk⟩) (spot : Spot) :
    (change.manner root tables).Layer (change.stack spot) (.expression value)
      (.expression (value.rename change spot)) := by
  have inner (index : Nat) (value' : Expr) (between : Walk)
      (isChild : Site.mk (.expression value') frames between ∈ value.sites frames walk) :
      (change.manner root tables).code (change.stack spot) (.expression value')
        (.expression (value'.rename change (spot.part index))) :=
    code_of_child within isChild (spot.part index) (fun _ => trivial) trivial
  have isNode := within.nodes_subset
  have isNot {name : Token} (isToken : name ∈ value.tokens) : name.lexeme ≠ change.new :=
    known.suits.ne_new within isToken
  cases value with
  | literal => exact .literal
  | grouping value => exact .grouping (inner 0 value walk (by simp [Expr.sites]))
  | unary _ right => exact .unary rfl (inner 0 right walk (by simp [Expr.sites]))
  | binary left _ right =>
    exact .binary rfl (inner 0 left walk (by simp [Expr.sites]))
      (inner 1 right (left.walk walk) (by simp [Expr.sites]))
  | logical left _ right =>
    exact .logical rfl (inner 0 left walk (by simp [Expr.sites]))
      (inner 1 right (left.walk walk) (by simp [Expr.sites]))
  | ternary condition _ yes no =>
    exact .ternary (inner 0 condition walk (by simp [Expr.sites]))
      (inner 1 yes (condition.walk walk) (by simp [Expr.sites]))
      (inner 2 no (yes.walk (condition.walk walk)) (by simp [Expr.sites]))
  | «variable» node name =>
    exact .variable
      (known.sameVariable (isNode (by simp [Part.nodes, Expr.nodes]))
        (isNot (by simp [Expr.tokens])))
  | assign node name value =>
    exact .assign (known.sameVariable (isNode (by simp [Part.nodes, Expr.nodes]))
      (isNot (by simp [Expr.tokens]))) (inner 0 value walk (by simp [Expr.sites]))
  | call callee arguments closing =>
    exact .call rfl (inner 0 callee walk (by simp [Expr.sites]))
      (code_of_child within Site.arguments_child (spot.part 1) (fun _ => trivial) trivial)
  | lambda keyword body =>
    exact .lambda (code_of_child within Site.lambda_child (spot.part 0) (fun _ => trivial) trivial)

theorem layer_statement (known : change.Known root tables)
    (within : Within root ⟨.statement form, frames, walk⟩) (spot : Spot)
    (spares : change.Spares spot (.statement form)) :
    (change.manner root tables).Layer (change.stack spot) (.statement form)
      (.statement (form.rename change spot)) := by
  have inner (index : Nat) (value : Expr) (between : Walk)
      (isChild : Site.mk (.expression value) frames between ∈ form.sites frames walk) :
      (change.manner root tables).code (change.stack spot) (.expression value)
        (.expression (value.rename change (spot.part index))) :=
    code_of_child within isChild (spot.part index) (fun _ => trivial) trivial
  have branch (index : Nat) (form' : Stmt) (between : Walk)
      (isChild : Site.mk (.statement form') frames between ∈ form.sites frames walk)
      (declares : form'.declared? = none) :
      (change.manner root tables).code (change.stack spot) (.statement form')
        (.statement (form'.rename change (spot.part index))) :=
    code_of_child within isChild (spot.part index) (fun _ => Part.spares_of_none declares _) trivial
  have apart := (Site.wellFormed_iff.mp (known.suits.wellFormed.within within)).1
  cases form with
  | expression value => exact .expressionStatement (inner 0 value walk (by simp [Stmt.sites]))
  | print _ value => exact .print rfl (inner 0 value walk (by simp [Stmt.sites]))
  | var name initializer =>
    cases initializer with
    | none => exact .var (known.suits.declared within) .none
    | some initializer =>
      exact .var (known.suits.declared within)
        (.some (inner 0 initializer (walk.declare name) (by simp [Stmt.sites])))
  | block forms =>
    exact .block (code_of_child within Site.block_child
      (spot.inside (change.choosesBlock spot forms))
      (known.suits.spares_block (within.step Site.block_child)) trivial)
  | «if» condition yes no =>
    cases no with
    | none =>
      exact .if (inner 0 condition walk (by simp [Stmt.sites]))
        (branch 1 yes (condition.walk walk) (by simp [Stmt.sites]) apart.1) .none
    | some no =>
      exact .if (inner 0 condition walk (by simp [Stmt.sites]))
        (branch 1 yes (condition.walk walk) (by simp [Stmt.sites]) apart.1)
        (.some (branch 2 no (yes.walk (condition.walk walk)) (by simp [Stmt.sites])
          (apart.2 no rfl)))
  | «while» condition body =>
    exact .while (inner 0 condition walk (by simp [Stmt.sites]))
      (branch 1 body (condition.walk walk) (by simp [Stmt.sites]) apart)
  | function name body =>
    exact .function (known.suits.declaredFunction within spares) rfl
      (code_of_child within Site.function_child (spot.part 0) (fun _ => trivial) trivial)
  | «return» keyword value =>
    cases value with
    | none => exact .return .none
    | some value =>
      exact .return (.some (inner 0 value (walk.checkReturn keyword) (by simp [Stmt.sites])))

/-- **Parts under the new name consist of parts under the new name.** -/
theorem Under.layer {stack : List Naming} {part part' : Part} (known : change.Known root tables)
    (under : change.Under root stack part part') :
    (change.manner root tables).Layer stack part part' := by
  obtain ⟨⟨part, frames, walk⟩, spot, within, spares, isCode⟩ := under
  cases part with
  | expression value => exact layer_expression known within spot
  | statement form => exact layer_statement known within spot spares
  | arguments values =>
    cases values with
    | nil => exact .noArguments
    | cons first rest =>
      exact .arguments (code_of_child within Site.firstArgument_child (spot.part 0)
        (fun _ => trivial) trivial)
        (code_of_child within Site.moreArguments_child (spot.part 1) (fun _ => trivial) trivial)
  | statements forms =>
    cases forms with
    | nil => exact .noStatements
    | cons first rest =>
      have both (isChosen : spot.chosenAt (some 0) = true) := Part.spares_cons (spares isChosen)
      exact .statements
        (code_of_child within Site.firstStatement_child (spot.part 0)
          (fun isChosen => (both isChosen).1) trivial)
        (code_of_child within Site.moreStatements_child (spot.part 1)
          (fun isChosen => (both isChosen).2) trivial)
  | function kind body =>
    obtain ⟨parameters, forms⟩ := body
    exact .body (known.suits.parameters within _)
      (code_of_child within Site.body_child
        (spot.inside (change.choosesFunction spot parameters forms))
        (known.suits.spares_function (within.step Site.body_child)) trivial)
  | target => exact isCode.elim

end

/-- Parts under the new name do the same. So do twins. -/
def accord (known : change.Known root tables) : Accord where
  toManner := change.manner root tables
  layer := by
    rintro stack part part' (twins | under)
    · refine (tables.accord.layer twins).imp id ?_ rfl rfl .inl
      rintro error _ rfl
      exact .same error
    · exact under.layer known
  kind := by
    rintro first _ rfl
    rfl
  raise := by
    rintro first _ fault rfl
    exact .same _

end Renaming

end Lox
