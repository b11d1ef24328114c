/-
**Every node stands at one site only.**

* `Part.nodes` — the nodes of a part, in the order of the walk. `Site.nodes_after`: the walk finds
  one reference for each of them, in that order.
* `Site.nodes_children` — the nodes of a part are those of the parts right within it.
* `Within.comparable` — where no node comes twice, two sites that have a node in common are one
  within the other. So a part that has a node stands at one site only (`Within.unique`).
* `Within.reference` — the walk finds, for each site where a variable is read or assigned, how far
  the scope of the variable is from there.
-/

import Lox.Proofs.Scoping.Walks
import Mathlib.Data.List.Nodup

namespace Lox

/-! ### Nodes -/

mutual

/-- The nodes of an expression, in the order of the walk. -/
def Expr.nodes : Expr → List NodeId
  | .literal _ => []
  | .grouping inner => inner.nodes
  | .unary _ right => right.nodes
  | .binary left _ right | .logical left _ right => left.nodes ++ right.nodes
  | .ternary condition _ yes no => condition.nodes ++ yes.nodes ++ no.nodes
  | .variable node _ => [node]
  | .assign node _ value => value.nodes ++ [node]
  | .call callee arguments _ => callee.nodes ++ nodesOfArguments arguments
  | .lambda _ body => body.nodes

/-- The nodes of expressions, in order. -/
def nodesOfArguments : List Expr → List NodeId
  | [] => []
  | first :: rest => first.nodes ++ nodesOfArguments rest

/-- The nodes of a statement, in the order of the walk. -/
def Stmt.nodes : Stmt → List NodeId
  | .expression value | .print _ value => value.nodes
  | .var _ none => []
  | .var _ (some initializer) => initializer.nodes
  | .block forms => nodesOfStatements forms
  | .if condition yes none => condition.nodes ++ yes.nodes
  | .if condition yes (some no) => condition.nodes ++ yes.nodes ++ no.nodes
  | .while condition body => condition.nodes ++ body.nodes
  | .function _ body => body.nodes
  | .return _ none => []
  | .return _ (some value) => value.nodes

/-- The nodes of statements, in order. -/
def nodesOfStatements : List Stmt → List NodeId
  | [] => []
  | first :: rest => first.nodes ++ nodesOfStatements rest

/-- The nodes of the body of a function, in the order of the walk. -/
def FunctionBody.nodes : FunctionBody → List NodeId
  | ⟨_, forms⟩ => nodesOfStatements forms

end

/-- The nodes of a part, in the order of the walk. -/
def Part.nodes : Part → List NodeId
  | .expression value => value.nodes
  | .arguments values => nodesOfArguments values
  | .statement form => form.nodes
  | .statements forms => nodesOfStatements forms
  | .function _ body => body.nodes
  | .target node _ _ => [node]

namespace Walk

/-- The nodes of the references so far. -/
def nodes (walk : Walk) : List NodeId :=
  walk.references.map Reference.node

variable (walk : Walk)

@[simp] theorem references_mark (name : Token) (readable : Bool) :
    (walk.mark name readable).references = walk.references := by
  unfold mark
  split <;> rfl

@[simp] theorem references_declare (name : Token) :
    (walk.declare name).references = walk.references := by
  unfold declare
  dsimp only
  split <;> simp [record]

@[simp] theorem references_define (name : Token) :
    (walk.define name).references = walk.references :=
  references_mark walk name true

@[simp] theorem references_openScope : walk.openScope.references = walk.references :=
  rfl

@[simp] theorem references_closeScope : walk.closeScope.references = walk.references :=
  rfl

@[simp] theorem references_checkReturn (keyword : Token) :
    (walk.checkReturn keyword).references = walk.references := by
  unfold checkReturn
  split <;> rfl

@[simp] theorem references_enterFunction (kind : FunctionKind) (parameters : List Token) :
    (walk.enterFunction kind parameters).references = walk.references := by
  unfold enterFunction
  have entered : ({ walk.openScope with currentFunction := some kind } : Walk).references =
    walk.references := rfl
  revert entered
  generalize ({ walk.openScope with currentFunction := some kind } : Walk) = entered
  intro same
  induction parameters generalizing entered with
  | nil => exact same
  | cons first rest ih =>
    rw [List.foldl_cons]
    exact ih _ (by rw [parameter, references_define, references_declare, same])

@[simp] theorem references_leaveFunction (outside : Walk) :
    (walk.leaveFunction outside).references = walk.references :=
  rfl

@[simp] theorem references_refer (node : NodeId) (access : Access) (name : Token) :
    (walk.refer node access name).references =
      walk.references ++ [⟨node, access, name, distanceTo? name.lexeme walk.scopes⟩] :=
  rfl

@[simp] theorem references_readVariable (node : NodeId) (name : Token) :
    (walk.readVariable node name).references =
      walk.references ++ [⟨node, .read, name, distanceTo? name.lexeme walk.scopes⟩] := by
  unfold readVariable
  dsimp only
  split <;> rfl

end Walk

namespace Site

/-- **The walk finds one reference for each node of a part, in order.** -/
theorem nodes_after (site : Site) : site.after.nodes = site.walk.nodes ++ site.part.nodes := by
  unfold Walk.nodes
  induction site using Site.induction with
  | step site ih =>
    obtain ⟨part, frames, walk⟩ := site
    cases part with
    | expression value =>
      cases value <;> simp_all [children, Expr.sites, after, Part.walk,
        Expr.walk, Part.nodes, Expr.nodes]
    | arguments values =>
      cases values <;> simp_all [children, after, Part.walk, walkAll, Part.nodes, nodesOfArguments]
    | statement form =>
      cases form with
      | var _ initializer =>
        cases initializer <;>
          simp_all [children, Stmt.sites, after, Part.walk, Stmt.walk, Part.nodes, Stmt.nodes]
      | «if» _ _ no =>
        cases no <;> simp_all [children, Stmt.sites, after, Part.walk,
          Stmt.walk, Part.nodes, Stmt.nodes]
      | «return» _ value =>
        cases value <;>
          simp_all [children, Stmt.sites, after, Part.walk, Stmt.walk, Part.nodes, Stmt.nodes]
      | _ => simp_all [children, Stmt.sites, after, Part.walk, Stmt.walk, Part.nodes, Stmt.nodes]
    | statements forms =>
      cases forms <;> simp_all [children, after, Part.walk, walkStatements,
        Part.nodes, nodesOfStatements]
    | function kind body =>
      cases body
      simp_all [children, after, Part.walk, FunctionBody.walk, Part.nodes, FunctionBody.nodes]
    | target node access name => cases access <;> simp [after, Part.walk, Part.nodes]

/-- The nodes of a part that is no variable are those of the parts right within it. -/
theorem nodes_children {site : Site}
    (inner : ∀ node access name, site.part ≠ .target node access name) :
    site.part.nodes = site.children.flatMap fun child => child.part.nodes := by
  obtain ⟨part, frames, walk⟩ := site
  cases part with
  | expression value => cases value <;> simp [children, Expr.sites, Part.nodes, Expr.nodes]
  | arguments values => cases values <;> simp [children, Part.nodes, nodesOfArguments]
  | statement form =>
    cases form with
    | var _ initializer => cases initializer <;> simp [children, Stmt.sites, Part.nodes, Stmt.nodes]
    | «if» _ _ no => cases no <;> simp [children, Stmt.sites, Part.nodes, Stmt.nodes]
    | «return» _ value => cases value <;> simp [children, Stmt.sites, Part.nodes, Stmt.nodes]
    | _ => simp [children, Stmt.sites, Part.nodes, Stmt.nodes]
  | statements forms => cases forms <;> simp [children, Part.nodes, nodesOfStatements]
  | function kind body => cases body; simp [children, Part.nodes, FunctionBody.nodes]
  | target node access name => exact absurd rfl (inner node access name)

end Site

/-! ### Sites with a node -/

theorem Site.children_of_target {site : Site} {node : NodeId} {access : Access} {name : Token}
    (isTarget : site.part = .target node access name) : site.children = [] := by
  obtain ⟨part, frames, walk⟩ := site
  subst isTarget
  rfl

/-- A site within which there is another is no variable. -/
theorem Site.ne_target {site child : Site} (isChild : child ∈ site.children) (node : NodeId)
    (access : Access) (name : Token) : site.part ≠ .target node access name := by
  intro isTarget
  rw [Site.children_of_target isTarget] at isChild
  exact List.not_mem_nil isChild

/-- Where no node comes twice, sites next to each other have no node in common. -/
theorem eq_of_mem_nodes {sites : List Site}
    (nodup : (sites.flatMap fun site => site.part.nodes).Nodup) {first second : Site}
    (isFirst : first ∈ sites) (isSecond : second ∈ sites) {node : NodeId}
    (inFirst : node ∈ first.part.nodes) (inSecond : node ∈ second.part.nodes) : first = second := by
  have apart := (List.nodup_flatMap.mp nodup).2
  have same := List.Pairwise.forall_of_forall_of_flip
    (R := fun first second : Site => node ∈ first.part.nodes → node ∈ second.part.nodes →
      first = second)
    (fun _ _ _ _ => rfl) (apart.imp fun disjoint inFirst inSecond =>
      (disjoint inFirst inSecond).elim)
    (apart.imp fun disjoint inSecond inFirst => (disjoint inFirst inSecond).elim)
  exact same isFirst isSecond inFirst inSecond

namespace Within

variable {root first second : Site} {node : NodeId}

/-- Sites within a site have no nodes but its own. -/
theorem nodes_subset (within : Within root first) : first.part.nodes ⊆ root.part.nodes := by
  induction within with
  | refl => exact List.Subset.refl _
  | @tail site child _ isChild ih =>
    refine List.Subset.trans (fun node isNode => ?_) ih
    rw [Site.nodes_children (Site.ne_target isChild)]
    exact List.mem_flatMap.mpr ⟨child, isChild, isNode⟩

/-- Where no node comes twice, none does within a site. -/
theorem nodup (within : Within root first) (nodup : root.part.nodes.Nodup) :
    first.part.nodes.Nodup := by
  induction within with
  | refl => exact nodup
  | @tail site child _ isChild ih =>
    rw [Site.nodes_children (Site.ne_target isChild)] at ih
    exact (List.nodup_flatMap.mp ih).1 child isChild

/-- **Where no node comes twice, sites with a node in common are one within the other.** -/
theorem comparable (nodup : root.part.nodes.Nodup) (toFirst : Within root first)
    (toSecond : Within root second) (inFirst : node ∈ first.part.nodes)
    (inSecond : node ∈ second.part.nodes) : Within first second ∨ Within second first := by
  induction toFirst using Relation.ReflTransGen.head_induction_on with
  | refl => exact .inl toSecond
  | @head site child isChild toFirst ih =>
    rcases iff_children.mp toSecond with rfl | ⟨other, isOther, toSecond⟩
    · exact .inr ((refl _).step isChild |>.trans toFirst)
    · rw [Site.nodes_children (Site.ne_target isChild)] at nodup
      obtain rfl : child = other := eq_of_mem_nodes nodup isChild isOther
        (nodes_subset toFirst inFirst) (nodes_subset toSecond inSecond)
      exact ih ((List.nodup_flatMap.mp nodup).1 child isChild) toSecond

/-- **A part that has a node stands at one site only.** -/
theorem unique (nodup : root.part.nodes.Nodup) (toFirst : Within root first)
    (toSecond : Within root second) (same : first.part = second.part)
    (inFirst : node ∈ first.part.nodes) :
    first = second := by
  rcases comparable nodup toFirst toSecond inFirst (same ▸ inFirst) with within | within
  · exact (within.eq_of_part_eq same.symm).symm
  · exact within.eq_of_part_eq same

/-- **The walk finds how far the scope of a variable is from where it is read or assigned.** -/
theorem reference {access : Access} {name : Token} {frames : List Frame} {walk : Walk}
    (within : Within root ⟨.target node access name, frames, walk⟩) :
    ⟨node, access, name, distanceTo? name.lexeme walk.scopes⟩ ∈ root.after.references := by
  have found : ⟨node, access, name, distanceTo? name.lexeme walk.scopes⟩ ∈
      (Site.after ⟨.target node access name, frames, walk⟩).references := by
    cases access <;> simp [Site.after, Part.walk]
  exact within.before.references.subset found

end Within

end Lox
