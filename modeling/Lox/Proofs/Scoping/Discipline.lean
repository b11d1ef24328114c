/-
**The walk over a tree leaves the stack of scopes in order.**

* `Walk.Defines walk later names` — the later walk has the same scopes open, and in the innermost
  one these names, and no others, have been marked as readable (`Stmt.defines`).
* `Walk.Adds walk later nodes` — the later walk has lost nothing that was found, and it has found
  one reference for each of these nodes (`Site.adds`).
* `walk_is_stack_disciplined` — expressions and functions leave the stack as it was, statements
  define their names in the innermost scope, and all only add to what was found.
-/

import Lox.Proofs.Scoping.Relabelled
import Lox.Proofs.Session.History

namespace Lox

/-! ### What a walk leaves -/

namespace Walk

/-- The same scopes are open. In the innermost one, if there is any, these names have been marked as
readable, and all other names are as they were. -/
structure Defines (walk later : Walk) (declared : List Token) : Prop where
  around : walk.SameAround later
  innermost : ∀ names ∈ walk.innermost?, ∃ marked ∈ later.innermost?, ∀ name,
    marked.get? name = if name ∈ declared.map Token.lexeme then some true else names.get? name

/-- Nothing that was found is lost. One reference has been found for each of these nodes, in order,
and no other node has been given a distance. -/
structure Adds (walk later : Walk) (nodes : List NodeId) : Prop where
  diagnostics : walk.diagnostics <+: later.diagnostics
  references : ∃ found, later.references = walk.references ++ found ∧
    found.map Reference.node = nodes
  distances : ∀ node ∉ nodes, Distances.get? (.ofReferences later.references) node =
    Distances.get? (.ofReferences walk.references) node

end Walk

/-- A statement defines the names that it declares. -/
theorem Stmt.defines (form : Stmt) (walk : Walk) :
    walk.Defines (form.walk walk) form.declarations := by
  refine ⟨Site.settles ⟨.statement form, [], walk⟩, fun names isInnermost => ?_⟩
  have scopes : (form.walk walk).scopes = walk.scopes.modifyHead (·.defineAll form.declarations) :=
    @Site.scopes_declarations ⟨.statement form, [], walk⟩ form rfl
  refine ⟨names.defineAll form.declarations, ?_, names.get?_defineAll form.declarations⟩
  rw [Walk.innermost?] at isInnermost ⊢
  rw [scopes, List.head?_modifyHead, isInnermost]
  rfl

/-- **At a site, the walk adds one reference for each node, and loses nothing.** -/
theorem Site.adds (site : Site) : site.walk.Adds site.after site.part.nodes := by
  have before := site.walk_before
  obtain ⟨found, same⟩ := before.references
  have nodes : found.map Reference.node = site.part.nodes := by
    have all := site.nodes_after
    rw [Walk.nodes, ← same, List.map_append] at all
    exact List.append_cancel_left all
  refine ⟨before.diagnostics, ⟨found, same.symm, nodes⟩, fun node notHere => ?_⟩
  rw [← nodes] at notHere
  rw [← same, Distances.ofReferences, List.filterMap_append]
  show Distances.get? (Distances.ofReferences site.walk.references ++ Distances.ofReferences found)
    node = _
  rw [Distances.get?_append, Distances.get?_ofReferences_none notHere, Option.none_or]

/-- **The walk is disciplined about its stack,** whatever scopes are open, whatever kind of
function it is within, if any, and whatever has been found so far. An expression and the body of
a function of either kind leave all scopes with all marks as they were. A statement leaves all
scopes but the innermost as they were, and in that one it only marks the names as readable that
it declares right in it. All three leave the walk in the kind of function that it came to them
in, or outside of all functions. They add diagnostics at the end, and references for their own
nodes only, one for each. -/
theorem walk_is_stack_disciplined (walk : Walk) :
    (∀ value : Expr, (value.walk walk).scopes = walk.scopes ∧
      (value.walk walk).currentFunction = walk.currentFunction ∧
      walk.Adds (value.walk walk) value.nodes) ∧
    (∀ (kind : FunctionKind) (body : FunctionBody), (body.walk kind walk).scopes = walk.scopes ∧
      (body.walk kind walk).currentFunction = walk.currentFunction ∧
      walk.Adds (body.walk kind walk) body.nodes) ∧
    ∀ form : Stmt, walk.Defines (form.walk walk) form.declarations ∧
      (form.walk walk).currentFunction = walk.currentFunction ∧
      walk.Adds (form.walk walk) form.nodes := by
  refine ⟨fun value => ?_, fun kind body => ?_, fun form => ?_⟩
  · let site : Site := ⟨.expression value, [], walk⟩
    exact ⟨site.settles, site.currentFunction_after, site.adds⟩
  · let site : Site := ⟨.function kind body, [], walk⟩
    exact ⟨site.settles, site.currentFunction_after, site.adds⟩
  · let site : Site := ⟨.statement form, [], walk⟩
    exact ⟨form.defines walk, site.currentFunction_after, site.adds⟩

end Lox
