/-
**The same code where some scopes are missing.**

* `Standing` — whether a scope around a place is there in both of two runs, or only in the fuller
  one.
* `sparse?` — the distance to the same scope where the skipped ones are not there.
* `Thins` — the open scopes of two walks are the same but for the skipped ones, which declare
  nothing. `Thins.distanceTo?`: then the distances to each name lead to the same scope.
* `Lookups.Same` — what two runs know about a place, which may have another node in the sparser one,
  leads to the same scope. `Part.ResolvesAlike`: this is so all through a part, and nothing is
  declared in a skipped scope.
* `Part.resolvesAlike_of_kept` — where all scopes are kept, it is enough that the distances are the
  same.
* `Site.resolvesAlike` — so it is where each run knows the distances that a walk of its own has
  found.
-/

import Lox.Machine
import Lox.Proofs.Relabelling
import Lox.Proofs.Scoping.Marks
import Lox.Proofs.Scoping.Nodes

namespace Lox

/-! ### Distances -/

/-- Whether a scope is there in both runs, or only in the fuller one. -/
inductive Standing where
  | kept
  | skipped
deriving DecidableEq

/-- The distance to the same scope where the skipped scopes are not there; there is
none to a skipped scope. -/
def sparse? : (stack : List Standing) → (distance : Nat) → Option Nat
  | [], distance => some distance
  | .kept :: _, 0 => some 0
  | .skipped :: _, 0 => none
  | .kept :: stack, distance + 1 => (sparse? stack distance).map (· + 1)
  | .skipped :: stack, distance + 1 => sparse? stack distance

/-- Where all scopes are kept, all distances stay as they are. -/
theorem sparse?_of_kept {stack : List Standing} (kept : ∀ standing ∈ stack, standing = .kept)
    (distance : Nat) :
    sparse? stack distance = some distance := by
  induction stack generalizing distance with
  | nil => rfl
  | cons standing stack ih =>
    obtain ⟨rfl, keptOuter⟩ := List.forall_mem_cons.mp kept
    cases distance with
    | zero => rfl
    | succ distance => rw [sparse?, ih keptOuter, Option.map_some]

/-- The open scopes are the same but for the skipped ones, in which no name is marked. -/
inductive Thins : List Standing → List (Names Bool) → List (Names Bool) → Prop
  | nil : Thins [] [] []
  | kept {stack : List Standing} {names : Names Bool} {scopes others : List (Names Bool)} :
      Thins stack scopes others → Thins (.kept :: stack) (names :: scopes) (names :: others)
  | skipped {stack : List Standing} {scopes others : List (Names Bool)} :
      Thins stack scopes others → Thins (.skipped :: stack) ([] :: scopes) others

/-- The distances lead to the same scope, or both are none. -/
def SameScope (stack : List Standing) : (distance other : Option Nat) → Prop :=
  Option.Rel fun distance other => sparse? stack distance = some other

namespace Thins

variable {stack : List Standing} {scopes others : List (Names Bool)}

/-- Scopes are the same as themselves. -/
theorem refl (scopes : List (Names Bool)) :
    Thins (List.replicate scopes.length .kept) scopes scopes := by
  induction scopes with
  | nil => exact .nil
  | cons names scopes ih => exact .kept ih

/-- **The distances to a name lead to the same scope.** -/
theorem distanceTo? (thins : Thins stack scopes others) (name : String) :
    SameScope stack (distanceTo? name scopes) (distanceTo? name others) := by
  unfold Lox.distanceTo? SameScope
  induction thins with
  | nil => exact .none
  | @kept stack names scopes others _ ih =>
    rw [List.findIdx?_cons, List.findIdx?_cons]
    by_cases here : names.has name = true
    · rw [if_pos here, if_pos here]
      exact .some rfl
    · rw [if_neg here, if_neg here]
      generalize List.findIdx? _ scopes = distance at ih ⊢
      generalize List.findIdx? _ others = other at ih ⊢
      cases ih with
      | some same => exact .some (by rw [sparse?, same, Option.map_some])
      | none => exact .none
  | @skipped stack scopes others _ ih =>
    rw [List.findIdx?_cons]
    generalize List.findIdx? _ scopes = distance at ih ⊢
    generalize List.findIdx? _ others = other at ih ⊢
    cases ih with
    | some same => exact .some same
    | none => exact .none

/-- A name is marked in the innermost scope, which is kept. -/
theorem mark (thins : Thins stack scopes others) (kept : stack.head? ≠ some .skipped)
    (change : Names Bool → Names Bool) :
    Thins stack (scopes.modifyHead change) (others.modifyHead change) := by
  cases thins with
  | nil => exact .nil
  | kept thins => exact .kept thins
  | skipped => exact absurd rfl kept

end Thins

/-! ### Code that resolves alike -/

/-- The distances that the fuller and the sparser run know. -/
structure Lookups where
  fuller : Distances
  sparser : Distances

/-- At this place, which has another node in the sparser run, both runs come to the same scope. -/
def Lookups.Same (lookups : Lookups) (change : NodeId → NodeId) (stack : List Standing)
    (node : NodeId) : Prop :=
  SameScope stack (lookups.fuller.get? node) (lookups.sparser.get? (change node))

section

variable (lookups : Lookups) (change : NodeId → NodeId)

mutual

/-- At each variable in the expression, both runs come to the same scope. -/
def Expr.ResolvesAlike (stack : List Standing) : Expr → Prop
  | .literal _ => True
  | .grouping inner => inner.ResolvesAlike stack
  | .unary _ right => right.ResolvesAlike stack
  | .binary left _ right | .logical left _ right =>
    left.ResolvesAlike stack ∧ right.ResolvesAlike stack
  | .ternary condition _ yes no =>
    condition.ResolvesAlike stack ∧ yes.ResolvesAlike stack ∧ no.ResolvesAlike stack
  | .variable node _ => lookups.Same change stack node
  | .assign node _ value => lookups.Same change stack node ∧ value.ResolvesAlike stack
  | .call callee arguments _ => callee.ResolvesAlike stack ∧ argumentsResolveAlike stack arguments
  | .lambda _ body => body.ResolvesAlike stack

/-- All expressions resolve alike. -/
def argumentsResolveAlike (stack : List Standing) : List Expr → Prop
  | [] => True
  | first :: rest => first.ResolvesAlike stack ∧ argumentsResolveAlike stack rest

/-- So it is at each variable in the statement, and nothing is declared in a skipped scope. -/
def Stmt.ResolvesAlike (stack : List Standing) : Stmt → Prop
  | .expression value | .print _ value => value.ResolvesAlike stack
  | .var _ none => stack.head? ≠ some .skipped
  | .var _ (some initializer) => stack.head? ≠ some .skipped ∧ initializer.ResolvesAlike stack
  | .block forms => statementsResolveAlike (.kept :: stack) forms
  | .if condition yes none => condition.ResolvesAlike stack ∧ yes.ResolvesAlike stack
  | .if condition yes (some no) =>
    condition.ResolvesAlike stack ∧ yes.ResolvesAlike stack ∧ no.ResolvesAlike stack
  | .while condition body => condition.ResolvesAlike stack ∧ body.ResolvesAlike stack
  | .function _ body => stack.head? ≠ some .skipped ∧ body.ResolvesAlike stack
  | .return _ none => True
  | .return _ (some value) => value.ResolvesAlike stack

/-- All statements resolve alike. -/
def statementsResolveAlike (stack : List Standing) : List Stmt → Prop
  | [] => True
  | first :: rest => first.ResolvesAlike stack ∧ statementsResolveAlike stack rest

/-- The body resolves alike in its own scope, which is kept. -/
def FunctionBody.ResolvesAlike (stack : List Standing) : FunctionBody → Prop
  | ⟨_, forms⟩ => statementsResolveAlike (.kept :: stack) forms

end

/-- The part resolves alike. -/
def Part.ResolvesAlike (stack : List Standing) : Part → Prop
  | .expression value => value.ResolvesAlike lookups change stack
  | .arguments values => argumentsResolveAlike lookups change stack values
  | .statement form => form.ResolvesAlike lookups change stack
  | .statements forms => statementsResolveAlike lookups change stack forms
  | .function _ body => body.ResolvesAlike lookups change stack
  | .target node _ _ => lookups.Same change stack node

end

/-! ### Where all scopes are kept -/

section

variable {lookups : Lookups} {change : NodeId → NodeId} {stack : List Standing}

/-- All scopes are kept, and so is one more. -/
theorem kept_cons (kept : ∀ standing ∈ stack, standing = .kept) :
    ∀ standing ∈ Standing.kept :: stack, standing = .kept :=
  List.forall_mem_cons.mpr ⟨rfl, kept⟩

/-- What is declared in a scope that is kept is not declared in a skipped one. -/
theorem head_kept (stack : List Standing) : (Standing.kept :: stack).head? ≠ some .skipped :=
  fun same => Standing.noConfusion (Option.some.inj same)

theorem head_of_kept (kept : ∀ standing ∈ stack, standing = .kept) :
    stack.head? ≠ some .skipped := by
  intro isHead
  cases kept _ (List.mem_of_mem_head? isHead)

theorem Lookups.same_of_kept (kept : ∀ standing ∈ stack, standing = .kept) {node : NodeId}
    (same : lookups.sparser.get? (change node) = lookups.fuller.get? node) :
    lookups.Same change stack node := by
  unfold Lookups.Same SameScope
  rw [same]
  cases lookups.fuller.get? node with
  | none => exact .none
  | some distance => exact .some (sparse?_of_kept kept distance)

mutual

theorem Expr.resolvesAlike_of_kept {stack : List Standing}
    (kept : ∀ standing ∈ stack, standing = .kept) :
    (value : Expr) → (∀ node ∈ value.nodes, lookups.sparser.get? (change node) =
      lookups.fuller.get? node) →
      value.ResolvesAlike lookups change stack
  | .literal _, _ => trivial
  | .grouping inner, same => inner.resolvesAlike_of_kept kept same
  | .unary _ right, same => right.resolvesAlike_of_kept kept same
  | .binary left _ right, same | .logical left _ right, same =>
    have both := List.forall_mem_append.mp same
    ⟨left.resolvesAlike_of_kept kept both.1, right.resolvesAlike_of_kept kept both.2⟩
  | .ternary condition _ yes no, same =>
    have both := List.forall_mem_append.mp same
    have first := List.forall_mem_append.mp both.1
    ⟨condition.resolvesAlike_of_kept kept first.1, yes.resolvesAlike_of_kept kept first.2,
      no.resolvesAlike_of_kept kept both.2⟩
  | .variable node _, same => Lookups.same_of_kept kept (same node List.mem_cons_self)
  | .assign node _ value, same =>
    have both := List.forall_mem_append.mp same
    ⟨Lookups.same_of_kept kept (both.2 node List.mem_cons_self),
      value.resolvesAlike_of_kept kept both.1⟩
  | .call callee arguments _, same =>
    have both := List.forall_mem_append.mp same
    ⟨callee.resolvesAlike_of_kept kept both.1, argumentsResolveAlike_of_kept kept arguments both.2⟩
  | .lambda _ body, same => body.resolvesAlike_of_kept kept same

theorem argumentsResolveAlike_of_kept {stack : List Standing}
    (kept : ∀ standing ∈ stack, standing = .kept) :
    (values : List Expr) →
      (∀ node ∈ nodesOfArguments values, lookups.sparser.get? (change node) =
        lookups.fuller.get? node) →
      argumentsResolveAlike lookups change stack values
  | [], _ => trivial
  | first :: rest, same =>
    have both := List.forall_mem_append.mp same
    ⟨first.resolvesAlike_of_kept kept both.1, argumentsResolveAlike_of_kept kept rest both.2⟩

theorem Stmt.resolvesAlike_of_kept {stack : List Standing}
    (kept : ∀ standing ∈ stack, standing = .kept) :
    (form : Stmt) → (∀ node ∈ form.nodes, lookups.sparser.get? (change node) =
      lookups.fuller.get? node) →
      form.ResolvesAlike lookups change stack
  | .expression value, same | .print _ value, same => value.resolvesAlike_of_kept kept same
  | .var _ none, _ => head_of_kept kept
  | .var _ (some initializer), same =>
    ⟨head_of_kept kept, initializer.resolvesAlike_of_kept kept same⟩
  | .block forms, same => statementsResolveAlike_of_kept (kept_cons kept) forms same
  | .if condition yes none, same =>
    have both := List.forall_mem_append.mp same
    ⟨condition.resolvesAlike_of_kept kept both.1, yes.resolvesAlike_of_kept kept both.2⟩
  | .if condition yes (some no), same =>
    have both := List.forall_mem_append.mp same
    have first := List.forall_mem_append.mp both.1
    ⟨condition.resolvesAlike_of_kept kept first.1, yes.resolvesAlike_of_kept kept first.2,
      no.resolvesAlike_of_kept kept both.2⟩
  | .while condition body, same =>
    have both := List.forall_mem_append.mp same
    ⟨condition.resolvesAlike_of_kept kept both.1, body.resolvesAlike_of_kept kept both.2⟩
  | .function _ body, same => ⟨head_of_kept kept, body.resolvesAlike_of_kept kept same⟩
  | .return _ none, _ => trivial
  | .return _ (some value), same => value.resolvesAlike_of_kept kept same

theorem statementsResolveAlike_of_kept {stack : List Standing}
    (kept : ∀ standing ∈ stack, standing = .kept) :
    (forms : List Stmt) →
      (∀ node ∈ nodesOfStatements forms, lookups.sparser.get? (change node) =
        lookups.fuller.get? node) →
      statementsResolveAlike lookups change stack forms
  | [], _ => trivial
  | first :: rest, same =>
    have both := List.forall_mem_append.mp same
    ⟨first.resolvesAlike_of_kept kept both.1, statementsResolveAlike_of_kept kept rest both.2⟩

theorem FunctionBody.resolvesAlike_of_kept {stack : List Standing}
    (kept : ∀ standing ∈ stack, standing = .kept) :
    (body : FunctionBody) → (∀ node ∈ body.nodes, lookups.sparser.get? (change node) =
      lookups.fuller.get? node) →
      body.ResolvesAlike lookups change stack
  | ⟨_, forms⟩, same => statementsResolveAlike_of_kept (kept_cons kept) forms same

end

end

/-! ### Where the distances are those of walks -/

namespace Site

/-- The distances that are known for the variables within the site are those that its walk finds. -/
def Resolves (site : Site) (change : NodeId → NodeId) (distances : Distances) : Prop :=
  ∀ inner node access name, Within site inner → inner.part = .target node access name →
    distances.get? (change node) = distanceTo? name.lexeme inner.walk.scopes

theorem Resolves.of_child {site child : Site} {change : NodeId → NodeId} {distances : Distances}
    (resolves : site.Resolves change distances) (isChild : child ∈ site.children) :
    child.Resolves change distances :=
  fun inner node access name within isTarget =>
    resolves inner node access name (((Within.refl site).step isChild).trans within) isTarget

/-- The parts right within a part do not depend on where it stands. -/
theorem map_part_children (part : Part) (frames others : List Frame) (walk other : Walk) :
    (children ⟨part, frames, walk⟩).map Site.part =
      (children ⟨part, others, other⟩).map Site.part := by
  cases part with
  | expression value => cases value <;> rfl
  | arguments values => cases values <;> rfl
  | statement form =>
    cases form with
    | var _ initializer => cases initializer <;> rfl
    | «if» _ _ no => cases no <;> rfl
    | «return» _ value => cases value <;> rfl
    | _ => rfl
  | statements forms => cases forms <;> rfl
  | function kind body => cases body; rfl
  | target => rfl

/-- Nor does it matter there whether branches and bodies of loops declare anything. -/
theorem WellFormed.anywhere {site : Site} (wellFormed : site.WellFormed) (frames : List Frame)
    (walk : Walk) :
    WellFormed ⟨site.part, frames, walk⟩ := by
  induction site using Site.induction generalizing frames walk with
  | step site ih =>
    obtain ⟨apart, inner⟩ := wellFormed_iff.mp wellFormed
    refine wellFormed_iff.mpr ⟨apart, fun child isChild => ?_⟩
    have isPart : child.part ∈ (children ⟨site.part, site.frames, site.walk⟩).map Site.part :=
      map_part_children site.part frames site.frames walk site.walk ▸ List.mem_map_of_mem isChild
    obtain ⟨original, isOriginal, same⟩ := List.mem_map.mp isPart
    have there := ih original isOriginal (inner original isOriginal) child.frames child.walk
    rwa [same] at there

end Site

/-- What is declared right in the innermost scope is not declared in a skipped one. -/
def Part.KeepsNames (stack : List Standing) : Part → Prop
  | .statement form => form.declared?.isSome → stack.head? ≠ some .skipped
  | .statements _ => stack.head? ≠ some .skipped
  | _ => True

/-- A statement that declares nothing may stand in a skipped scope. -/
theorem keepsNames_of_none {stack : List Standing} {form : Stmt} (nothing : form.declared? = none) :
    Part.KeepsNames stack (.statement form) := by
  intro declares
  rw [nothing] at declares
  cases declares

/-- A statement leaves the open scopes the same but for the skipped ones. -/
theorem Thins.afterStatement {stack : List Standing} {form : Stmt} {frames : List Frame}
    {walk other : Walk} (thins : Thins stack walk.scopes other.scopes)
    (wellFormed : Site.WellFormed ⟨.statement form, frames, walk⟩) (others : List Frame)
    (keeps : Part.KeepsNames stack (.statement form)) :
    Thins stack (form.walk walk).scopes (form.walk other).scopes := by
  have wellFormed' := wellFormed.anywhere others other
  rw [Site.scopes_after wellFormed, Site.scopes_after wellFormed']
  cases declared : form.declared? with
  | none => exact thins
  | some name =>
    show Thins stack (walk.define name).scopes (other.define name).scopes
    rw [Walk.define, Walk.define, Walk.scopes_mark, Walk.scopes_mark]
    exact thins.mark (keeps (by rw [declared]; rfl)) _

/-- An expression leaves the open scopes as they are. -/
theorem Thins.afterExpression {stack : List Standing} {walk other : Walk}
    (thins : Thins stack walk.scopes other.scopes) (value : Expr) :
    Thins stack (value.walk walk).scopes (value.walk other).scopes := by
  rwa [value.scopes_walk, value.scopes_walk]

/-- A name that is declared in a scope that is kept is so in both walks. -/
theorem Thins.declare {stack : List Standing} {walk other : Walk}
    (thins : Thins stack walk.scopes other.scopes) (kept : stack.head? ≠ some .skipped)
    (name : Token) :
    Thins stack (walk.declare name).scopes (other.declare name).scopes := by
  rw [Walk.scopes_declare, Walk.scopes_declare, Walk.scopes_mark, Walk.scopes_mark]
  exact thins.mark kept _

namespace Site

/-- The parts right within a part resolve alike, wherever the scopes there are the same
but for the skipped ones. -/
def InnerResolvesAlike (lookups : Lookups) (change : NodeId → NodeId) (site : Site)
    (others : List Frame) (other : Walk) : Prop :=
  ∀ (part : Part) (stack' : List Standing) {frames' others' : List Frame} (walk' other' : Walk),
    ⟨part, frames', walk'⟩ ∈ site.children →
      ⟨part, others', other'⟩ ∈ children ⟨site.part, others, other⟩ →
      Thins stack' walk'.scopes other'.scopes → part.KeepsNames stack' →
      part.ResolvesAlike lookups change stack'

section

variable {lookups : Lookups} {change : NodeId → NodeId} {stack : List Standing}
  {frames others : List Frame} {walk other : Walk}

theorem resolvesAlike_expression {value : Expr}
    (inner : InnerResolvesAlike lookups change ⟨.expression value, frames, walk⟩ others other)
    (thins : Thins stack walk.scopes other.scopes) : value.ResolvesAlike lookups change stack := by
  have expression (first : Expr) {walk' other' : Walk}
      (isChild : ⟨.expression first, frames, walk'⟩ ∈ children ⟨.expression value, frames, walk⟩)
      (isChild' : ⟨.expression first, others, other'⟩ ∈ children ⟨.expression value, others, other⟩)
      (thins' : Thins stack walk'.scopes other'.scopes) :
        first.ResolvesAlike lookups change stack :=
    inner (.expression first) stack walk' other' isChild isChild' thins' trivial
  cases value with
  | literal => exact trivial
  | grouping value | unary _ value =>
    exact expression value List.mem_cons_self List.mem_cons_self thins
  | binary left _ right | logical left _ right =>
    exact ⟨expression left List.mem_cons_self List.mem_cons_self thins,
      expression right (by simp [children, Expr.sites]) (by simp [children, Expr.sites])
        (thins.afterExpression left)⟩
  | ternary condition _ yes no =>
    have decided := thins.afterExpression condition
    exact ⟨expression condition List.mem_cons_self List.mem_cons_self thins,
      expression yes (by simp [children, Expr.sites]) (by simp [children, Expr.sites]) decided,
      expression no (by simp [children, Expr.sites]) (by simp [children, Expr.sites])
        (decided.afterExpression yes)⟩
  | «variable» node name =>
    exact inner (.target node .read name) stack walk other List.mem_cons_self
      List.mem_cons_self thins trivial
  | assign node name value =>
    have last {frames : List Frame} {walk : Walk} :
        ⟨.target node .write name, frames, value.walk walk⟩ ∈
        children ⟨.expression (.assign node name value), frames, walk⟩ :=
          List.mem_cons_of_mem _ List.mem_cons_self
    exact ⟨inner (.target node .write name) stack _ _ last last
      (thins.afterExpression value) trivial,
      expression value List.mem_cons_self List.mem_cons_self thins⟩
  | call callee arguments _ =>
    exact ⟨expression callee List.mem_cons_self List.mem_cons_self thins,
      inner (.arguments arguments) stack (callee.walk walk)
        (callee.walk other) arguments_child arguments_child (thins.afterExpression callee) trivial⟩
  | lambda _ body =>
    exact inner (.function .lambda body) stack walk other lambda_child lambda_child thins trivial

theorem resolvesAlike_statement {form : Stmt}
    (wellFormed : WellFormed ⟨.statement form, frames, walk⟩)
    (inner : InnerResolvesAlike lookups change ⟨.statement form, frames, walk⟩ others other)
    (thins : Thins stack walk.scopes other.scopes)
      (keeps : Part.KeepsNames stack (.statement form)) :
    form.ResolvesAlike lookups change stack := by
  have expression (value : Expr) {walk' other' : Walk}
      (isChild : ⟨.expression value, frames, walk'⟩ ∈ children ⟨.statement form, frames, walk⟩)
      (isChild' : ⟨.expression value, others, other'⟩ ∈ children ⟨.statement form, others, other⟩)
      (thins' : Thins stack walk'.scopes other'.scopes) :
        value.ResolvesAlike lookups change stack :=
    inner (.expression value) stack walk' other' isChild isChild' thins' trivial
  have branch (inside : Stmt) (nothing : inside.declared? = none) {walk' other' : Walk}
      (isChild : ⟨.statement inside, frames, walk'⟩ ∈ children ⟨.statement form, frames, walk⟩)
      (isChild' : ⟨.statement inside, others, other'⟩ ∈ children ⟨.statement form, others, other⟩)
      (thins' : Thins stack walk'.scopes other'.scopes) :
        inside.ResolvesAlike lookups change stack :=
    inner (.statement inside) stack walk' other' isChild isChild' thins'
      (keepsNames_of_none nothing)
  have apart := (wellFormed_iff.mp wellFormed).1
  cases form with
  | expression value | print _ value =>
    exact expression value List.mem_cons_self List.mem_cons_self thins
  | var name initializer =>
    have kept := keeps rfl
    cases initializer with
    | none => exact kept
    | some initializer =>
      exact ⟨kept, expression initializer List.mem_cons_self List.mem_cons_self
        (thins.declare kept name)⟩
  | block forms =>
    exact inner (.statements forms) (.kept :: stack) walk.openScope other.openScope
      block_child block_child (.kept thins) (head_kept stack)
  | «if» condition yes no =>
    have decided := thins.afterExpression condition
    cases no with
    | none =>
      exact ⟨expression condition List.mem_cons_self List.mem_cons_self thins,
        branch yes apart.1 (by simp [children, Stmt.sites])
          (by simp [children, Stmt.sites]) decided⟩
    | some no =>
      have isYes : WellFormed ⟨.statement yes, frames, condition.walk walk⟩ :=
        wellFormed.of_child (by simp [children, Stmt.sites])
      exact ⟨expression condition List.mem_cons_self List.mem_cons_self thins,
        branch yes apart.1 (by simp [children, Stmt.sites])
          (by simp [children, Stmt.sites]) decided,
        branch no (apart.2 no rfl) (by simp [children, Stmt.sites]) (by simp [children, Stmt.sites])
          (decided.afterStatement isYes others (keepsNames_of_none apart.1))⟩
  | «while» condition body =>
    exact ⟨expression condition List.mem_cons_self List.mem_cons_self thins,
      branch body apart (by simp [children, Stmt.sites]) (by simp [children, Stmt.sites])
        (thins.afterExpression condition)⟩
  | function name body =>
    have kept := keeps rfl
    refine ⟨kept, inner (.function .function body) stack _ _ function_child
      function_child ?_ trivial⟩
    rw [Walk.scopes_define_of_declare rfl, Walk.scopes_define_of_declare rfl,
      Walk.define, Walk.define, Walk.scopes_mark, Walk.scopes_mark]
    exact thins.mark kept _
  | «return» keyword value =>
    cases value with
    | none => exact trivial
    | some value =>
      refine expression value List.mem_cons_self List.mem_cons_self ?_
      rwa [Walk.scopes_checkReturn, Walk.scopes_checkReturn]

end

/-- **Code resolves alike where each run knows the distances that a walk of its own has found.** -/
theorem resolvesAlike {lookups : Lookups} {change : NodeId → NodeId} (site : Site)
    {stack : List Standing} {others : List Frame} {other : Walk}
    (thins : Thins stack site.walk.scopes other.scopes) (wellFormed : site.WellFormed)
    (keeps : site.part.KeepsNames stack) (fuller : site.Resolves id lookups.fuller)
    (sparser : Site.Resolves ⟨site.part, others, other⟩ change lookups.sparser) :
    site.part.ResolvesAlike lookups change stack := by
  induction site using Site.induction generalizing stack others other with
  | step site ih =>
    obtain ⟨part, frames, walk⟩ := site
    have inner : InnerResolvesAlike lookups change ⟨part, frames, walk⟩ others other :=
      fun _ _ _ _ _ _ isChild isChild' thins' keeps' => ih _ isChild thins'
        (wellFormed.of_child isChild) keeps' (fuller.of_child isChild) (sparser.of_child isChild')
    cases part with
    | expression value => exact resolvesAlike_expression inner thins
    | statement form => exact resolvesAlike_statement wellFormed inner thins keeps
    | arguments values =>
      cases values with
      | nil => exact trivial
      | cons first rest =>
        exact ⟨inner (.expression first) stack walk other firstArgument_child
          firstArgument_child thins trivial, inner (.arguments rest) stack
          (first.walk walk) (first.walk other) moreArguments_child moreArguments_child
            (Thins.afterExpression thins first) trivial⟩
    | statements forms =>
      cases forms with
      | nil => exact trivial
      | cons first rest =>
        have isFirst := wellFormed.of_child firstStatement_child
        exact ⟨inner (.statement first) stack walk other firstStatement_child
            firstStatement_child thins fun _ => keeps,
          inner (.statements rest) stack (first.walk walk) (first.walk other) moreStatements_child
            moreStatements_child (Thins.afterStatement thins isFirst others fun _ => keeps) keeps⟩
    | function kind body =>
      obtain ⟨parameters, forms⟩ := body
      refine inner (.statements forms) (.kept :: stack) (walk.enterFunction kind parameters)
        (other.enterFunction kind parameters) body_child body_child ?_ (head_kept stack)
      rw [Walk.scopes_enterFunction, Walk.scopes_enterFunction]
      exact .kept thins
    | target node access name =>
      have same := thins.distanceTo? name.lexeme
      rwa [← fuller _ node access name (.refl _) rfl, ← sparser _ node access name (.refl _) rfl]
        at same

end Site

end Lox
