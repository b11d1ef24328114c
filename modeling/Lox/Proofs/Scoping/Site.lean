/-
**Sites in the text of a program.**

* `Part` — what stands at a site: an expression, a statement, a list of them, the body of a
  function, or the variable that is read or assigned there.
* `Frame` — what opens a scope: a block, or the body of a function.
* `Site` — a part, the blocks and the bodies around it, innermost first, and what the walk over the
  program knows when it comes there.
* `Site.children` — the sites right within one, in the order of the walk.
* `Within` — a site is another one, or somewhere within it.
* `Site.induction` — what a site has because its children have it, all sites have.
-/

import Lox.Scoping
import Mathlib.Logic.Relation

namespace Lox

/-- What stands at a site. -/
inductive Part where
  | expression (value : Expr)
  | arguments (values : List Expr)
  | statement (form : Stmt)
  | statements (forms : List Stmt)
  | function (kind : FunctionKind) (body : FunctionBody)
  /-- The variable that is read or assigned. -/
  | target (node : NodeId) (access : Access) (name : Token)

/-- The kind of a function that has this name, if it has any: only a statement gives it one. -/
def FunctionKind.ofName : (name : Option String) → FunctionKind
  | some _ => .function
  | none => .lambda

/-- What opens a scope. -/
inductive Frame where
  | block (forms : List Stmt)
  | function (kind : FunctionKind) (body : FunctionBody)

/-- The part whose scope a frame is. -/
def Frame.part : Frame → Part
  | .block forms => .statement (.block forms)
  | .function kind body => .function kind body

namespace Part

/-- The walk over a part. -/
def walk : Part → Walk → Walk
  | .expression value, walk => value.walk walk
  | .arguments values, walk => walkAll values walk
  | .statement form, walk => form.walk walk
  | .statements forms, walk => walkStatements forms walk
  | .function kind body, walk => body.walk kind walk
  | .target node .read name, walk => walk.readVariable node name
  | .target node .write name, walk => walk.refer node .write name

/-- A number that is less for the parts of a part. -/
noncomputable def weight : Part → Nat
  | .expression value => sizeOf value
  | .arguments values => sizeOf values
  | .statement form => sizeOf form
  | .statements forms => sizeOf forms
  | .function _ body => sizeOf body
  | .target .. => 0

end Part

/-- A site in the text of a program. -/
structure Site where
  part : Part
  /-- The blocks and the bodies of functions around the site, innermost first. -/
  frames : List Frame
  /-- What the walk knows when it comes to the site. -/
  walk : Walk

/-! ### What stands right within a part -/

/-- The sites right within an expression. -/
def Expr.sites (frames : List Frame) (walk : Walk) : Expr → List Site
  | .literal _ => []
  | .grouping inner => [⟨.expression inner, frames, walk⟩]
  | .unary _ right => [⟨.expression right, frames, walk⟩]
  | .binary left _ right | .logical left _ right =>
    [⟨.expression left, frames, walk⟩, ⟨.expression right, frames, left.walk walk⟩]
  | .ternary condition _ yes no =>
    [⟨.expression condition, frames, walk⟩, ⟨.expression yes, frames, condition.walk walk⟩,
      ⟨.expression no, frames, yes.walk (condition.walk walk)⟩]
  | .variable node name => [⟨.target node .read name, frames, walk⟩]
  | .assign node name value =>
    [⟨.expression value, frames, walk⟩, ⟨.target node .write name, frames, value.walk walk⟩]
  | .call callee arguments _ =>
    [⟨.expression callee, frames, walk⟩, ⟨.arguments arguments, frames, callee.walk walk⟩]
  | .lambda _ body => [⟨.function .lambda body, frames, walk⟩]

/-- The sites right within a statement. -/
def Stmt.sites (frames : List Frame) (walk : Walk) : Stmt → List Site
  | .expression value | .print _ value => [⟨.expression value, frames, walk⟩]
  | .var _ none => []
  | .var name (some initializer) => [⟨.expression initializer, frames, walk.declare name⟩]
  | .block forms => [⟨.statements forms, .block forms :: frames, walk.openScope⟩]
  | .if condition yes none =>
    [⟨.expression condition, frames, walk⟩, ⟨.statement yes, frames, condition.walk walk⟩]
  | .if condition yes (some no) =>
    [⟨.expression condition, frames, walk⟩, ⟨.statement yes, frames, condition.walk walk⟩,
      ⟨.statement no, frames, yes.walk (condition.walk walk)⟩]
  | .while condition body =>
    [⟨.expression condition, frames, walk⟩, ⟨.statement body, frames, condition.walk walk⟩]
  | .function name body => [⟨.function .function body, frames, (walk.declare name).define name⟩]
  | .return _ none => []
  | .return keyword (some value) => [⟨.expression value, frames, walk.checkReturn keyword⟩]

namespace Site

/-- A part in no block and no function. -/
def outermost (part : Part) : Site :=
  ⟨part, [], .start⟩

/-- What the walk knows when it leaves the site. -/
def after (site : Site) : Walk :=
  site.part.walk site.walk

/-- The sites right within a site, in the order in which the walk comes to them. -/
def children : Site → List Site
  | ⟨.expression value, frames, walk⟩ => value.sites frames walk
  | ⟨.arguments [], _, _⟩ => []
  | ⟨.arguments (first :: rest), frames, walk⟩ =>
    [⟨.expression first, frames, walk⟩, ⟨.arguments rest, frames, first.walk walk⟩]
  | ⟨.statement form, frames, walk⟩ => form.sites frames walk
  | ⟨.statements [], _, _⟩ => []
  | ⟨.statements (first :: rest), frames, walk⟩ =>
    [⟨.statement first, frames, walk⟩, ⟨.statements rest, frames, first.walk walk⟩]
  | ⟨.function kind ⟨parameters, forms⟩, frames, walk⟩ =>
    [⟨.statements forms, .function kind ⟨parameters, forms⟩ :: frames,
      walk.enterFunction kind parameters⟩]
  | ⟨.target .., _, _⟩ => []

/-! ### Where the parts of a part stand -/

section

variable {frames : List Frame} {walk : Walk}

theorem lambda_child {keyword : Token} {body : FunctionBody} :
    ⟨.function .lambda body, frames, walk⟩ ∈ children
      ⟨.expression (.lambda keyword body), frames, walk⟩ :=
  List.mem_cons_self

theorem arguments_child {callee : Expr} {arguments : List Expr} {closing : Token} :
    ⟨.arguments arguments, frames, callee.walk walk⟩ ∈
      children ⟨.expression (.call callee arguments closing), frames, walk⟩ :=
  List.mem_cons_of_mem _ List.mem_cons_self

theorem firstArgument_child {first : Expr} {rest : List Expr} :
    ⟨.expression first, frames, walk⟩ ∈ children ⟨.arguments (first :: rest), frames, walk⟩ :=
  List.mem_cons_self

theorem moreArguments_child {first : Expr} {rest : List Expr} :
    ⟨.arguments rest, frames, first.walk walk⟩ ∈ children
      ⟨.arguments (first :: rest), frames, walk⟩ :=
  List.mem_cons_of_mem _ List.mem_cons_self

theorem firstStatement_child {first : Stmt} {rest : List Stmt} :
    ⟨.statement first, frames, walk⟩ ∈ children ⟨.statements (first :: rest), frames, walk⟩ :=
  List.mem_cons_self

theorem moreStatements_child {first : Stmt} {rest : List Stmt} :
    ⟨.statements rest, frames, first.walk walk⟩ ∈ children
      ⟨.statements (first :: rest), frames, walk⟩ :=
  List.mem_cons_of_mem _ List.mem_cons_self

theorem block_child {forms : List Stmt} :
    ⟨.statements forms, .block forms :: frames, walk.openScope⟩ ∈
      children ⟨.statement (.block forms), frames, walk⟩ :=
  List.mem_cons_self

theorem function_child {name : Token} {body : FunctionBody} :
    ⟨.function .function body, frames, (walk.declare name).define name⟩ ∈
      children ⟨.statement (.function name body), frames, walk⟩ :=
  List.mem_cons_self

theorem body_child {kind : FunctionKind} {parameters : List Token} {forms : List Stmt} :
    ⟨.statements forms, .function kind ⟨parameters, forms⟩ :: frames,
        walk.enterFunction kind parameters⟩ ∈
      children ⟨.function kind ⟨parameters, forms⟩, frames, walk⟩ :=
  List.mem_cons_self

end

/-- A part of a part weighs less. -/
theorem weight_lt {site child : Site} (isChild : child ∈ site.children) :
    child.part.weight < site.part.weight := by
  obtain ⟨part, frames, walk⟩ := site
  cases part with
  | expression value =>
    cases value <;> simp [children, Expr.sites] at isChild <;> grind [Part.weight]
  | arguments values =>
    cases values <;> simp [children] at isChild
    grind [Part.weight]
  | statement form =>
    cases form with
    | var _ initializer =>
      cases initializer <;> simp [children, Stmt.sites] at isChild
      grind [Part.weight]
    | «if» _ _ no =>
      cases no <;> simp [children, Stmt.sites] at isChild <;> grind [Part.weight]
    | «return» _ value =>
      cases value <;> simp [children, Stmt.sites] at isChild
      grind [Part.weight]
    | _ => simp [children, Stmt.sites] at isChild; grind [Part.weight]
  | statements forms =>
    cases forms <;> simp [children] at isChild
    grind [Part.weight]
  | function kind body => simp [children] at isChild; grind [Part.weight]
  | target => simp [children] at isChild

/-- **What a site has because the sites right within it have it, all sites have.** -/
theorem induction {holds : Site → Prop}
    (step : ∀ site, (∀ child ∈ site.children, holds child) → holds site) (site : Site) :
    holds site := by
  induction weight : site.part.weight using Nat.strongRecOn generalizing site with
  | ind bound ih =>
    refine step site fun child isChild => ?_
    exact ih child.part.weight (weight ▸ weight_lt isChild) child rfl

end Site

/-! ### Sites within sites -/

/-- A site is this one, or somewhere within it. -/
def Within (root site : Site) : Prop :=
  Relation.ReflTransGen (fun site child => child ∈ site.children) root site

namespace Within

variable {root site child : Site}

theorem refl (site : Site) : Within site site :=
  Relation.ReflTransGen.refl

theorem step (within : Within root site) (isChild : child ∈ site.children) : Within root child :=
  Relation.ReflTransGen.tail within isChild

theorem trans (within : Within root site) (further : Within site child) : Within root child :=
  Relation.ReflTransGen.trans within further

/-- Within a site is the site itself and what is within its children. -/
theorem iff_children :
    Within root site ↔ site = root ∨ ∃ child ∈ root.children, Within child site := by
  rw [Within, Relation.ReflTransGen.cases_head_iff]
  exact or_congr_left eq_comm

theorem weight_le (within : Within root site) : site.part.weight ≤ root.part.weight := by
  induction within with
  | refl => exact Nat.le_refl _
  | tail _ isChild ih => exact Nat.le_trans (Nat.le_of_lt (Site.weight_lt isChild)) ih

/-- Within a site there is another site with the same part nowhere. -/
theorem eq_of_part_eq (within : Within root site) (same : site.part = root.part) : site = root := by
  rcases iff_children.mp within with rfl | ⟨child, isChild, within⟩
  · rfl
  · have lighter := Site.weight_lt isChild
    have := within.weight_le
    rw [same] at this
    omega

end Within

end Lox
