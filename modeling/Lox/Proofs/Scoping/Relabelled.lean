/-
**What the walk finds in relabelled trees, and in two texts one after the other.**

* `Walk.Relabels` — a walk over relabelled trees that has the same scopes open and has found the
  relabelled references, and the same defects at the relabelled tokens.
* `Site.relabels` — so it is after each part, if names keep their lexemes.
* `resolve_relabel`, `resolve_append` — the references of a relabelled program, and those of two
  programs one after the other.
* `resolve_renumber`, `resolveExpression_renumber` — where only nodes become
  others, the same is wrong.
* `Site.currentFunction_after` — the walk leaves a part within the function that
  it came to it in, if any.
-/

import Lox.Proofs.Relabelling
import Lox.Proofs.Scoping.Nodes

namespace Lox

/-! ### Relabelled walks -/

/-- The reference with another node and another name token. -/
def Reference.relabel (change : Relabelling) (reference : Reference) : Reference :=
  ⟨change.node reference.node, reference.access, change.token reference.name, reference.distance⟩

/-- The same defect, at a token and at what it becomes. -/
def Diagnostic.Relabels (change : Relabelling) (first second : Diagnostic) : Prop :=
  ∃ token defect, first = .atToken token defect ∧ second = .atToken (change.token token) defect

/-- The second walk knows the same, of relabelled trees. -/
structure Walk.Relabels (change : Relabelling) (walk later : Walk) : Prop where
  scopes : later.scopes = walk.scopes
  currentFunction : later.currentFunction = walk.currentFunction
  references : later.references = walk.references.map (Reference.relabel change)
  diagnostics : List.Forall₂ (Diagnostic.Relabels change) walk.diagnostics later.diagnostics

/-- Names keep their lexemes. -/
def Relabelling.KeepsLexemes (change : Relabelling) : Prop :=
  ∀ token, (change.token token).lexeme = token.lexeme

namespace Walk.Relabels

variable {change : Relabelling} {walk later : Walk}

/-- Neither walk has found a defect, or both have. -/
theorem clean (relabels : walk.Relabels change later) :
    later.diagnostics = [] ↔ walk.diagnostics = [] := by
  rw [← List.length_eq_zero_iff, ← List.length_eq_zero_iff, relabels.diagnostics.length_eq]

/-- Where tokens stay as they are, so do the diagnostics. -/
theorem sameDiagnostics {node : NodeId → NodeId} (relabels : walk.Relabels ⟨node, id⟩ later) :
    later.diagnostics = walk.diagnostics := by
  have same : List.Forall₂ Eq walk.diagnostics later.diagnostics := by
    refine relabels.diagnostics.imp ?_
    rintro first second ⟨token, defect, rfl, rfl⟩
    rfl
  exact (List.forall₂_eq_eq_eq ▸ same : walk.diagnostics = later.diagnostics).symm

theorem record (relabels : walk.Relabels change later) (token : Token) (defect : Defect) :
    (walk.record token defect).Relabels change (later.record (change.token token) defect) :=
  ⟨relabels.scopes, relabels.currentFunction, relabels.references,
    List.rel_append relabels.diagnostics (.cons ⟨token, defect, rfl, rfl⟩ .nil)⟩

theorem openScope (relabels : walk.Relabels change later) :
    walk.openScope.Relabels change later.openScope :=
  ⟨congrArg ([] :: ·) relabels.scopes, relabels.currentFunction, relabels.references,
    relabels.diagnostics⟩

theorem closeScope (relabels : walk.Relabels change later) :
    walk.closeScope.Relabels change later.closeScope :=
  ⟨congrArg List.tail relabels.scopes, relabels.currentFunction, relabels.references,
    relabels.diagnostics⟩

theorem checkReturn (relabels : walk.Relabels change later) (keyword : Token) :
    (walk.checkReturn keyword).Relabels change (later.checkReturn (change.token keyword)) := by
  unfold Walk.checkReturn
  rw [relabels.currentFunction]
  by_cases outside : walk.currentFunction = none
  · rw [if_pos outside, if_pos outside]
    exact relabels.record keyword _
  · rw [if_neg outside, if_neg outside]
    exact relabels

variable (keeps : change.KeepsLexemes)

include keeps

theorem mark (relabels : walk.Relabels change later) (name : Token) (readable : Bool) :
    (walk.mark name readable).Relabels change (later.mark (change.token name) readable) := by
  unfold Walk.mark
  rw [relabels.scopes, keeps name]
  cases walk.scopes with
  | nil => exact relabels
  | cons => exact ⟨rfl, relabels.currentFunction, relabels.references, relabels.diagnostics⟩

theorem declare (relabels : walk.Relabels change later) (name : Token) :
    (walk.declare name).Relabels change (later.declare (change.token name)) := by
  unfold Walk.declare Walk.innermost?
  dsimp only
  rw [relabels.scopes, keeps name]
  by_cases twice : walk.scopes.head?.any (·.has name.lexeme) = true
  · rw [if_pos twice, if_pos twice]
    exact (relabels.mark keeps name false).record _ _
  · rw [if_neg twice, if_neg twice]
    exact relabels.mark keeps name false

theorem define (relabels : walk.Relabels change later) (name : Token) :
    (walk.define name).Relabels change (later.define (change.token name)) :=
  relabels.mark keeps name true

theorem refer (relabels : walk.Relabels change later) (node : NodeId) (access : Access)
    (name : Token) :
    (walk.refer node access name).Relabels change
      (later.refer (change.node node) access (change.token name)) := by
  refine ⟨relabels.scopes, relabels.currentFunction, ?_, relabels.diagnostics⟩
  unfold Walk.refer
  dsimp only
  rw [relabels.references, relabels.scopes, keeps name, List.map_append]
  rfl

theorem readVariable (relabels : walk.Relabels change later) (node : NodeId) (name : Token) :
    (walk.readVariable node name).Relabels change
      (later.readVariable (change.node node) (change.token name)) := by
  unfold Walk.readVariable
  have same : later.inOwnInitializer (change.token name) = walk.inOwnInitializer name := by
    unfold Walk.inOwnInitializer Walk.innermost?
    rw [relabels.scopes, keeps name]
  rw [same]
  by_cases own : walk.inOwnInitializer name = true
  · rw [if_pos own, if_pos own]
    exact (relabels.record _ _).refer keeps node .read name
  · rw [if_neg own, if_neg own]
    exact relabels.refer keeps node .read name

theorem enterFunction (relabels : walk.Relabels change later) (kind : FunctionKind)
    (parameters : List Token) :
    (walk.enterFunction kind parameters).Relabels change
      (later.enterFunction kind (parameters.map change.token)) := by
  unfold Walk.enterFunction
  have entered : Walk.Relabels change { walk.openScope with currentFunction := some kind }
      { later.openScope with currentFunction := some kind } :=
    ⟨relabels.openScope.scopes, rfl, relabels.references, relabels.diagnostics⟩
  revert entered
  generalize ({ walk.openScope with currentFunction := some kind } : Walk) = outer
  generalize ({ later.openScope with currentFunction := some kind } : Walk) = other
  intro entered
  induction parameters generalizing outer other with
  | nil => exact entered
  | cons first rest ih => exact ih _ _ ((entered.declare keeps first).define keeps first)

end Walk.Relabels

theorem Walk.Relabels.start (change : Relabelling) : Walk.start.Relabels change .start :=
  ⟨rfl, rfl, rfl, .nil⟩

/-- **The walk over a relabelled part finds the relabelled references.** -/
theorem Site.relabels {change : Relabelling} (keeps : change.KeepsLexemes) (site : Site)
    {later : Walk} (relabels : site.walk.Relabels change later) :
    site.after.Relabels change ((site.part.relabel change).walk later) := by
  induction site using Site.induction generalizing later with
  | step site ih =>
    obtain ⟨part, frames, walk⟩ := site
    cases part with
    | expression value =>
      have inner : ∀ (value' : Expr) (between : Walk) {later : Walk},
          Site.mk (.expression value') frames between ∈ value.sites frames walk →
          between.Relabels change later →
          (value'.walk between).Relabels change ((value'.relabel change).walk later) :=
        fun _ _ _ isChild relabels => ih _ isChild relabels
      cases value with
      | literal => exact relabels
      | grouping value | unary _ value => exact inner value walk (by simp [Expr.sites]) relabels
      | binary left _ right | logical left _ right =>
        have first := inner left walk (by simp [Expr.sites]) relabels
        exact inner right (left.walk walk) (by simp [Expr.sites]) first
      | ternary condition _ yes no =>
        have decided := inner condition walk (by simp [Expr.sites]) relabels
        have first := inner yes (condition.walk walk) (by simp [Expr.sites]) decided
        exact inner no (yes.walk (condition.walk walk)) (by simp [Expr.sites]) first
      | «variable» node name => exact relabels.readVariable keeps node name
      | assign node name value =>
        exact (inner value walk (by simp [Expr.sites]) relabels).refer keeps node .write name
      | call callee arguments closing =>
        exact ih ⟨.arguments arguments, frames, callee.walk walk⟩ (by simp [children, Expr.sites])
          (inner callee walk (by simp [Expr.sites]) relabels)
      | lambda keyword body =>
        exact ih ⟨.function .lambda body, frames, walk⟩ (by simp [children, Expr.sites]) relabels
    | arguments values =>
      cases values with
      | nil => exact relabels
      | cons first rest =>
        exact ih ⟨.arguments rest, frames, first.walk walk⟩ (by simp [children])
          (ih ⟨.expression first, frames, walk⟩ (by simp [children]) relabels)
    | statement form =>
      cases form with
      | expression value | print _ value =>
        exact ih ⟨.expression value, frames, walk⟩ (by simp [children, Stmt.sites]) relabels
      | var name initializer =>
        have declared := relabels.declare keeps name
        cases initializer with
        | none => exact declared.define keeps name
        | some initializer =>
          exact (ih ⟨.expression initializer, frames, walk.declare name⟩
            (by simp [children, Stmt.sites]) declared).define keeps name
      | block forms =>
        exact (ih ⟨.statements forms, .block forms :: frames, walk.openScope⟩
          (by simp [children, Stmt.sites]) relabels.openScope).closeScope
      | «if» condition yes no =>
        cases no with
        | none =>
          have decided := ih ⟨.expression condition, frames, walk⟩
            (by simp [children, Stmt.sites]) relabels
          exact ih ⟨.statement yes, frames, condition.walk walk⟩
            (by simp [children, Stmt.sites]) decided
        | some no =>
          have decided := ih ⟨.expression condition, frames, walk⟩
            (by simp [children, Stmt.sites]) relabels
          have first :=
            ih ⟨.statement yes, frames, condition.walk walk⟩
              (by simp [children, Stmt.sites]) decided
          exact ih ⟨.statement no, frames, yes.walk (condition.walk walk)⟩
            (by simp [children, Stmt.sites]) first
      | «while» condition body =>
        have decided := ih ⟨.expression condition, frames, walk⟩
          (by simp [children, Stmt.sites]) relabels
        exact ih ⟨.statement body, frames, condition.walk walk⟩
          (by simp [children, Stmt.sites]) decided
      | function name body =>
        exact ih ⟨.function .function body, frames, (walk.declare name).define name⟩
          (by simp [children, Stmt.sites]) ((relabels.declare keeps name).define keeps name)
      | «return» keyword value =>
        have checked := relabels.checkReturn keyword
        cases value with
        | none => exact checked
        | some value =>
          exact ih ⟨.expression value, frames, walk.checkReturn keyword⟩
            (by simp [children, Stmt.sites]) checked
    | statements forms =>
      cases forms with
      | nil => exact relabels
      | cons first rest =>
        exact ih ⟨.statements rest, frames, first.walk walk⟩ (by simp [children])
          (ih ⟨.statement first, frames, walk⟩ (by simp [children]) relabels)
    | function kind body =>
      obtain ⟨parameters, forms⟩ := body
      have inside := ih ⟨.statements forms, _, walk.enterFunction kind parameters⟩
        (by simp [children]; rfl) (relabels.enterFunction keeps kind parameters)
      have closed := inside.closeScope
      exact ⟨closed.scopes, relabels.currentFunction, closed.references, closed.diagnostics⟩
    | target node access name =>
      cases access with
      | read => exact relabels.readVariable keeps node name
      | write => exact relabels.refer keeps node .write name

/-! ### Within functions or not -/

@[simp] theorem Walk.currentFunction_mark (walk : Walk) (name : Token) (readable : Bool) :
    (walk.mark name readable).currentFunction = walk.currentFunction := by
  unfold mark
  split <;> rfl

@[simp] theorem Walk.currentFunction_declare (walk : Walk) (name : Token) :
    (walk.declare name).currentFunction = walk.currentFunction := by
  unfold declare
  dsimp only
  split <;> simp [record]

@[simp] theorem Walk.currentFunction_define (walk : Walk) (name : Token) :
    (walk.define name).currentFunction = walk.currentFunction :=
  Walk.currentFunction_mark walk name true

@[simp] theorem Walk.currentFunction_readVariable (walk : Walk) (node : NodeId) (name : Token) :
    (walk.readVariable node name).currentFunction = walk.currentFunction := by
  unfold readVariable
  dsimp only
  split <;> rfl

@[simp] theorem Walk.currentFunction_checkReturn (walk : Walk) (keyword : Token) :
    (walk.checkReturn keyword).currentFunction = walk.currentFunction := by
  unfold checkReturn
  split <;> rfl

namespace Site

/-- **The walk leaves a part within the function that it came to it in, if any.** -/
theorem currentFunction_after (site : Site) :
    site.after.currentFunction = site.walk.currentFunction := by
  induction site using Site.induction with
  | step site ih =>
    obtain ⟨part, frames, walk⟩ := site
    cases part with
    | expression value =>
      cases value <;> simp_all [children, Expr.sites, after, Part.walk, Expr.walk, Walk.refer]
    | arguments values => cases values <;> simp_all [children, after, Part.walk, walkAll]
    | statement form =>
      cases form with
      | var _ initializer =>
        cases initializer <;> simp_all [children, Stmt.sites, after, Part.walk, Stmt.walk]
      | «if» _ _ no => cases no <;> simp_all [children, Stmt.sites, after, Part.walk, Stmt.walk]
      | «return» _ value => cases value <;> simp_all [children, Stmt.sites,
          after, Part.walk, Stmt.walk]
      | _ => simp_all [children, Stmt.sites, after, Part.walk, Stmt.walk,
          Walk.openScope, Walk.closeScope]
    | statements forms => cases forms <;> simp_all [children, after, Part.walk, walkStatements]
    | function kind body =>
      cases body
      simp [after, Part.walk, FunctionBody.walk, Walk.leaveFunction]
    | target node access name => cases access <;> simp [after, Part.walk, Walk.refer]

end Site

/-! ### Programs -/

variable {first second : List Stmt} {references others : List Reference}

theorem walkStatements_append (first second : List Stmt) (walk : Walk) :
    walkStatements (first ++ second) walk = walkStatements second (walkStatements first walk) := by
  induction first generalizing walk with
  | nil => rfl
  | cons form rest ih => exact ih (form.walk walk)

/-- A program that is resolved leaves the walk as it was at its start, but for the references. -/
theorem walk_of_resolved (resolved : resolve first = .ok references) :
    walkStatements first .start = Walk.start.prepend references [] := by
  have settled := Site.settles ⟨.statements first, [], .start⟩
  have currentFunction := Site.currentFunction_after ⟨.statements first, [], .start⟩
  have scopes : (walkStatements first .start).scopes = [] := List.eq_nil_of_length_eq_zero settled.2
  obtain ⟨clean, found⟩ := Walk.result_eq_ok.mp resolved
  cases walked : walkStatements first .start with
  | mk open' current found' defects =>
    rw [walked] at scopes clean found
    obtain rfl : open' = [] := scopes
    obtain rfl : defects = [] := clean
    obtain rfl : found' = references := found
    have outside : current = none := by
      have same : (walkStatements first .start).currentFunction = none := currentFunction
      rw [walked] at same
      exact same
    rw [outside, Walk.prepend, Walk.start, List.append_nil, List.append_nil]

/-- **The references of two programs, one after the other, are those of each.** -/
theorem resolve_append (resolved : resolve first = .ok references)
    (resolvedOther : resolve second = .ok others) :
    resolve (first ++ second) = .ok (references ++ others) := by
  obtain ⟨clean, found⟩ := Walk.result_eq_ok.mp resolvedOther
  have both : walkStatements second (Walk.start.prepend references []) =
      (walkStatements second .start).prepend references [] :=
    Site.after_prepend ⟨.statements second, [], .start⟩ references []
  refine Walk.result_eq_ok.mpr ?_
  rw [walkStatements_append, walk_of_resolved resolved, both]
  exact ⟨clean, congrArg (references ++ ·) found⟩

/-- **The references of a relabelled program are relabelled.** -/
theorem resolve_relabel {change : Relabelling} (keeps : change.KeepsLexemes)
    (resolved : resolve first = .ok references) :
    resolve (relabelStatements change first) = .ok (references.map (Reference.relabel change)) := by
  obtain ⟨clean, rfl⟩ := Walk.result_eq_ok.mp resolved
  have relabels := Site.relabels keeps ⟨.statements first, [], .start⟩ (.start change)
  exact Walk.result_eq_ok.mpr ⟨relabels.clean.mpr clean, relabels.references⟩

/-- What a walk has found over trees in which only the nodes are others. -/
theorem Walk.Relabels.result {node : NodeId → NodeId} {walk later : Walk}
    (relabels : walk.Relabels ⟨node, id⟩ later) :
    later.result = walk.result.map (List.map (Reference.relabel ⟨node, id⟩)) := by
  unfold Walk.result
  rw [relabels.sameDiagnostics, relabels.references]
  split <;> rfl

/-- **A program in which only the nodes are others is resolved in the same way.** -/
theorem resolve_renumber (node : NodeId → NodeId) (program : List Stmt) :
    resolve (relabelStatements ⟨node, id⟩ program) =
      (resolve program).map (List.map (Reference.relabel ⟨node, id⟩)) :=
  (Site.relabels (fun _ => rfl) ⟨.statements program, [], .start⟩ (.start _)).result

/-- **An expression in which only the nodes are others is resolved in the same way.** -/
theorem resolveExpression_renumber (node : NodeId → NodeId) (value : Expr) :
    resolveExpression (value.relabel ⟨node, id⟩) =
      (resolveExpression value).map (List.map (Reference.relabel ⟨node, id⟩)) :=
  (Site.relabels (fun _ => rfl) ⟨.expression value, [], .start⟩ (.start _)).result

end Lox
