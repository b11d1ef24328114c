/-
**What a walk leaves behind.**

* `Walk.prepend` — a walk that had found something before. `Site.after_prepend`: it finds the same
  afterwards.
* `Walk.Before` — what one walk has found stands at the beginning of what another one has found. So
  it is with the walk as it comes to a site and as it leaves it (`Site.walk_before`), and with the
  walk as it leaves a site within another and as it leaves that one (`Within.before`).
* `Site.settles` — expressions and functions leave the open scopes alone, and statements leave all
  but the innermost one alone.
-/

import Lox.Proofs.Scoping.Site

namespace Lox

/-! ### Walks that found something before -/

namespace Walk

/-- The walk, if it had found these references and diagnostics before all others. -/
def prepend (walk : Walk) (references : List Reference) (diagnostics : List Diagnostic) : Walk :=
  { walk with
    references := references ++ walk.references
    diagnostics := diagnostics ++ walk.diagnostics }

variable (walk : Walk) (references : List Reference) (diagnostics : List Diagnostic)

@[simp] theorem scopes_prepend : (walk.prepend references diagnostics).scopes = walk.scopes :=
  rfl

@[simp] theorem currentFunction_prepend :
    (walk.prepend references diagnostics).currentFunction = walk.currentFunction :=
  rfl

@[simp] theorem openScope_prepend :
    (walk.prepend references diagnostics).openScope =
      walk.openScope.prepend references diagnostics :=
  rfl

@[simp] theorem closeScope_prepend :
    (walk.prepend references diagnostics).closeScope =
      walk.closeScope.prepend references diagnostics :=
  rfl

@[simp] theorem record_prepend (token : Token) (defect : Defect) :
    (walk.prepend references diagnostics).record token defect =
      (walk.record token defect).prepend references diagnostics := by
  simp [record, prepend]

@[simp] theorem mark_prepend (name : Token) (readable : Bool) :
    (walk.prepend references diagnostics).mark name readable =
      (walk.mark name readable).prepend references diagnostics := by
  unfold mark
  cases scopes : walk.scopes <;> simp [prepend, scopes]

@[simp] theorem define_prepend (name : Token) :
    (walk.prepend references diagnostics).define name =
      (walk.define name).prepend references diagnostics :=
  mark_prepend walk references diagnostics name true

@[simp] theorem declare_prepend (name : Token) :
    (walk.prepend references diagnostics).declare name =
      (walk.declare name).prepend references diagnostics := by
  unfold declare innermost?
  dsimp only
  by_cases twice : walk.scopes.head?.any (·.has name.lexeme) = true
  · rw [mark_prepend, record_prepend, scopes_prepend, if_pos twice, if_pos twice]
  · rw [mark_prepend, scopes_prepend, if_neg twice, if_neg twice]

@[simp] theorem refer_prepend (node : NodeId) (access : Access) (name : Token) :
    (walk.prepend references diagnostics).refer node access name =
      (walk.refer node access name).prepend references diagnostics := by
  simp [refer, prepend]

@[simp] theorem readVariable_prepend (node : NodeId) (name : Token) :
    (walk.prepend references diagnostics).readVariable node name =
      (walk.readVariable node name).prepend references diagnostics := by
  unfold readVariable
  have same : (walk.prepend references diagnostics).inOwnInitializer name =
      walk.inOwnInitializer name := rfl
  by_cases own : walk.inOwnInitializer name = true
  · rw [same, if_pos own, if_pos own, record_prepend, refer_prepend]
  · rw [same, if_neg own, if_neg own, refer_prepend]

@[simp] theorem checkReturn_prepend (keyword : Token) :
    (walk.prepend references diagnostics).checkReturn keyword =
      (walk.checkReturn keyword).prepend references diagnostics := by
  unfold checkReturn
  by_cases outside : walk.currentFunction = none
  · rw [currentFunction_prepend, if_pos outside, if_pos outside, record_prepend]
  · rw [currentFunction_prepend, if_neg outside, if_neg outside]

@[simp] theorem enterFunction_prepend (kind : FunctionKind) (parameters : List Token) :
    (walk.prepend references diagnostics).enterFunction kind parameters =
      (walk.enterFunction kind parameters).prepend references diagnostics := by
  have outside :
      { (walk.prepend references diagnostics).openScope with currentFunction := some kind } =
        ({ walk.openScope with currentFunction := some kind } : Walk).prepend
          references diagnostics := rfl
  rw [enterFunction, enterFunction, outside]
  generalize ({ walk.openScope with currentFunction := some kind } : Walk) = entered
  induction parameters generalizing entered with
  | nil => rfl
  | cons first rest ih =>
    rw [List.foldl_cons, List.foldl_cons, ← ih, parameter, parameter, declare_prepend,
      define_prepend]

@[simp] theorem leaveFunction_prepend (outside : Walk) :
    (walk.prepend references diagnostics).leaveFunction outside =
      (walk.leaveFunction outside).prepend references diagnostics :=
  rfl

@[simp] theorem leaveFunction_prepend_outside (outside : Walk) :
    walk.leaveFunction (outside.prepend references diagnostics) = walk.leaveFunction outside :=
  rfl

end Walk

namespace Site

/-- **What was found before a site changes nothing in what the walk finds there.** -/
theorem after_prepend (site : Site) (references : List Reference) (diagnostics : List Diagnostic) :
    site.part.walk (site.walk.prepend references diagnostics) =
      site.after.prepend references diagnostics := by
  induction site using Site.induction with
  | step site ih =>
    obtain ⟨part, frames, walk⟩ := site
    cases part with
    | expression value =>
      cases value <;> simp_all [children, Expr.sites, after, Part.walk, Expr.walk]
    | arguments values => cases values <;> simp_all [children, after, Part.walk, walkAll]
    | statement form =>
      cases form with
      | var _ initializer =>
        cases initializer <;> simp_all [children, Stmt.sites, after, Part.walk, Stmt.walk]
      | «if» _ _ no => cases no <;> simp_all [children, Stmt.sites, after, Part.walk, Stmt.walk]
      | «return» _ value => cases value <;> simp_all [children, Stmt.sites,
          after, Part.walk, Stmt.walk]
      | _ => simp_all [children, Stmt.sites, after, Part.walk, Stmt.walk]
    | statements forms => cases forms <;> simp_all [children, after, Part.walk, walkStatements]
    | function _ body => cases body; simp_all [children, after, Part.walk, FunctionBody.walk]
    | target node access name => cases access <;> simp [after, Part.walk]

/-- What the walk finds at a site comes after what it had found before. -/
theorem after_eq_prepend (site : Site) :
    site.after = (site.part.walk ⟨site.walk.scopes, site.walk.currentFunction, [], []⟩).prepend
      site.walk.references site.walk.diagnostics := by
  have found :=
    after_prepend ⟨site.part, site.frames, ⟨site.walk.scopes, site.walk.currentFunction, [], []⟩⟩
    site.walk.references site.walk.diagnostics
  rw [after] at found ⊢
  rw [← found]
  simp [Walk.prepend]

end Site

/-! ### Nothing that was found is lost -/

/-- What one walk has found stands at the beginning of what the other has found. -/
structure Walk.Before (walk later : Walk) : Prop where
  references : walk.references <+: later.references
  diagnostics : walk.diagnostics <+: later.diagnostics

namespace Walk

variable {walk middle later : Walk}

theorem Before.refl (walk : Walk) : walk.Before walk :=
  ⟨List.prefix_rfl, List.prefix_rfl⟩

theorem Before.trans (first : walk.Before middle) (second : middle.Before later) :
    walk.Before later :=
  ⟨first.references.trans second.references, first.diagnostics.trans second.diagnostics⟩

theorem before_define (walk : Walk) (name : Token) : walk.Before (walk.define name) := by
  unfold define mark
  split <;> exact ⟨List.prefix_rfl, List.prefix_rfl⟩

end Walk

namespace Site

theorem walk_before (site : Site) : site.walk.Before site.after := by
  rw [after_eq_prepend]
  exact ⟨List.prefix_append _ _, List.prefix_append _ _⟩

/-- The walk leaves a site within another one before it leaves that one. -/
theorem before_of_child {site child : Site} (isChild : child ∈ site.children) :
    child.after.Before site.after := by
  obtain ⟨part, frames, walk⟩ := site
  cases part with
  | expression value =>
    cases value with
    | literal => simp [children, Expr.sites] at isChild
    | grouping | unary | «variable» | lambda =>
      simp only [children, Expr.sites, List.mem_singleton] at isChild
      subst isChild
      exact .refl _
    | binary left _ right | logical left _ right =>
      simp only [children, Expr.sites, List.mem_cons, List.not_mem_nil, or_false] at isChild
      rcases isChild with rfl | rfl
      · exact walk_before ⟨.expression right, frames, left.walk walk⟩
      · exact .refl _
    | ternary condition _ yes no =>
      simp only [children, Expr.sites, List.mem_cons, List.not_mem_nil, or_false] at isChild
      have last := walk_before ⟨.expression no, frames, yes.walk (condition.walk walk)⟩
      rcases isChild with rfl | rfl | rfl
      · exact (walk_before ⟨.expression yes, frames, condition.walk walk⟩).trans last
      · exact last
      · exact .refl _
    | assign node name value =>
      simp only [children, Expr.sites, List.mem_cons, List.not_mem_nil, or_false] at isChild
      rcases isChild with rfl | rfl
      · exact walk_before ⟨.target node .write name, frames, value.walk walk⟩
      · exact .refl _
    | call callee arguments _ =>
      simp only [children, Expr.sites, List.mem_cons, List.not_mem_nil, or_false] at isChild
      rcases isChild with rfl | rfl
      · exact walk_before ⟨.arguments arguments, frames, callee.walk walk⟩
      · exact .refl _
  | arguments values =>
    cases values with
    | nil => simp [children] at isChild
    | cons first rest =>
      simp only [children, List.mem_cons, List.not_mem_nil, or_false] at isChild
      rcases isChild with rfl | rfl
      · exact walk_before ⟨.arguments rest, frames, first.walk walk⟩
      · exact .refl _
  | statement form =>
    cases form with
    | expression | print | block | function =>
      simp only [children, Stmt.sites, List.mem_singleton] at isChild
      subst isChild
      exact ⟨List.prefix_rfl, List.prefix_rfl⟩
    | var name initializer =>
      cases initializer with
      | none => simp [children, Stmt.sites] at isChild
      | some initializer =>
        simp only [children, Stmt.sites, List.mem_singleton] at isChild
        subst isChild
        exact Walk.before_define _ name
    | «if» condition yes no =>
      cases no with
      | none =>
        simp only [children, Stmt.sites, List.mem_cons, List.not_mem_nil, or_false] at isChild
        rcases isChild with rfl | rfl
        · exact walk_before ⟨.statement yes, frames, condition.walk walk⟩
        · exact .refl _
      | some no =>
        simp only [children, Stmt.sites, List.mem_cons, List.not_mem_nil, or_false] at isChild
        have last := walk_before ⟨.statement no, frames, yes.walk (condition.walk walk)⟩
        rcases isChild with rfl | rfl | rfl
        · exact (walk_before ⟨.statement yes, frames, condition.walk walk⟩).trans last
        · exact last
        · exact .refl _
    | «while» condition body =>
      simp only [children, Stmt.sites, List.mem_cons, List.not_mem_nil, or_false] at isChild
      rcases isChild with rfl | rfl
      · exact walk_before ⟨.statement body, frames, condition.walk walk⟩
      · exact .refl _
    | «return» keyword value =>
      cases value with
      | none => simp [children, Stmt.sites] at isChild
      | some value =>
        simp only [children, Stmt.sites, List.mem_singleton] at isChild
        subst isChild
        exact .refl _
  | statements forms =>
    cases forms with
    | nil => simp [children] at isChild
    | cons first rest =>
      simp only [children, List.mem_cons, List.not_mem_nil, or_false] at isChild
      rcases isChild with rfl | rfl
      · exact walk_before ⟨.statements rest, frames, first.walk walk⟩
      · exact .refl _
  | function kind body =>
    cases body
    simp only [children, List.mem_singleton] at isChild
    subst isChild
    exact ⟨List.prefix_rfl, List.prefix_rfl⟩
  | target => simp [children] at isChild

end Site

/-- **What the walk has found when it leaves a site within another, it still has
when it leaves that one.** -/
theorem Within.before {root site : Site} (within : Within root site) :
    site.after.Before root.after := by
  induction within with
  | refl => exact .refl _
  | tail _ isChild ih => exact (Site.before_of_child isChild).trans ih

/-! ### The open scopes -/

namespace Walk

/-- A walk with the same open scopes, except that the innermost may be another one. -/
def SameAround (walk later : Walk) : Prop :=
  later.scopes.tail = walk.scopes.tail ∧ later.scopes.length = walk.scopes.length

variable {walk middle later : Walk}

theorem SameAround.of_eq (same : later.scopes = walk.scopes) : walk.SameAround later := by
  rw [SameAround, same]
  exact ⟨rfl, rfl⟩

theorem SameAround.trans (first : walk.SameAround middle) (second : middle.SameAround later) :
    walk.SameAround later :=
  ⟨second.1.trans first.1, second.2.trans first.2⟩

theorem sameAround_mark (walk : Walk) (name : Token) (readable : Bool) :
    walk.SameAround (walk.mark name readable) := by
  unfold SameAround mark
  cases scopes : walk.scopes with
  | nil => exact ⟨by rw [scopes], by rw [scopes]⟩
  | cons => exact ⟨rfl, rfl⟩

@[simp] theorem scopes_record (walk : Walk) (token : Token) (defect : Defect) :
    (walk.record token defect).scopes = walk.scopes :=
  rfl

@[simp] theorem scopes_declare (walk : Walk) (name : Token) :
    (walk.declare name).scopes = (walk.mark name false).scopes := by
  unfold declare
  dsimp only
  split <;> rfl

@[simp] theorem scopes_refer (walk : Walk) (node : NodeId) (access : Access) (name : Token) :
    (walk.refer node access name).scopes = walk.scopes :=
  rfl

@[simp] theorem scopes_readVariable (walk : Walk) (node : NodeId) (name : Token) :
    (walk.readVariable node name).scopes = walk.scopes := by
  unfold readVariable
  dsimp only
  split <;> rfl

@[simp] theorem scopes_checkReturn (walk : Walk) (keyword : Token) :
    (walk.checkReturn keyword).scopes = walk.scopes := by
  unfold checkReturn
  split <;> rfl

theorem sameAround_declare (walk : Walk) (name : Token) : walk.SameAround (walk.declare name) :=
  (sameAround_mark walk name false).trans (.of_eq (scopes_declare walk name))

theorem sameAround_define (walk : Walk) (name : Token) : walk.SameAround (walk.define name) :=
  sameAround_mark walk name true

/-- The scope that is opened for a function stands in front of those that were open. -/
theorem sameAround_enterFunction (walk : Walk) (kind : FunctionKind) (parameters : List Token) :
    walk.openScope.SameAround (walk.enterFunction kind parameters) := by
  unfold enterFunction
  have entered : walk.openScope.SameAround { walk.openScope with currentFunction := some kind } :=
    .of_eq rfl
  revert entered
  generalize ({ walk.openScope with currentFunction := some kind } : Walk) = entered
  intro around
  induction parameters generalizing entered with
  | nil => exact around
  | cons first rest ih =>
    rw [List.foldl_cons]
    exact ih _ (around.trans ((sameAround_declare _ first).trans (sameAround_define _ first)))

end Walk

/-- What the walk over a part leaves of the open scopes. -/
def Part.Settles : Part → Walk → Walk → Prop
  | .statement _, walk, later | .statements _, walk, later => walk.SameAround later
  | _, walk, later => later.scopes = walk.scopes

namespace Site

/-- **Expressions and functions leave the open scopes alone, and statements all but the
innermost.** -/
theorem settles (site : Site) : site.part.Settles site.walk site.after := by
  induction site using Site.induction with
  | step site ih =>
    obtain ⟨part, frames, walk⟩ := site
    cases part with
    | expression value =>
      cases value <;> simp_all [children, Expr.sites, after, Part.walk, Expr.walk, Part.Settles]
    | arguments values => cases values <;> simp_all [children, after, Part.walk,
        walkAll, Part.Settles]
    | statement form =>
      cases form with
      | expression value | print _ value =>
        exact .of_eq (ih ⟨.expression value, frames, walk⟩ (by simp [children, Stmt.sites]))
      | var name initializer =>
        have declared := Walk.sameAround_declare walk name
        cases initializer with
        | none => exact declared.trans (Walk.sameAround_define _ name)
        | some initializer =>
          have settled := ih ⟨.expression initializer, frames, walk.declare name⟩
            (by simp [children, Stmt.sites])
          exact (declared.trans (.of_eq settled)).trans (Walk.sameAround_define _ name)
      | block forms =>
        have settled := ih ⟨.statements forms, .block forms :: frames, walk.openScope⟩
          (by simp [children, Stmt.sites])
        exact .of_eq settled.1
      | «if» condition yes no =>
        cases no with
        | none =>
          have decided := ih ⟨.expression condition, frames, walk⟩ (by simp [children, Stmt.sites])
          have settled := ih ⟨.statement yes, frames, condition.walk walk⟩
            (by simp [children, Stmt.sites])
          exact Walk.SameAround.trans (.of_eq decided) settled
        | some no =>
          have decided := ih ⟨.expression condition, frames, walk⟩ (by simp [children, Stmt.sites])
          have settled := ih ⟨.statement yes, frames, condition.walk walk⟩
            (by simp [children, Stmt.sites])
          have last := ih ⟨.statement no, frames, yes.walk (condition.walk walk)⟩
            (by simp [children, Stmt.sites])
          exact (Walk.SameAround.trans (.of_eq decided) settled).trans last
      | «while» condition body =>
        have decided := ih ⟨.expression condition, frames, walk⟩ (by simp [children, Stmt.sites])
        have settled := ih ⟨.statement body, frames, condition.walk walk⟩
          (by simp [children, Stmt.sites])
        exact Walk.SameAround.trans (.of_eq decided) settled
      | function name body =>
        have settled := ih ⟨.function .function body, frames, (walk.declare name).define name⟩
          (by simp [children, Stmt.sites])
        exact ((Walk.sameAround_declare walk name).trans (Walk.sameAround_define _ name)).trans
          (.of_eq settled)
      | «return» keyword value =>
        cases value with
        | none => exact .of_eq (Walk.scopes_checkReturn walk keyword)
        | some value =>
          have settled := ih ⟨.expression value, frames, walk.checkReturn keyword⟩
            (by simp [children, Stmt.sites])
          exact .of_eq (settled.trans (Walk.scopes_checkReturn walk keyword))
    | statements forms =>
      cases forms with
      | nil => exact .of_eq rfl
      | cons first rest =>
        have first := ih ⟨.statement first, frames, walk⟩ (by simp [children])
        have rest := ih ⟨.statements rest, frames, _⟩ (by simp [children]; rfl)
        exact first.trans rest
    | function kind body =>
      obtain ⟨parameters, forms⟩ := body
      have settled := ih ⟨.statements forms, _, walk.enterFunction kind parameters⟩
        (by simp [children]; rfl)
      exact ((Walk.sameAround_enterFunction walk kind parameters).trans settled).1
    | target node access name => cases access <;> simp [after, Part.walk, Part.Settles]

end Site

/-- An expression leaves the open scopes alone. -/
@[simp] theorem Expr.scopes_walk (value : Expr) (walk : Walk) :
    (value.walk walk).scopes = walk.scopes :=
  Site.settles ⟨.expression value, [], walk⟩

/-- A walk gives its references if it has found no defect. -/
theorem Walk.result_eq_ok {walk : Walk} {references : List Reference} :
    walk.result = .ok references ↔ walk.diagnostics = [] ∧ walk.references = references := by
  unfold Walk.result
  by_cases clean : walk.diagnostics = []
  · simp [clean]
  · simp [clean]

end Lox
