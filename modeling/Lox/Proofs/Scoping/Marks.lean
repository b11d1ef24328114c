/-
**What the marks of names say about a site.**

* `Stmt.declarations` — the names that a statement declares right in the scope it stands in.
  `Site.scopes_declarations`: it marks them, and leaves the open scopes alone else.
* `Site.WellFormed` — branches and bodies of loops declare nothing, as in every program that
  is read. Then a statement declares one name at most, `Stmt.declared?`, and
  `Site.scopes_after` says the same of that.
* `Site.Descent` — how the frames and the open scopes of a site differ from those around it.
* `Within.pending` — a name that is marked as not readable yet at a site is that of a variable whose
  initializer the site stands in; that variable is declared right in the frame that has the name.
* `Within.in_function` — a site in an expression that has frames of its own
  stands in a function there.
-/

import Lox.Proofs.Scoping.Walks

namespace Lox

/-! ### Marking twice -/

/-- Binding a name anew forgets the old binding. -/
theorem Names.set_set {α : Type} (names : Names α) (name : String) (old new : α) :
    (names.set name old).set name new = names.set name new := by
  induction names with
  | nil => simp [Names.set]
  | cons binding rest ih =>
    obtain ⟨other, value⟩ := binding
    by_cases here : name = other
    · simp [Names.set, here]
    · simp [Names.set, here, ih]

namespace Walk

theorem scopes_mark (walk : Walk) (name : Token) (readable : Bool) :
    (walk.mark name readable).scopes =
      walk.scopes.modifyHead fun innermost => innermost.set name.lexeme readable := by
  unfold mark
  cases scopes : walk.scopes <;> simp [scopes]

/-- A declared name is marked as if it had been defined at once. -/
theorem scopes_define_of_declare {walk later : Walk} {name : Token}
    (same : later.scopes = (walk.declare name).scopes) :
    (later.define name).scopes = (walk.define name).scopes := by
  rw [define, define, scopes_mark, scopes_mark, same, scopes_declare, scopes_mark]
  cases walk.scopes with
  | nil => rfl
  | cons innermost outer => simp [Names.set_set]

end Walk

/-! ### What statements declare -/

/-- Marks names as readable, one after the other. -/
def Names.defineAll (names : Names Bool) (declared : List Token) : Names Bool :=
  declared.foldl (fun names name => names.set name.lexeme true) names

theorem Names.get?_defineAll (names : Names Bool) (declared : List Token) (name : String) :
    (names.defineAll declared).get? name =
      if name ∈ declared.map Token.lexeme then some true else names.get? name := by
  unfold defineAll
  induction declared generalizing names with
  | nil => simp
  | cons first rest ih =>
    rw [List.foldl_cons, ih, Names.get?_set]
    by_cases later : name ∈ rest.map Token.lexeme
    · simp [later]
    · by_cases here : name = first.lexeme <;> simp [later, here]

/-- Nothing is marked where nothing is declared, -/
theorem Names.modifyHead_defineAll_nil (scopes : List (Names Bool)) :
    scopes.modifyHead (·.defineAll []) = scopes := by
  cases scopes <;> rfl

/-- and what is declared in two parts may as well be declared at once. -/
theorem Names.modifyHead_defineAll_append (scopes : List (Names Bool)) (first second : List Token) :
    (scopes.modifyHead (·.defineAll first)).modifyHead (·.defineAll second) =
      scopes.modifyHead (·.defineAll (first ++ second)) := by
  cases scopes with
  | nil => rfl
  | cons innermost outer => simp [Names.defineAll, List.foldl_append]

/-- The names that a statement declares right in the scope it stands in, in the order of
the walk. If its branches or its body are declarations, as in no program that is read,
their names are among them. -/
def Stmt.declarations : Stmt → List Token
  | .var name _ | .function name _ => [name]
  | .if _ yes none => yes.declarations
  | .if _ yes (some no) => yes.declarations ++ no.declarations
  | .while _ body => body.declarations
  | _ => []

/-- **A statement marks the names that it declares, and leaves the open scopes alone else.** -/
theorem Site.scopes_declarations {site : Site} {form : Stmt}
    (isStatement : site.part = .statement form) :
    site.after.scopes = site.walk.scopes.modifyHead (·.defineAll form.declarations) := by
  induction site using Site.induction generalizing form with
  | step site ih =>
    obtain ⟨part, frames, walk⟩ := site
    subst isStatement
    have declared (name : Token) :
        (walk.define name).scopes = walk.scopes.modifyHead (·.defineAll [name]) :=
          Walk.scopes_mark walk name true
    cases form with
    | expression value | print _ value =>
      exact (settles ⟨.expression value, frames, walk⟩).trans
        (Names.modifyHead_defineAll_nil _).symm
    | var name initializer =>
      refine Eq.trans ?_ (declared name)
      cases initializer with
      | none => exact Walk.scopes_define_of_declare rfl
      | some initializer =>
        exact Walk.scopes_define_of_declare
          (settles ⟨.expression initializer, frames, walk.declare name⟩)
    | block forms =>
      have closed := (settles ⟨.statements forms, .block forms :: frames, walk.openScope⟩).1
      exact closed.trans (Names.modifyHead_defineAll_nil _).symm
    | «if» condition yes no =>
      have decided := settles ⟨.expression condition, frames, walk⟩
      cases no with
      | none =>
        have chosen := @ih ⟨.statement yes, frames, condition.walk walk⟩
          (by simp [children, Stmt.sites]) _ rfl
        exact chosen.trans (congrArg _ decided)
      | some no =>
        have chosen := @ih ⟨.statement yes, frames, condition.walk walk⟩
          (by simp [children, Stmt.sites]) _ rfl
        have last := @ih ⟨.statement no, frames, yes.walk (condition.walk walk)⟩
          (by simp [children, Stmt.sites]) _ rfl
        calc (no.walk (yes.walk (condition.walk walk))).scopes
            = (yes.walk (condition.walk walk)).scopes.modifyHead
                (·.defineAll no.declarations) := last
          _ = ((condition.walk walk).scopes.modifyHead (·.defineAll yes.declarations)).modifyHead
                (·.defineAll no.declarations) := congrArg _ chosen
          _ = (condition.walk walk).scopes.modifyHead
                (·.defineAll (yes.declarations ++ no.declarations)) :=
              Names.modifyHead_defineAll_append _ _ _
          _ = walk.scopes.modifyHead (·.defineAll (yes.declarations ++ no.declarations)) :=
              congrArg _ decided
    | «while» condition body =>
      have decided := settles ⟨.expression condition, frames, walk⟩
      have repeated := @ih ⟨.statement body, frames, condition.walk walk⟩
        (by simp [children, Stmt.sites]) _ rfl
      exact repeated.trans (congrArg _ decided)
    | function name body =>
      have settled := settles ⟨.function .function body, frames, (walk.declare name).define name⟩
      exact (settled.trans (Walk.scopes_define_of_declare rfl)).trans (declared name)
    | «return» keyword value =>
      refine Eq.trans ?_ (Names.modifyHead_defineAll_nil _).symm
      cases value with
      | none => exact Walk.scopes_checkReturn walk keyword
      | some value =>
        exact (settles ⟨.expression value, frames, walk.checkReturn keyword⟩).trans
          (Walk.scopes_checkReturn walk keyword)

/-! ### Branches and bodies that declare nothing -/

/-- The name that a statement declares in the scope it stands in. -/
def Stmt.declared? : Stmt → Option Token
  | .var name _ | .function name _ => some name
  | _ => none

/-- The walk after a statement that declares this. -/
def Walk.afterDeclaring (walk : Walk) : Option Token → Walk
  | none => walk
  | some name => walk.define name

/-- The branches or the body of this part declare nothing. -/
def Part.DeclaresApart : Part → Prop
  | .statement (.if _ yes no) => yes.declared? = none ∧ ∀ other ∈ no, other.declared? = none
  | .statement (.while _ body) => body.declared? = none
  | _ => True

/-- No branch and no body of a loop within the site declares anything. -/
def Site.WellFormed (root : Site) : Prop :=
  ∀ site, Within root site → site.part.DeclaresApart

namespace Site

variable {site child : Site}

theorem WellFormed.within (wellFormed : site.WellFormed) (within : Within site child) :
    child.WellFormed :=
  fun inner toInner => wellFormed inner (within.trans toInner)

theorem WellFormed.of_child (wellFormed : site.WellFormed) (isChild : child ∈ site.children) :
    child.WellFormed :=
  wellFormed.within ((Within.refl site).step isChild)

/-- A site is well formed if its part is and the sites right within it are. -/
theorem wellFormed_iff :
    site.WellFormed ↔ site.part.DeclaresApart ∧ ∀ child ∈ site.children, child.WellFormed := by
  constructor
  · exact fun wellFormed =>
      ⟨wellFormed site (.refl site), fun child isChild => wellFormed.of_child isChild⟩
  · rintro ⟨apart, children⟩ inner within
    rcases Within.iff_children.mp within with rfl | ⟨child, isChild, within⟩
    · exact apart
    · exact children child isChild inner within

/-- In a site that is well formed, a statement declares one name at most. -/
theorem declarations_eq {form : Stmt} (wellFormed : site.WellFormed)
    (isStatement : site.part = .statement form) :
    form.declarations = form.declared?.toList := by
  induction site using Site.induction generalizing form with
  | step site ih =>
    obtain ⟨part, frames, walk⟩ := site
    subst isStatement
    obtain ⟨apart, inner⟩ := wellFormed_iff.mp wellFormed
    have nothing (branch : Stmt) (between : Walk)
        (isChild : ⟨.statement branch, frames, between⟩ ∈ children ⟨.statement form, frames, walk⟩)
        (apart : branch.declared? = none) : branch.declarations = [] := by
      rw [ih _ isChild (inner _ isChild) rfl, apart]
      rfl
    cases form with
    | «if» condition yes no =>
      cases no with
      | none => exact nothing yes (condition.walk walk) (by simp [children, Stmt.sites]) apart.1
      | some no =>
        have first := nothing yes (condition.walk walk) (by simp [children, Stmt.sites]) apart.1
        have second := nothing no (yes.walk (condition.walk walk)) (by simp [children, Stmt.sites])
          (apart.2 no rfl)
        rw [Stmt.declarations, first, second]
        rfl
    | «while» condition body =>
      exact nothing body (condition.walk walk) (by simp [children, Stmt.sites]) apart
    | _ => rfl

/-- **A statement marks the name it declares, and leaves the open scopes alone else.** -/
theorem scopes_after {form : Stmt} {frames : List Frame} {walk : Walk}
    (wellFormed : WellFormed ⟨.statement form, frames, walk⟩) :
    (form.walk walk).scopes = (walk.afterDeclaring form.declared?).scopes := by
  have marked : (form.walk walk).scopes = walk.scopes.modifyHead (·.defineAll form.declarations) :=
    @scopes_declarations ⟨.statement form, frames, walk⟩ form rfl
  rw [marked, declarations_eq wellFormed rfl]
  cases form.declared? with
  | none => exact Names.modifyHead_defineAll_nil _
  | some name => exact (Walk.scopes_mark walk name true).symm

end Site

/-! ### From a site to those right within it -/

namespace Walk

theorem scopes_parameter {walk : Walk} {names : Names Bool} {outer : List (Names Bool)}
    (name : Token) (scopes : walk.scopes = names :: outer) :
    (walk.parameter name).scopes = names.set name.lexeme true :: outer := by
  rw [parameter, scopes_define_of_declare rfl, define, scopes_mark, scopes]
  rfl

/-- The scope that is opened for a function has its parameters, all of which may be read. -/
theorem scopes_enterFunction (walk : Walk) (kind : FunctionKind) (parameters : List Token) :
    (walk.enterFunction kind parameters).scopes =
      parameters.foldl (fun names name => Names.set names name.lexeme true) [] :: walk.scopes := by
  unfold enterFunction
  have opened : ({ walk.openScope with currentFunction := some kind } : Walk).scopes =
    [] :: walk.scopes := rfl
  revert opened
  generalize ({ walk.openScope with currentFunction := some kind } : Walk) =
    entered, ([] : Names Bool) = names
  intro opened
  induction parameters generalizing entered names with
  | nil => exact opened
  | cons first rest ih =>
    rw [List.foldl_cons, List.foldl_cons]
    exact ih _ _ (scopes_parameter first opened)

end Walk

/-- The marks of the parameters of a function. -/
theorem Names.get?_parameters (parameters : List Token) (name : String) :
    Names.get? (parameters.foldl (fun names name => Names.set names name.lexeme true) []) name =
      if name ∈ parameters.map Token.lexeme then some true else none := by
  suffices general : ∀ names : Names Bool,
      Names.get? (parameters.foldl (fun names name => Names.set names name.lexeme true) names)
        name =
        if name ∈ parameters.map Token.lexeme then some true else names.get? name from general []
  induction parameters with
  | nil => simp
  | cons first rest ih =>
    intro names
    rw [List.foldl_cons, ih, Names.get?_set]
    by_cases later : name ∈ rest.map Token.lexeme
    · simp [later]
    · by_cases here : name = first.lexeme
      · simp [here]
      · simp [later, here]

/-- How the frames and the open scopes of a site differ from those around it. -/
inductive Site.Descent (site child : Site) : Prop
  /-- Nothing is different. -/
  | same (frames : child.frames = site.frames) (scopes : child.walk.scopes = site.walk.scopes)
  /-- A name has been defined. -/
  | defined (name : Token) (frames : child.frames = site.frames)
    (scopes : child.walk.scopes = (site.walk.define name).scopes)
  /-- A name is declared whose initializer this is. -/
  | initializer (name : Token) (value : Expr)
      (isVariable : site.part = .statement (.var name (some value)))
    (isInitializer : child = ⟨.expression value, site.frames, site.walk.declare name⟩)
  /-- A scope has been opened, in which all names may be read. -/
  | opened (frame : Frame) (names : Names Bool) (isFrame : site.part = frame.part)
    (frames : child.frames = frame :: site.frames)
      (scopes : child.walk.scopes = names :: site.walk.scopes)
    (readable : ∀ name, names.get? name ≠ some false)

namespace Site

variable {site child : Site}

/-- **What a site and those right within it have in common, and what not.** -/
theorem descent (wellFormed : site.WellFormed) (isChild : child ∈ site.children) :
    site.Descent child := by
  obtain ⟨part, frames, walk⟩ := site
  cases part with
  | expression value =>
    cases value with
    | literal => simp [children, Expr.sites] at isChild
    | grouping | unary | «variable» | lambda =>
      obtain rfl := List.mem_singleton.mp isChild
      exact .same rfl rfl
    | binary | logical | assign | call =>
      simp only [children, Expr.sites, List.mem_cons, List.not_mem_nil, or_false] at isChild
      rcases isChild with rfl | rfl
      · exact .same rfl rfl
      · exact .same rfl (Expr.scopes_walk _ walk)
    | ternary condition _ yes no =>
      simp only [children, Expr.sites, List.mem_cons, List.not_mem_nil, or_false] at isChild
      rcases isChild with rfl | rfl | rfl
      · exact .same rfl rfl
      · exact .same rfl (condition.scopes_walk walk)
      · exact .same rfl ((yes.scopes_walk _).trans (condition.scopes_walk walk))
  | arguments values =>
    cases values with
    | nil => simp [children] at isChild
    | cons first rest =>
      simp only [children, List.mem_cons, List.not_mem_nil, or_false] at isChild
      rcases isChild with rfl | rfl
      · exact .same rfl rfl
      · exact .same rfl (first.scopes_walk walk)
  | statement form =>
    cases form with
    | expression | print =>
      obtain rfl := List.mem_singleton.mp isChild
      exact .same rfl rfl
    | var name initializer =>
      cases initializer with
      | none => simp [children, Stmt.sites] at isChild
      | some initializer =>
        obtain rfl := List.mem_singleton.mp isChild
        exact .initializer name initializer rfl rfl
    | block forms =>
      obtain rfl := List.mem_singleton.mp isChild
      exact .opened (.block forms) [] rfl rfl rfl fun _ isBound => by cases isBound
    | «if» condition yes no =>
      have around : ((yes.walk (condition.walk walk))).scopes = walk.scopes := by
        have inner : WellFormed ⟨.statement yes, frames, condition.walk walk⟩ :=
          wellFormed.of_child (by cases no <;> simp [children, Stmt.sites])
        have apart := (wellFormed_iff.mp wellFormed).1
        rw [scopes_after inner, apart.1]
        exact condition.scopes_walk walk
      cases no with
      | none =>
        simp only [children, Stmt.sites, List.mem_cons, List.not_mem_nil, or_false] at isChild
        rcases isChild with rfl | rfl
        · exact .same rfl rfl
        · exact .same rfl (condition.scopes_walk walk)
      | some no =>
        simp only [children, Stmt.sites, List.mem_cons, List.not_mem_nil, or_false] at isChild
        rcases isChild with rfl | rfl | rfl
        · exact .same rfl rfl
        · exact .same rfl (condition.scopes_walk walk)
        · exact .same rfl around
    | «while» condition body =>
      simp only [children, Stmt.sites, List.mem_cons, List.not_mem_nil, or_false] at isChild
      rcases isChild with rfl | rfl
      · exact .same rfl rfl
      · exact .same rfl (condition.scopes_walk walk)
    | function name body =>
      obtain rfl := List.mem_singleton.mp isChild
      exact .defined name rfl (Walk.scopes_define_of_declare rfl)
    | «return» keyword value =>
      cases value with
      | none => simp [children, Stmt.sites] at isChild
      | some value =>
        obtain rfl := List.mem_singleton.mp isChild
        exact .same rfl (Walk.scopes_checkReturn walk keyword)
  | statements forms =>
    cases forms with
    | nil => simp [children] at isChild
    | cons first rest =>
      have isFirst : Site.WellFormed ⟨.statement first, frames, walk⟩ :=
        wellFormed.of_child (by simp [children])
      have left := scopes_after isFirst
      simp only [children, List.mem_cons, List.not_mem_nil, or_false] at isChild
      rcases isChild with rfl | rfl
      · exact .same rfl rfl
      · cases declares : first.declared? with
        | none => exact .same rfl (by rw [left, declares]; rfl)
        | some name => exact .defined name rfl (by rw [left, declares]; rfl)
  | function kind body =>
    obtain ⟨parameters, forms⟩ := body
    obtain rfl := List.mem_singleton.mp isChild
    refine .opened (.function kind ⟨parameters, forms⟩) _ rfl rfl
      (Walk.scopes_enterFunction walk kind parameters) fun name => ?_
    rw [Names.get?_parameters]
    split <;> simp
  | target node access name => simp [children] at isChild

end Site

/-! ### Frames and open scopes -/

/-- Marking a name leaves everything in a scope alone but that name in the innermost one. -/
theorem Walk.getElem?_mark {walk : Walk} {name : Token} {readable : Bool} {distance : Nat}
    {names : Names Bool} (found : (walk.mark name readable).scopes[distance]? = some names) :
    ∃ before, walk.scopes[distance]? = some before ∧
      ∀ other, names.get? other =
        if other = name.lexeme ∧ distance = 0 then some readable else before.get? other := by
  rw [scopes_mark] at found
  cases scopes : walk.scopes with
  | nil => simp [scopes] at found
  | cons innermost outer =>
    rw [scopes, List.modifyHead_cons] at found
    cases distance with
    | zero =>
      obtain rfl := Option.some.inj found
      exact ⟨innermost, rfl, fun other => by simp [Names.get?_set]⟩
    | succ distance => exact ⟨names, found, fun other => by simp⟩

namespace Within

variable {root site : Site}

/-- The site stands in the initializer of a variable of this name, which is declared right in the
frame at this distance. -/
def InInitializer (root site : Site) (distance : Nat) (name : String) : Prop :=
  ∃ token value walk, token.lexeme = name ∧
    Within root ⟨.statement (.var token (some value)), site.frames.drop distance, walk⟩ ∧
    Within ⟨.expression value, site.frames.drop distance, walk.declare token⟩ site

theorem InInitializer.of_child {child : Site} {distance further : Nat} {name : String}
    (inside : InInitializer root site distance name) (isChild : child ∈ site.children)
    (frames : child.frames.drop further = site.frames.drop distance) :
    InInitializer root child further name := by
  obtain ⟨token, value, walk, isName, declaration, within⟩ := inside
  refine ⟨token, value, walk, isName, ?_, ?_⟩
  · rw [frames]
    exact declaration
  · rw [frames]
    exact within.step isChild

/-- **A name that may not be read yet is that of a variable whose initializer the site stands
in.** -/
theorem pending (wellFormed : root.WellFormed) (within : Within root site)
    (start : root.walk.scopes = []) {distance : Nat} {names : Names Bool} {name : String}
    (found : site.walk.scopes[distance]? = some names) (isPending : names.get? name = some false) :
    InInitializer root site distance name := by
  induction within generalizing distance names with
  | refl => simp [start] at found
  | @tail site child within isChild ih =>
    cases Site.descent (wellFormed.within within) isChild with
    | same frames scopes =>
      rw [scopes] at found
      exact (ih found isPending).of_child isChild (by rw [frames])
    | defined token frames scopes =>
      rw [scopes] at found
      obtain ⟨before, found, marks⟩ := Walk.getElem?_mark found
      rw [marks] at isPending
      split at isPending
      · cases isPending
      · exact (ih found isPending).of_child isChild (by rw [frames])
    | initializer token value isVariable isInitializer =>
      have frames : child.frames = site.frames := by rw [isInitializer]
      have scopes : child.walk.scopes = (site.walk.mark token false).scopes := by
        rw [isInitializer, Walk.scopes_declare]
      rw [scopes] at found
      obtain ⟨before, found, marks⟩ := Walk.getElem?_mark found
      rw [marks] at isPending
      split at isPending
      · rename_i here
        obtain ⟨rfl, rfl⟩ := here
        refine ⟨token, value, site.walk, rfl, ?_, ?_⟩
        · rw [frames, List.drop_zero, ← isVariable]
          exact within
        · rw [frames, List.drop_zero, isInitializer]
          exact .refl _
      · exact (ih found isPending).of_child isChild (by rw [frames])
    | opened frame opened _ frames scopes readable =>
      rw [scopes] at found
      cases distance with
      | zero =>
        obtain rfl := Option.some.inj found
        exact absurd isPending (readable name)
      | succ distance =>
        exact (ih found isPending).of_child isChild (by rw [frames, List.drop_succ_cons])

end Within

/-! ### Functions in expressions -/

/-- A part in which no scope is opened unless a function starts. -/
def Part.InExpression : Part → Prop
  | .statement _ | .statements _ => False
  | _ => True

/-- Right within an expression there is only what belongs to expressions, in the same frames, unless
the expression is the body of a function. -/
theorem Site.in_expression {site child : Site} (isChild : child ∈ site.children)
    (expression : site.part.InExpression) :
    (∃ kind body, site.part = .function kind body) ∨ child.part.InExpression ∧
      child.frames = site.frames := by
  obtain ⟨part, frames, walk⟩ := site
  cases part with
  | expression value =>
    right
    cases value with
    | literal => simp [children, Expr.sites] at isChild
    | grouping | unary | «variable» | lambda =>
      obtain rfl := List.mem_singleton.mp isChild
      exact ⟨trivial, rfl⟩
    | binary | logical | assign | call =>
      simp only [children, Expr.sites, List.mem_cons, List.not_mem_nil, or_false] at isChild
      rcases isChild with rfl | rfl <;> exact ⟨trivial, rfl⟩
    | ternary =>
      simp only [children, Expr.sites, List.mem_cons, List.not_mem_nil, or_false] at isChild
      rcases isChild with rfl | rfl | rfl <;> exact ⟨trivial, rfl⟩
  | arguments values =>
    right
    cases values with
    | nil => simp [children] at isChild
    | cons first rest =>
      simp only [children, List.mem_cons, List.not_mem_nil, or_false] at isChild
      rcases isChild with rfl | rfl <;> exact ⟨trivial, rfl⟩
  | statement | statements => exact absurd expression id
  | function kind body => exact .inl ⟨kind, body, rfl⟩
  | target => simp [children] at isChild

/-- **A site in an expression that has frames of its own stands in a function there.** -/
theorem Within.in_function {root site : Site} (within : Within root site)
    (expression : root.part.InExpression) :
    site.part.InExpression ∧ site.frames = root.frames ∨
      ∃ kind body inner, inner.part = .function kind body ∧ Within root inner ∧
      Within inner site := by
  induction within with
  | refl => exact .inl ⟨expression, rfl⟩
  | @tail site child within isChild ih =>
    rcases ih with ⟨inExpression, frames⟩ | ⟨kind, body, inner, isFunction, toInner, fromInner⟩
    · rcases Site.in_expression isChild inExpression
        with ⟨kind, body, isFunction⟩ | ⟨inExpression, same⟩
      · exact .inr ⟨kind, body, site, isFunction, within, (Within.refl site).step isChild⟩
      · exact .inl ⟨inExpression, same.trans frames⟩
    · exact .inr ⟨kind, body, inner, isFunction, toInner, fromInner.step isChild⟩

end Lox
