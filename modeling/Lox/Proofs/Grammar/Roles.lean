/-
**What the tokens of a tree stand for.**

* `Role`, `Role.Fits` — what a token stands for in a tree, and the kinds that may stand for it.
* `Use` — a token in its role, or a constant. `Expr.uses`, `Stmt.uses` and so on
  list all uses in a tree.
* `Derives.uses_fit` — in the tree of a derivation every token fits its role, and
  constants are those of tokens. `Derives.tokens_subset`: the tokens of a program are
  among those that it derives from.
* `Within.uses_subset` — what is used within a site is used at the site.
-/

import Lox.Proofs.Relabelling

namespace Lox

/-! ### Roles -/

/-- What a token stands for in a tree. -/
inductive Role where
  | unary
  | binary
  | logical
  | question
  /-- The closing parenthesis of a call. -/
  | closing
  | name
  | keyword (word : Keyword)

/-- The operators between two operands that are always evaluated. -/
def binarySymbols : List Symbol :=
  [.bangEqual, .equalEqual, .greater, .greaterEqual, .less, .lessEqual,
    .minus, .plus, .star, .slash]

/-- Tokens of this kind may stand for this. -/
def Role.Fits (kind : Kind) : Role → Prop
  | .unary => kind = .symbol .bang ∨ kind = .symbol .minus
  | .binary => ∃ symbol ∈ binarySymbols, kind = .symbol symbol
  | .logical => kind = .keyword .or ∨ kind = .keyword .and
  | .question => kind = .symbol .question
  | .closing => kind = .symbol .rightParen
  | .name => kind = .identifier
  | .keyword word => kind = .keyword word

/-- What the operator of a level stands for. -/
def Level.role : Level → Role
  | .or | .and => .logical
  | _ => .binary

theorem Level.fits_role {level : Level} {kind : Kind} (holds : level.holds kind = true) :
    level.role.Fits kind := by
  cases level <;> simp [Level.holds, Level.role, Role.Fits, binarySymbols] at holds ⊢ <;> grind

/-! ### Uses -/

/-- A token in its role, or a constant. -/
inductive Use where
  | token (role : Role) (used : Token)
  | literal (value : Literal)

/-- The token, if it is one. -/
def Use.token? : Use → Option Token
  | .token _ used => some used
  | .literal _ => none

/-- A token is among these and fits its role. A constant is that of one of them, or the condition of
a loop that has none. -/
def Use.Fits (tokens : List Token) : Use → Prop
  | .token role used => used ∈ tokens ∧ role.Fits used.kind
  | .literal value => value = .true ∨ ∃ token ∈ tokens, token.kind.literal? = some value

mutual

/-- What is used in an expression. -/
def Expr.uses : Expr → List Use
  | .literal value => [.literal value]
  | .grouping inner => inner.uses
  | .unary operator right => .token .unary operator :: right.uses
  | .binary left operator right => left.uses ++ .token .binary operator :: right.uses
  | .logical left operator right => left.uses ++ .token .logical operator :: right.uses
  | .ternary condition question yes no =>
    condition.uses ++ .token .question question :: (yes.uses ++ no.uses)
  | .variable _ name => [.token .name name]
  | .assign _ name value => .token .name name :: value.uses
  | .call callee arguments closing =>
    callee.uses ++ usesOfArguments arguments ++ [.token .closing closing]
  | .lambda keyword body => .token (.keyword .fun) keyword :: body.uses

/-- What is used in expressions. -/
def usesOfArguments : List Expr → List Use
  | [] => []
  | first :: rest => first.uses ++ usesOfArguments rest

/-- What is used in a statement. -/
def Stmt.uses : Stmt → List Use
  | .expression value => value.uses
  | .print keyword value => .token (.keyword .print) keyword :: value.uses
  | .var name none => [.token .name name]
  | .var name (some initializer) => .token .name name :: initializer.uses
  | .block forms => usesOfStatements forms
  | .if condition yes none => condition.uses ++ yes.uses
  | .if condition yes (some no) => condition.uses ++ yes.uses ++ no.uses
  | .while condition body => condition.uses ++ body.uses
  | .function name body => .token .name name :: body.uses
  | .return keyword none => [.token (.keyword .return) keyword]
  | .return keyword (some value) => .token (.keyword .return) keyword :: value.uses

/-- What is used in statements. -/
def usesOfStatements : List Stmt → List Use
  | [] => []
  | first :: rest => first.uses ++ usesOfStatements rest

/-- What is used in the body of a function. -/
def FunctionBody.uses : FunctionBody → List Use
  | ⟨parameters, forms⟩ => parameters.map (.token .name) ++ usesOfStatements forms

end

/-- What is used in a part. -/
def Part.uses : Part → List Use
  | .expression value => value.uses
  | .arguments values => usesOfArguments values
  | .statement form => form.uses
  | .statements forms => usesOfStatements forms
  | .function _ body => body.uses
  | .target _ _ name => [.token .name name]

/-! ### The tokens that are used -/

mutual

theorem Expr.tokens_eq : (value : Expr) → value.tokens = value.uses.filterMap Use.token?
  | .literal _ | .variable _ _ => rfl
  | .grouping inner => by rw [Expr.tokens, Expr.uses, inner.tokens_eq]
  | .unary operator right => by
    rw [Expr.tokens, Expr.uses, right.tokens_eq]
    rfl
  | .binary left operator right | .logical left operator right => by
    rw [Expr.tokens, Expr.uses, left.tokens_eq, right.tokens_eq, List.filterMap_append]
    rfl
  | .ternary condition question yes no => by
    rw [Expr.tokens, Expr.uses, condition.tokens_eq, yes.tokens_eq, no.tokens_eq,
      List.filterMap_append, List.filterMap_cons, List.filterMap_append]
    rfl
  | .assign _ name value => by
    rw [Expr.tokens, Expr.uses, value.tokens_eq]
    rfl
  | .call callee arguments closing => by
    rw [Expr.tokens, Expr.uses, callee.tokens_eq, tokensOfArguments_eq arguments,
      List.filterMap_append, List.filterMap_append]
    rfl
  | .lambda keyword body => by
    rw [Expr.tokens, Expr.uses, body.tokens_eq]
    rfl

theorem tokensOfArguments_eq : (values : List Expr) →
    tokensOfArguments values = (usesOfArguments values).filterMap Use.token?
  | [] => rfl
  | first :: rest => by
    rw [tokensOfArguments, usesOfArguments, first.tokens_eq, tokensOfArguments_eq rest,
      List.filterMap_append]

theorem Stmt.tokens_eq : (form : Stmt) → form.tokens = form.uses.filterMap Use.token?
  | .expression value => by rw [Stmt.tokens, Stmt.uses, value.tokens_eq]
  | .print keyword value | .return keyword (some value) => by
    rw [Stmt.tokens, Stmt.uses, value.tokens_eq]
    rfl
  | .var _ none | .return _ none => rfl
  | .var name (some initializer) => by
    rw [Stmt.tokens, Stmt.uses, initializer.tokens_eq]
    rfl
  | .block forms => by rw [Stmt.tokens, Stmt.uses, tokensOfStatements_eq forms]
  | .if condition yes none => by
    rw [Stmt.tokens, Stmt.uses, condition.tokens_eq, yes.tokens_eq, List.filterMap_append]
  | .if condition yes (some no) => by
    rw [Stmt.tokens, Stmt.uses, condition.tokens_eq, yes.tokens_eq, no.tokens_eq,
      List.filterMap_append, List.filterMap_append]
  | .while condition body => by
    rw [Stmt.tokens, Stmt.uses, condition.tokens_eq, body.tokens_eq, List.filterMap_append]
  | .function name body => by
    rw [Stmt.tokens, Stmt.uses, body.tokens_eq]
    rfl

theorem tokensOfStatements_eq : (forms : List Stmt) →
    tokensOfStatements forms = (usesOfStatements forms).filterMap Use.token?
  | [] => rfl
  | first :: rest => by
    rw [tokensOfStatements, usesOfStatements, first.tokens_eq, tokensOfStatements_eq rest,
      List.filterMap_append]

theorem FunctionBody.tokens_eq :
    (body : FunctionBody) → body.tokens = body.uses.filterMap Use.token?
  | ⟨parameters, forms⟩ => by
    have names : (parameters.map (Use.token .name)).filterMap Use.token? = parameters := by
      rw [List.filterMap_map]
      exact List.filterMap_some
    rw [FunctionBody.tokens, FunctionBody.uses, tokensOfStatements_eq forms,
      List.filterMap_append, names]

end

theorem Part.tokens_eq (part : Part) : part.tokens = part.uses.filterMap Use.token? := by
  cases part with
  | expression value => exact value.tokens_eq
  | arguments values => exact tokensOfArguments_eq values
  | statement form => exact form.tokens_eq
  | statements forms => exact tokensOfStatements_eq forms
  | function kind body => exact body.tokens_eq
  | target => rfl

/-- A token that is used is one of the tokens. -/
theorem Part.mem_tokens {part : Part} {role : Role} {token : Token}
    (isUse : .token role token ∈ part.uses) :
    token ∈ part.tokens := by
  rw [Part.tokens_eq]
  exact List.mem_filterMap.mpr ⟨_, isUse, rfl⟩

/-- What is used within a site is used at the site. -/
theorem Within.uses_subset {root site : Site} (within : Within root site) :
    site.part.uses ⊆ root.part.uses := by
  refine Relation.ReflTransGen.trans_induction_on within (fun _ => List.Subset.refl _) ?_
    fun _ _ first second => List.Subset.trans second first
  rintro ⟨part, frames, walk⟩ child isChild
  cases part with
  | expression value =>
    cases value <;> simp [Site.children, Expr.sites] at isChild <;>
      grind [Part.uses, Expr.uses]
  | arguments values =>
    cases values <;> simp [Site.children] at isChild
    grind [Part.uses, usesOfArguments]
  | statement form =>
    cases form with
    | var _ initializer =>
      cases initializer <;> simp [Site.children, Stmt.sites] at isChild
      grind [Part.uses, Stmt.uses]
    | «if» _ _ no =>
      cases no <;> simp [Site.children, Stmt.sites] at isChild <;> grind [Part.uses, Stmt.uses]
    | «return» _ value =>
      cases value <;> simp [Site.children, Stmt.sites] at isChild
      grind [Part.uses, Stmt.uses]
    | _ => simp [Site.children, Stmt.sites] at isChild; grind [Part.uses, Stmt.uses]
  | statements forms =>
    cases forms <;> simp [Site.children] at isChild
    grind [Part.uses, usesOfStatements]
  | function kind body =>
    simp [Site.children] at isChild
    grind [Part.uses, FunctionBody.uses]
  | target => simp [Site.children] at isChild

/-- The tokens of a part are those of what is around it. -/
theorem Within.tokens_subset {root site : Site} (within : Within root site) :
    site.part.tokens ⊆ root.part.tokens := by
  rw [Part.tokens_eq, Part.tokens_eq]
  exact List.filterMap_subset _ within.uses_subset

/-! ### Derivations -/

/-- What is used in the tree of a phrase. -/
def Phrase.uses : (phrase : Phrase) → phrase.Tree → List Use
  | .declarations, forms => usesOfStatements forms
  | .declaration _, form | .variable, form | .statement _, form
  | .expressionStatement, form => form.uses
  | .initializer, value | .optional, value => Option.elim value [] Expr.uses
  | .forInitializer, form => Option.elim form [] Stmt.uses
  | .function, body => body.uses
  | .expression, value | .ternary, value | .binary _, value | .operand _, value | .unary, value
  | .call, value | .primary, value => Expr.uses value
  | .joined level, others => others.flatMap fun other => .token level.role other.1 :: other.2.uses
  | .calls, lists => lists.flatMap fun list => usesOfArguments list.1 ++ [.token .closing list.2]
  | .arguments, values | .argumentList _, values => usesOfArguments values

theorem Level.uses_joinAll (level : Level) (left : Expr) (others : List (Token × Expr)) :
    (level.joinAll left others).uses =
      left.uses ++ others.flatMap fun other => .token level.role other.1 :: other.2.uses := by
  induction others generalizing left with
  | nil => exact (List.append_nil _).symm
  | cons other rest ih =>
    have joined : (level.join left other.1 other.2).uses =
        left.uses ++ .token level.role other.1 :: other.2.uses := by
      cases level <;> rfl
    have unfolded : level.joinAll left (other :: rest) =
      level.joinAll (level.join left other.1 other.2) rest := rfl
    rw [unfolded, ih, joined, List.flatMap_cons, List.append_assoc]

theorem Expr.uses_callAll (callee : Expr) (calls : List (List Expr × Token)) :
    (callee.callAll calls).uses =
      callee.uses ++
        calls.flatMap fun call => usesOfArguments call.1 ++ [.token .closing call.2] := by
  induction calls generalizing callee with
  | nil => exact (List.append_nil _).symm
  | cons call rest ih =>
    have unfolded : callee.callAll (call :: rest) = (Expr.call callee call.1 call.2).callAll rest :=
      rfl
    rw [unfolded, ih, Expr.uses, List.flatMap_cons, List.append_assoc,
      List.append_assoc, List.append_assoc]

/-- A loop without a condition has a constant for it. -/
theorem Stmt.uses_forLoop (initializer : Option Stmt) (condition increment : Option Expr)
    (body : Stmt) :
    (Stmt.forLoop initializer condition increment body).uses =
      Option.elim initializer [] Stmt.uses ++ Option.elim condition
        [.literal .true] Expr.uses ++ body.uses ++ Option.elim increment [] Expr.uses := by
  cases initializer <;> cases condition <;> cases increment <;>
    simp [Stmt.forLoop, Stmt.withInitializer, Stmt.withIncrement, Stmt.uses,
      usesOfStatements, Expr.uses]

theorem Stmt.uses_var (name : Token) (initializer : Option Expr) :
    (Stmt.var name initializer).uses =
      .token .name name :: Option.elim initializer [] Expr.uses := by
  cases initializer <;> rfl

theorem Stmt.uses_return (keyword : Token) (value : Option Expr) :
    (Stmt.return keyword value).uses =
      .token (.keyword .return) keyword :: Option.elim value [] Expr.uses := by
  cases value <;> rfl

/-- All of this fits the tokens. -/
def AllFit (tokens : List Token) (uses : List Use) : Prop :=
  ∀ use ∈ uses, use.Fits tokens

namespace AllFit

variable {tokens others all : List Token} {uses more : List Use}

theorem nil (tokens : List Token) : AllFit tokens [] :=
  List.forall_mem_nil _

theorem mono (fit : AllFit tokens uses) (enough : ∀ token ∈ tokens, token ∈ all) :
    AllFit all uses := by
  intro use isUse
  cases use with
  | token role used => exact (fit _ isUse).imp_left (enough used)
  | literal value => exact (fit _ isUse).imp_right fun ⟨token, isToken, same⟩ => ⟨token,
      enough token isToken, same⟩

theorem of_eq (same : uses = more) (fit : AllFit tokens more) : AllFit tokens uses :=
  same ▸ fit

theorem append (fit : AllFit tokens uses) (fitMore : AllFit tokens more) :
    AllFit tokens (uses ++ more) :=
  List.forall_mem_append.mpr ⟨fit, fitMore⟩

/-- Two lists fit as soon as there are enough tokens for either. -/
theorem both (fit : AllFit tokens uses) (fitOthers : AllFit others more)
    (enough : ∀ token, token ∈ tokens ∨ token ∈ others → token ∈ all) : AllFit all (uses ++ more) :=
  append (fit.mono fun token isToken => enough token (.inl isToken))
    (fitOthers.mono fun token isToken => enough token (.inr isToken))

theorem cons {role : Role} {token : Token} (fits : role.Fits token.kind) (fit : AllFit tokens uses)
    (enough : ∀ other, other = token ∨ other ∈ tokens → other ∈ all) :
    AllFit all (.token role token :: uses) :=
  List.forall_mem_cons.mpr ⟨⟨enough token (.inl rfl), fits⟩, fit.mono
    fun other isOther => enough other (.inr isOther)⟩

/-- The condition of a loop may be missing. -/
theorem condition {value : Option Expr} (fit : AllFit tokens (value.elim [] Expr.uses)) :
    AllFit tokens (value.elim [.literal .true] Expr.uses) := by
  cases value with
  | none => exact List.forall_mem_singleton.mpr (.inl rfl)
  | some value => exact fit

end AllFit

theorem ParameterList.fit {tokens names : List Token} (list : ParameterList tokens names) :
    AllFit tokens (names.map (.token .name)) := by
  induction list with
  | one name => exact .cons name.2 (.nil []) (by simp)
  | more name comma _ ih => exact .cons name.2 ih (by grind)

/-- **In the tree of a derivation, everything that is used fits the tokens that it derives
from.** -/
theorem Derives.uses_fit {nearest : Bool} {phrase : Phrase} {tokens : List Token}
    {tree : Numbered phrase.Tree} (derives : Derives nearest phrase tokens tree) (index : Nat) :
    AllFit tokens (phrase.uses (tree index).1) := by
  induction derives generalizing index with
  | noDeclarations | noOperators | noCalls | noArguments | noInitializer
  | nothing | forNothing => exact .nil _
  | literal token isLiteral =>
    exact List.forall_mem_singleton.mpr (.inr ⟨token, List.mem_singleton_self token, isLiteral⟩)
  | variableDeclaration _ _ ih | initializer _ _ ih | forVariable _ _ ih =>
    exact (ih index).mono fun _ => List.mem_cons_of_mem _
  | statementDeclaration _ ih | ofExpression _ ih | ofTernary _ ih
  | ofBinary _ ih | ofTighter _ _ ih | ofUnary _ _ ih | ofCall _ ih | someArguments _ _ ih
  | something _ ih | forExpression _ ih => exact ih index
  | functionDeclaration keyword name _ ih => exact .cons name.2 (ih index) (by grind)
  | expressionStatement _ _ ih => exact (ih index).mono (by grind)
  | block _ _ _ ih | group _ _ _ ih => exact (ih index).mono (by grind)
  | print keyword _ _ ih => exact .cons keyword.2 (ih index) (by grind)
  | lambda keyword _ ih => exact .cons keyword.2 (ih index) (by grind)
  | unary operator isUnary _ ih =>
    have fits : Role.unary.Fits operator.kind := by
      unfold Kind.isUnary at isUnary
      unfold Role.Fits
      simpa using isUnary
    exact .cons fits (ih index) (by grind)
  | declared name _ _ ih =>
    refine .of_eq (Stmt.uses_var _ _) ?_
    exact .cons name.2 (ih index) (by grind)
  | returning keyword _ _ ih =>
    refine .of_eq (Stmt.uses_return _ _) ?_
    exact .cons keyword.2 (ih index) (by grind)
  | moreDeclarations _ _ first others => exact .both (first _) (others _) (by grind)
  | ifThen _ _ _ _ _ condition yes => exact .both (condition _) (yes _) (by grind)
  | whileLoop _ _ _ _ _ condition body => exact .both (condition _) (body _) (by grind)
  | ifElse _ _ _ _ _ _ _ _ condition yes no =>
    exact .both (.both (condition _) (yes _) (fun _ => List.mem_append.mpr)) (no _) (by grind)
  | forLoop _ _ _ _ _ _ _ _ initial condition increment body =>
    refine .of_eq (Stmt.uses_forLoop _ _ _ _) ?_
    exact .both (.both (.both (initial _) (condition _).condition fun _ => List.mem_append.mpr)
      (body _) fun _ => List.mem_append.mpr) (increment _) (by grind)
  | function _ _ _ _ isParameters _ _ ih =>
    cases isParameters with
    | none => exact .both (.nil []) (ih _) (by grind)
    | some list => exact .both list.fit (ih _) (by grind)
  | assign name _ _ ih => exact .cons name.2 (ih _) (by grind)
  | ternary question _ _ _ _ condition yes no =>
    exact .both (condition _) (.cons question.2 (.both (yes _) (no _) fun _ => List.mem_append.mpr)
      fun _ => List.mem_cons.mpr) (by grind)
  | binary _ _ left others =>
    refine .of_eq (Level.uses_joinAll _ _ _) ?_
    exact .both (left _) (others _) (by grind)
  | moreOperators operator holds _ _ right others =>
    exact .both (.cons (Level.fits_role holds) (right _) fun _ => List.mem_cons.mpr)
      (others _) (by grind)
  | call _ _ callee calls =>
    refine .of_eq (Expr.uses_callAll _ _) ?_
    exact .both (callee _) (calls _) (by grind)
  | moreCalls _ closing _ _ values others =>
    exact .both (.both (values _) (.cons closing.2 (.nil []) fun _ => List.mem_cons.mpr)
      fun _ => List.mem_append.mpr) (others _) (by grind)
  | oneArgument _ ih => exact .both (ih _) (.nil []) (by grind)
  | moreArguments _ _ _ value others => exact .both (value _) (others _) (by grind)
  | name name => exact .cons name.2 (.nil []) (by grind)

/-- The tokens in the tree of a program are among those that it derives from. -/
theorem Derives.tokens_subset {nearest : Bool} {tokens : List Token}
    {program : Numbered (List Stmt)} (derives : Derives nearest .declarations tokens program)
    (index : Nat) :
    tokensOfStatements (program index).1 ⊆ tokens := by
  intro token isToken
  rw [tokensOfStatements_eq] at isToken
  obtain ⟨use, isUse, same⟩ := List.mem_filterMap.mp isToken
  have fits := derives.uses_fit index use isUse
  cases use with
  | token role used =>
    obtain rfl := Option.some.inj same
    exact fits.1
  | literal => cases same

end Lox
