/-
**Trees with other nodes and other tokens.**

* `Relabelling` — what each node and each token becomes; `Expr.relabel`, `Stmt.relabel` and so on
  put it into effect.
* `Expr.tokens`, `Stmt.tokens` — the tokens in a tree.
* `Derives.relabel` — tokens of the same kinds derive from the same phrases, with the relabelled
  trees.
* `Derives.renumber` — trees that are numbered from further on differ in their nodes only.
* `Derives.append` — the declarations of two texts, one after the other, are those of both.
-/

import Lox.Proofs.Grammar.Exact
import Lox.Proofs.Grammar.Trees

namespace Lox

/-- What each node and each token becomes. -/
structure Relabelling where
  node : NodeId → NodeId
  token : Token → Token

/-! ### Relabelled trees -/

mutual

/-- The expression with other nodes and tokens. -/
def Expr.relabel (change : Relabelling) : Expr → Expr
  | .literal value => .literal value
  | .grouping inner => .grouping (inner.relabel change)
  | .unary operator right => .unary (change.token operator) (right.relabel change)
  | .binary left operator right =>
    .binary (left.relabel change) (change.token operator) (right.relabel change)
  | .logical left operator right =>
    .logical (left.relabel change) (change.token operator) (right.relabel change)
  | .ternary condition question yes no =>
    .ternary (condition.relabel change) (change.token question) (yes.relabel change)
      (no.relabel change)
  | .variable node name => .variable (change.node node) (change.token name)
  | .assign node name value => .assign (change.node node) (change.token name) (value.relabel change)
  | .call callee arguments closing =>
    .call (callee.relabel change) (relabelArguments change arguments) (change.token closing)
  | .lambda keyword body => .lambda (change.token keyword) (body.relabel change)

/-- The expressions with other nodes and tokens. -/
def relabelArguments (change : Relabelling) : List Expr → List Expr
  | [] => []
  | first :: rest => first.relabel change :: relabelArguments change rest

/-- The statement with other nodes and tokens. -/
def Stmt.relabel (change : Relabelling) : Stmt → Stmt
  | .expression value => .expression (value.relabel change)
  | .print keyword value => .print (change.token keyword) (value.relabel change)
  | .var name none => .var (change.token name) none
  | .var name (some initializer) => .var (change.token name) (some (initializer.relabel change))
  | .block forms => .block (relabelStatements change forms)
  | .if condition yes none => .if (condition.relabel change) (yes.relabel change) none
  | .if condition yes (some no) =>
    .if (condition.relabel change) (yes.relabel change) (some (no.relabel change))
  | .while condition body => .while (condition.relabel change) (body.relabel change)
  | .function name body => .function (change.token name) (body.relabel change)
  | .return keyword none => .return (change.token keyword) none
  | .return keyword (some value) => .return (change.token keyword) (some (value.relabel change))

/-- The statements with other nodes and tokens. -/
def relabelStatements (change : Relabelling) : List Stmt → List Stmt
  | [] => []
  | first :: rest => first.relabel change :: relabelStatements change rest

/-- The body of a function with other nodes and tokens. -/
def FunctionBody.relabel (change : Relabelling) : FunctionBody → FunctionBody
  | ⟨parameters, forms⟩ => ⟨parameters.map change.token, relabelStatements change forms⟩

end

/-- The part with other nodes and tokens. -/
def Part.relabel (change : Relabelling) : Part → Part
  | .expression value => .expression (value.relabel change)
  | .arguments values => .arguments (relabelArguments change values)
  | .statement form => .statement (form.relabel change)
  | .statements forms => .statements (relabelStatements change forms)
  | .function kind body => .function kind (body.relabel change)
  | .target node access name => .target (change.node node) access (change.token name)

variable (change : Relabelling)

mutual

theorem Expr.relabel_id : (value : Expr) → value.relabel ⟨id, id⟩ = value
  | .literal _ | .variable _ _ => rfl
  | .grouping inner => by rw [Expr.relabel, inner.relabel_id]
  | .unary operator right => by rw [Expr.relabel, right.relabel_id]; rfl
  | .binary left operator right => by rw [Expr.relabel, left.relabel_id, right.relabel_id]; rfl
  | .logical left operator right => by rw [Expr.relabel, left.relabel_id, right.relabel_id]; rfl
  | .ternary condition question yes no => by
    rw [Expr.relabel, condition.relabel_id, yes.relabel_id, no.relabel_id]
    rfl
  | .assign node name value => by rw [Expr.relabel, value.relabel_id]; rfl
  | .call callee arguments closing => by
    rw [Expr.relabel, callee.relabel_id, relabelArguments_id arguments]
    rfl
  | .lambda keyword body => by rw [Expr.relabel, body.relabel_id]; rfl

theorem relabelArguments_id : (values : List Expr) → relabelArguments ⟨id, id⟩ values = values
  | [] => rfl
  | first :: rest => by rw [relabelArguments, first.relabel_id, relabelArguments_id rest]

theorem Stmt.relabel_id : (form : Stmt) → form.relabel ⟨id, id⟩ = form
  | .expression value => by rw [Stmt.relabel, value.relabel_id]
  | .print keyword value => by rw [Stmt.relabel, value.relabel_id]; rfl
  | .var name none => rfl
  | .var name (some initializer) => by rw [Stmt.relabel, initializer.relabel_id]; rfl
  | .block forms => by rw [Stmt.relabel, relabelStatements_id forms]
  | .if condition yes none => by rw [Stmt.relabel, condition.relabel_id, yes.relabel_id]
  | .if condition yes (some no) => by
    rw [Stmt.relabel, condition.relabel_id, yes.relabel_id, no.relabel_id]
  | .while condition body => by rw [Stmt.relabel, condition.relabel_id, body.relabel_id]
  | .function name body => by rw [Stmt.relabel, body.relabel_id]; rfl
  | .return keyword none => rfl
  | .return keyword (some value) => by rw [Stmt.relabel, value.relabel_id]; rfl

theorem relabelStatements_id : (forms : List Stmt) → relabelStatements ⟨id, id⟩ forms = forms
  | [] => rfl
  | first :: rest => by rw [relabelStatements, first.relabel_id, relabelStatements_id rest]

theorem FunctionBody.relabel_id : (body : FunctionBody) → body.relabel ⟨id, id⟩ = body
  | ⟨parameters, forms⟩ => by
    rw [FunctionBody.relabel, relabelStatements_id forms]
    exact congrArg (FunctionBody.mk · forms) (List.map_id parameters)

end

/-! ### The trees of phrases -/

/-- The tree of a phrase with other nodes and tokens. -/
def Phrase.relabel : (phrase : Phrase) → phrase.Tree → phrase.Tree
  | .declarations, forms => relabelStatements change forms
  | .declaration _, form | .variable, form | .statement _, form | .expressionStatement, form =>
    Stmt.relabel change form
  | .initializer, value | .optional, value => Option.map (Expr.relabel change) value
  | .forInitializer, form => Option.map (Stmt.relabel change) form
  | .function, body => FunctionBody.relabel change body
  | .expression, value | .ternary, value | .binary _, value | .operand _, value | .unary, value
  | .call, value | .primary, value => Expr.relabel change value
  | .joined _, others => others.map fun other => (change.token other.1, other.2.relabel change)
  | .calls, lists => lists.map fun list => (relabelArguments change list.1, change.token list.2)
  | .arguments, values | .argumentList _, values => relabelArguments change values

theorem Level.relabel_joinAll (level : Level) (left : Expr) (others : List (Token × Expr)) :
    (level.joinAll left others).relabel change =
      level.joinAll (left.relabel change)
        (others.map fun other => (change.token other.1, other.2.relabel change)) := by
  induction others generalizing left with
  | nil => rfl
  | cons other rest ih =>
    have joined : (level.join left other.1 other.2).relabel change =
        level.join (left.relabel change) (change.token other.1) (other.2.relabel change) := by
      cases level <;> rfl
    have unfolded : level.joinAll left (other :: rest) =
      level.joinAll (level.join left other.1 other.2) rest := rfl
    rw [unfolded, ih, joined]
    rfl

theorem Expr.relabel_callAll (callee : Expr) (calls : List (List Expr × Token)) :
    (callee.callAll calls).relabel change =
      (callee.relabel change).callAll
        (calls.map fun list => (relabelArguments change list.1, change.token list.2)) := by
  induction calls generalizing callee with
  | nil => rfl
  | cons call rest ih =>
    have unfolded : callee.callAll (call :: rest) = (Expr.call callee call.1 call.2).callAll rest :=
      rfl
    rw [unfolded, ih]
    rfl

theorem Stmt.relabel_forLoop (initializer : Option Stmt) (condition increment : Option Expr)
    (body : Stmt) :
    (Stmt.forLoop initializer condition increment body).relabel change =
      Stmt.forLoop (initializer.map (Stmt.relabel change)) (condition.map (Expr.relabel change))
        (increment.map (Expr.relabel change)) (body.relabel change) := by
  cases initializer <;> cases condition <;> cases increment <;> rfl

theorem Stmt.relabel_var (name : Token) (initializer : Option Expr) :
    (Stmt.var name initializer).relabel change =
      .var (change.token name) (initializer.map (Expr.relabel change)) := by
  cases initializer <;> rfl

theorem Stmt.relabel_return (keyword : Token) (value : Option Expr) :
    (Stmt.return keyword value).relabel change =
      .return (change.token keyword) (value.map (Expr.relabel change)) := by
  cases value <;> rfl

/-! ### Derivations -/

section

variable {nearest : Bool} {phrase : Phrase} {tokens : List Token} {tree : Numbered phrase.Tree}

/-- **Trees that are numbered from further on differ in their nodes only.** -/
theorem Derives.renumber (derives : Derives nearest phrase tokens tree) (index shift : Nat) :
    tree (index + shift) =
      (phrase.relabel ⟨fun node => ⟨node.index + shift⟩, id⟩ (tree index).1,
        (tree index).2 + shift) := by
  induction derives generalizing index with
  | noDeclarations | noOperators | noCalls | noArguments | noInitializer | nothing | forNothing
  | literal => rfl
  | variableDeclaration _ _ ih | statementDeclaration _ ih | ofExpression _ ih | ofTernary _ ih
  | ofBinary _ ih | ofTighter _ _ ih | ofUnary _ _ ih | ofCall _ ih
  | someArguments _ _ ih => exact ih index
  | functionDeclaration _ _ _ ih | expressionStatement _ _ ih | print _ _ _ ih | block _ _ _ ih
  | initializer _ _ ih | something _ ih | forVariable _ _ ih | forExpression _ ih | unary _ _ _ ih
  | group _ _ _ ih | lambda _ _ ih | oneArgument _ ih =>
    simp only [Numbered.bind_apply, Numbered.pure_apply, ih]
    rfl
  | function _ _ _ _ _ _ _ ih =>
    simp only [Numbered.bind_apply, Numbered.pure_apply, ih, Phrase.relabel,
      FunctionBody.relabel, List.map_id]
  | declared name _ _ ih =>
    simp only [Numbered.bind_apply, Numbered.pure_apply, ih]
    exact Prod.ext (Stmt.relabel_var ⟨fun node => ⟨node.index + shift⟩, id⟩ name.1 _).symm rfl
  | returning keyword _ _ ih =>
    simp only [Numbered.bind_apply, Numbered.pure_apply, ih]
    exact Prod.ext (Stmt.relabel_return ⟨fun node => ⟨node.index + shift⟩, id⟩ keyword.1 _).symm rfl
  | moreDeclarations _ _ first second | ifThen _ _ _ _ _ first second
  | whileLoop _ _ _ _ _ first second
  | moreOperators _ _ _ _ first second | moreCalls _ _ _ _ first second
  | moreArguments _ _ _ first second =>
    simp only [Numbered.bind_apply, Numbered.pure_apply, first, second]
    rfl
  | ifElse _ _ _ _ _ _ _ _ first second third | ternary _ _ _ _ _ first second third =>
    simp only [Numbered.bind_apply, Numbered.pure_apply, first, second, third]
    rfl
  | forLoop _ _ _ _ _ _ _ _ initial condition increment body =>
    simp only [Numbered.bind_apply, Numbered.pure_apply, initial, condition, increment, body]
    exact Prod.ext (Stmt.relabel_forLoop _ _ _ _ _).symm rfl
  | binary _ _ left others =>
    simp only [Numbered.bind_apply, Numbered.pure_apply, left, others]
    exact Prod.ext (Level.relabel_joinAll _ _ _ _).symm rfl
  | call _ _ callee calls =>
    simp only [Numbered.bind_apply, Numbered.pure_apply, callee, calls]
    exact Prod.ext (Expr.relabel_callAll _ _ _).symm rfl
  | assign _ _ _ ih =>
    have next : index + shift + 1 = index + 1 + shift := by omega
    have later : ∀ number, number + shift + 1 = number + 1 + shift := by omega
    simp only [Numbered.bind_apply, Numbered.pure_apply, Numbered.fresh_apply, next, ih, later]
    rfl
  | name =>
    have next : index + shift + 1 = index + 1 + shift := by omega
    simp only [Numbered.bind_apply, Numbered.pure_apply, Numbered.fresh_apply, next]
    rfl

/-- **Tokens of the same kinds derive from the same phrases, with the relabelled trees.** -/
theorem Derives.relabel {change : Token → Token} (kinds : ∀ token, (change token).kind = token.kind)
    (derives : Derives nearest phrase tokens tree) :
    Derives nearest phrase (tokens.map change) (phrase.relabel ⟨id, change⟩ <$> tree) := by
  have keep : ∀ {kind : Kind} (token : Terminal kind), (change token.1).kind = kind := fun token =>
    (kinds token.1).trans token.2
  have names : ∀ {ps parameters : List Token}, ParameterList ps parameters →
      ParameterList (ps.map change) (parameters.map change) := by
    intro ps parameters list
    induction list with
    | one name => exact .one ⟨change name.1, keep name⟩
    | more name comma _ ih => exact .more ⟨change name.1, keep name⟩ ⟨change comma.1, keep comma⟩ ih
  induction derives with
  | noDeclarations => exact .noDeclarations
  | noOperators => exact .noOperators
  | noCalls => exact .noCalls
  | noArguments => exact .noArguments
  | noInitializer => exact .noInitializer
  | nothing => exact .nothing
  | forNothing semicolon => exact .forNothing ⟨change semicolon.1, keep semicolon⟩
  | literal token isLiteral => exact .literal (change token) ((kinds token).symm ▸ isLiteral)
  | moreDeclarations _ _ first second =>
    rw [List.map_append]
    exact .moreDeclarations first second
  | functionDeclaration keyword name _ ih =>
    exact .functionDeclaration ⟨change keyword.1, keep keyword⟩ ⟨change name.1, keep name⟩ ih
  | variableDeclaration keyword _ ih =>
    exact .variableDeclaration ⟨change keyword.1, keep keyword⟩ ih
  | statementDeclaration _ ih => exact .statementDeclaration ih
  | declared name semicolon _ ih =>
    simp only [List.map_append, List.map_cons, List.map_nil]
    have declared := Derives.declared ⟨change name.1, keep name⟩
      ⟨change semicolon.1, keep semicolon⟩ ih
    refine cast (congrArg _ ?_) declared
    funext index
    exact Prod.ext (Stmt.relabel_var ⟨id, change⟩ name.1 _).symm rfl
  | initializer equals _ ih => exact .initializer ⟨change equals.1, keep equals⟩ ih
  | expressionStatement semicolon _ ih =>
    rw [List.map_append]
    exact .expressionStatement ⟨change semicolon.1, keep semicolon⟩ ih
  | ofExpression _ ih => exact .ofExpression ih
  | print keyword semicolon _ ih =>
    simp only [List.map_append, List.map_cons, List.map_nil]
    exact .print ⟨change keyword.1, keep keyword⟩ ⟨change semicolon.1, keep semicolon⟩ ih
  | returning keyword semicolon _ ih =>
    simp only [List.map_append, List.map_cons, List.map_nil]
    have returning :=
      Derives.returning ⟨change keyword.1, keep keyword⟩ ⟨change semicolon.1, keep semicolon⟩ ih
    refine cast (congrArg _ ?_) returning
    funext index
    exact Prod.ext (Stmt.relabel_return ⟨id, change⟩ keyword.1 _).symm rfl
  | block opening closing _ ih =>
    simp only [List.map_append, List.map_cons, List.map_nil]
    exact .block ⟨change opening.1, keep opening⟩ ⟨change closing.1, keep closing⟩ ih
  | ifThen keyword opening closing _ _ condition yes =>
    simp only [List.map_append, List.map_cons]
    exact .ifThen ⟨change keyword.1, keep keyword⟩ ⟨change opening.1, keep opening⟩
      ⟨change closing.1, keep closing⟩ condition yes
  | ifElse keyword opening closing otherwise _ _ near _ condition yes no =>
    simp only [List.map_append, List.map_cons]
    exact .ifElse ⟨change keyword.1, keep keyword⟩ ⟨change opening.1, keep opening⟩
      ⟨change closing.1, keep closing⟩ ⟨change otherwise.1, keep otherwise⟩ condition yes near no
  | whileLoop keyword opening closing _ _ condition body =>
    simp only [List.map_append, List.map_cons]
    exact .whileLoop ⟨change keyword.1, keep keyword⟩ ⟨change opening.1, keep opening⟩
      ⟨change closing.1, keep closing⟩ condition body
  | forLoop keyword opening semicolon closing _ _ _ _ initial condition increment body =>
    simp only [List.map_append, List.map_cons]
    have loop := Derives.forLoop ⟨change keyword.1, keep keyword⟩ ⟨change opening.1, keep opening⟩
      ⟨change semicolon.1, keep semicolon⟩ ⟨change closing.1, keep closing⟩
        initial condition increment body
    refine cast (congrArg _ ?_) loop
    funext index
    exact Prod.ext (Stmt.relabel_forLoop ⟨id, change⟩ _ _ _ _).symm rfl
  | forVariable keyword _ ih => exact .forVariable ⟨change keyword.1, keep keyword⟩ ih
  | forExpression _ ih => exact .forExpression ih
  | something _ ih => exact .something ih
  | @function opening closing left right ps parameters _ _ isParameters few _ ih =>
    simp only [List.map_append, List.map_cons, List.map_nil]
    have isParameters : Parameters (ps.map change) (parameters.map change) := by
      cases isParameters with
      | none => exact .none
      | some list => exact .some (names list)
    exact .function ⟨change opening.1, keep opening⟩ ⟨change closing.1, keep closing⟩
      ⟨change left.1, keep left⟩ ⟨change right.1, keep right⟩ isParameters
      (by rw [List.length_map]; exact few) ih
  | assign name equals _ ih =>
    exact .assign ⟨change name.1, keep name⟩ ⟨change equals.1, keep equals⟩ ih
  | ofTernary _ ih => exact .ofTernary ih
  | ofBinary _ ih => exact .ofBinary ih
  | ternary question colon _ _ _ condition yes no =>
    simp only [List.map_append, List.map_cons]
    exact .ternary ⟨change question.1, keep question⟩ ⟨change colon.1, keep colon⟩ condition yes no
  | binary _ _ left others =>
    rw [List.map_append]
    refine cast (congrArg _ ?_) (Derives.binary left others)
    funext index
    exact Prod.ext (Level.relabel_joinAll ⟨id, change⟩ _ _ _).symm rfl
  | moreOperators operator holds _ _ right others =>
    simp only [List.map_append, List.map_cons]
    exact .moreOperators (change operator) ((kinds operator).symm ▸ holds) right others
  | ofTighter next _ ih => exact .ofTighter next ih
  | ofUnary tightest _ ih => exact .ofUnary tightest ih
  | unary operator isUnary _ ih =>
    exact .unary (change operator) ((kinds operator).symm ▸ isUnary) ih
  | ofCall _ ih => exact .ofCall ih
  | call _ _ callee calls =>
    rw [List.map_append]
    refine cast (congrArg _ ?_) (Derives.call callee calls)
    funext index
    exact Prod.ext (Expr.relabel_callAll ⟨id, change⟩ _ _).symm rfl
  | moreCalls opening closing _ _ values others =>
    simp only [List.map_append, List.map_cons]
    exact .moreCalls ⟨change opening.1, keep opening⟩ ⟨change closing.1, keep closing⟩ values others
  | someArguments _ few ih => exact .someArguments ih few
  | oneArgument _ ih => exact .oneArgument ih
  | moreArguments comma _ _ value others =>
    simp only [List.map_append, List.map_cons]
    exact .moreArguments ⟨change comma.1, keep comma⟩ value others
  | name name => exact .name ⟨change name.1, keep name⟩
  | group opening closing _ ih =>
    simp only [List.map_append, List.map_cons, List.map_nil]
    exact .group ⟨change opening.1, keep opening⟩ ⟨change closing.1, keep closing⟩ ih
  | lambda keyword _ ih => exact .lambda ⟨change keyword.1, keep keyword⟩ ih

end

/-! ### The tokens of trees -/

mutual

/-- The tokens in an expression. -/
def Expr.tokens : Expr → List Token
  | .literal _ => []
  | .grouping inner => inner.tokens
  | .unary operator right => operator :: right.tokens
  | .binary left operator right
  | .logical left operator right => left.tokens ++ operator :: right.tokens
  | .ternary condition question yes no => condition.tokens ++ question :: (yes.tokens ++ no.tokens)
  | .variable _ name => [name]
  | .assign _ name value => name :: value.tokens
  | .call callee arguments closing => callee.tokens ++ tokensOfArguments arguments ++ [closing]
  | .lambda keyword body => keyword :: body.tokens

/-- The tokens in expressions. -/
def tokensOfArguments : List Expr → List Token
  | [] => []
  | first :: rest => first.tokens ++ tokensOfArguments rest

/-- The tokens in a statement. -/
def Stmt.tokens : Stmt → List Token
  | .expression value => value.tokens
  | .print keyword value => keyword :: value.tokens
  | .var name none => [name]
  | .var name (some initializer) => name :: initializer.tokens
  | .block forms => tokensOfStatements forms
  | .if condition yes none => condition.tokens ++ yes.tokens
  | .if condition yes (some no) => condition.tokens ++ yes.tokens ++ no.tokens
  | .while condition body => condition.tokens ++ body.tokens
  | .function name body => name :: body.tokens
  | .return keyword none => [keyword]
  | .return keyword (some value) => keyword :: value.tokens

/-- The tokens in statements. -/
def tokensOfStatements : List Stmt → List Token
  | [] => []
  | first :: rest => first.tokens ++ tokensOfStatements rest

/-- The tokens in the body of a function. -/
def FunctionBody.tokens : FunctionBody → List Token
  | ⟨parameters, forms⟩ => parameters ++ tokensOfStatements forms

end

/-- The tokens in a part. -/
def Part.tokens : Part → List Token
  | .expression value => value.tokens
  | .arguments values => tokensOfArguments values
  | .statement form => form.tokens
  | .statements forms => tokensOfStatements forms
  | .function _ body => body.tokens
  | .target _ _ name => [name]

/-! ### Two texts -/

/-- More declarations may come after these. -/
def Phrase.GoesOn (nearest : Bool) : (phrase : Phrase) → List Token → Numbered phrase.Tree → Prop
  | .declarations, tokens, first => ∀ others second, Derives nearest .declarations others second →
    Derives nearest .declarations (tokens ++ others) (do return (← first) ++ (← second))
  | _, _, _ => True

/-- **The declarations of two texts, one after the other, are those of both.** -/
theorem Derives.append {nearest : Bool} {phrase : Phrase} {tokens : List Token}
    {tree : Numbered phrase.Tree} (derives : Derives nearest phrase tokens tree) :
    phrase.GoesOn nearest tokens tree := by
  induction derives with
  | noDeclarations => exact fun _ _ derivesOther => derivesOther
  | moreDeclarations derivesFirst _ _ ih =>
    intro others second derivesOther
    rw [List.append_assoc]
    exact .moreDeclarations derivesFirst (ih others second derivesOther)
  | _ => trivial

end Lox
