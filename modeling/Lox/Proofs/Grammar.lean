/-
**The grammar, as derivations.**

```text
program     := declaration*
declaration := "fun" NAME function | "var" variable | statement
variable    := NAME ( "=" expression )? ";"
statement   := expression ";" | "print" expression ";" | "while" "(" expression ")" statement
             | "for" "(" ( "var" variable | expression ";" | ";" ) expression? ";" expression? ")"
               statement
             | "if" "(" expression ")" statement ( "else" statement )?
             | "{" declaration* "}" | "return" expression? ";"
function    := "(" ( NAME ( "," NAME )* )? ")" "{" declaration* "}"
expression  := NAME "=" expression | ternary
ternary     := or ( "?" expression ":" ternary )?
or          := and ( "or" and )*          and further levels alike, down to factor
factor      := unary ( ( "/" | "*" ) unary )*
unary       := ( "!" | "-" ) unary | call
call        := primary ( "(" ( expression ( "," expression )* )? ")" )*
primary     := NUMBER | STRING | "true" | "false" | "nil" | NAME | "(" expression ")"
             | "fun" function
```

* `Numbered α` — an `α` whose nodes are numbered from a given index on.
* `Phrase` — what can be derived, with the type of its tree.
* `Derives nearest phrase tokens tree` — the tokens derive from the phrase, and `tree` is the tree
  of that derivation. With `nearest`, an `else` belongs to the nearest `if`, which makes the grammar
  unambiguous; without it, the derivations are those of the productions above and no others.

A statement is *dangling* if it ends in an `if` without `else`: an `else` right after it could
belong to that `if`.
-/

import Lox.Tree.Parse

namespace Lox

/-! ### Trees with numbered nodes -/

/-- An `α` whose nodes are numbered from a given index on, and the next index after them. -/
def Numbered (α : Type) : Type :=
  Nat → α × Nat

namespace Numbered

variable {α β : Type}

instance : Monad Numbered where
  pure value := fun index => (value, index)
  bind first next := fun index => next (first index).1 (first index).2

/-- The next node identity. -/
def fresh : Numbered NodeId := fun index =>
  (⟨index⟩, index + 1)

@[simp] theorem pure_apply (value : α) (index : Nat) :
    (pure value : Numbered α) index = (value, index) :=
  rfl

@[simp] theorem bind_apply (first : Numbered α) (next : α → Numbered β) (index : Nat) :
    (first >>= next) index = next (first index).1 (first index).2 :=
  rfl

@[simp] theorem map_apply (change : α → β) (tree : Numbered α) (index : Nat) :
    (change <$> tree) index = (change (tree index).1, (tree index).2) :=
  rfl

@[simp] theorem fresh_apply (index : Nat) : fresh index = (⟨index⟩, index + 1) :=
  rfl

end Numbered

/-! ### Phrases -/

/-- What can be derived. -/
inductive Phrase where
  | declarations
  | declaration (dangling : Bool)
  /-- What follows `var`. -/
  | variable
  /-- An initializer with its equals sign, or nothing. -/
  | initializer
  | statement (dangling : Bool)
  | expressionStatement
  /-- The first clause of a `for` loop with its semicolon. -/
  | forInitializer
  /-- An expression or nothing. -/
  | optional
  /-- The parameters and the statements of a function. -/
  | function
  | expression
  | ternary
  /-- Operands of a level, joined by its operators. -/
  | binary (level : Level)
  /-- An operand of a level. -/
  | operand (level : Level)
  /-- The operators and operands of a level after the first operand. -/
  | joined (level : Level)
  | unary
  | call
  /-- The argument lists after a callee. -/
  | calls
  /-- The arguments of a call, of which there may be none. -/
  | arguments
  /-- As many arguments with commas between them. -/
  | argumentList (count : Nat)
  | primary

/-- The trees of a phrase. -/
abbrev Phrase.Tree : Phrase → Type
  | .declarations => List Stmt
  | .declaration _ => Stmt
  | .variable => Stmt
  | .initializer => Option Expr
  | .statement _ => Stmt
  | .expressionStatement => Stmt
  | .forInitializer => Option Stmt
  | .optional => Option Expr
  | .function => FunctionBody
  | .expression => Expr
  | .ternary => Expr
  | .binary _ => Expr
  | .operand _ => Expr
  | .joined _ => List (Token × Expr)
  | .unary => Expr
  | .call => Expr
  | .calls => List (List Expr × Token)
  | .arguments => List Expr
  | .argumentList _ => List Expr
  | .primary => Expr

/-- A token of a kind. -/
abbrev Terminal (kind : Kind) : Type :=
  { token : Token // token.kind = kind }

@[simp] theorem Terminal.kind_eq {kind : Kind} (token : Terminal kind) : token.1.kind = kind :=
  token.2

/-- The constant that a token of this kind is, if it is one. -/
def Kind.literal? : Kind → Option Literal
  | .keyword .false => some .false
  | .keyword .true => some .true
  | .keyword .nil => some .nil
  | .number value => some (.number value)
  | .string contents => some (.string contents)
  | _ => none

/-- An operand and those after it, joined from left to right. -/
def Level.joinAll (level : Level) (left : Expr) (others : List (Token × Expr)) : Expr :=
  others.foldl (fun left other => level.join left other.1 other.2) left

/-- A callee called with argument lists, one after the other. -/
def Expr.callAll (callee : Expr) (calls : List (List Expr × Token)) : Expr :=
  calls.foldl (fun callee call => .call callee call.1 call.2) callee

/-! ### Derivations -/

/-- The names of a parameter list, one at least. -/
inductive ParameterList : List Token → List Token → Prop
  | one (name : Terminal .identifier) : ParameterList [name.1] [name.1]
  | more (name : Terminal .identifier) (comma : Terminal (.symbol .comma))
      {tokens names : List Token} :
      ParameterList tokens names → ParameterList (name.1 :: comma.1 :: tokens) (name.1 :: names)

/-- The names between the parentheses of a function. -/
inductive Parameters : List Token → List Token → Prop
  | none : Parameters [] []
  | some {tokens names : List Token} : ParameterList tokens names → Parameters tokens names

/-- The tokens derive from the phrase, and this is the tree of the derivation. -/
inductive Derives (nearest : Bool) : (phrase : Phrase) → List Token → Numbered phrase.Tree → Prop
  -- declarations
  | noDeclarations : Derives nearest .declarations [] (pure [])
  | moreDeclarations {dangling : Bool} {ts us : List Token} {first : Numbered Stmt}
      {rest : Numbered (List Stmt)} :
      Derives nearest (.declaration dangling) ts first → Derives nearest .declarations us rest →
      Derives nearest .declarations (ts ++ us) (do return (← first) :: (← rest))
  | functionDeclaration (keyword : Terminal (.keyword .fun)) (name : Terminal .identifier)
      {ts : List Token} {function : Numbered FunctionBody} :
      Derives nearest .function ts function →
      Derives nearest (.declaration false) (keyword.1 :: name.1 :: ts)
        (do return .function name (← function))
  | variableDeclaration (keyword : Terminal (.keyword .var)) {ts : List Token}
      {declared : Numbered Stmt} :
      Derives nearest .variable ts declared →
      Derives nearest (.declaration false) (keyword.1 :: ts) declared
  | statementDeclaration {dangling : Bool} {ts : List Token} {statement : Numbered Stmt} :
      Derives nearest (.statement dangling) ts statement →
      Derives nearest (.declaration dangling) ts statement
  | declared (name : Terminal .identifier) (semicolon : Terminal (.symbol .semicolon))
      {ts : List Token} {initializer : Numbered (Option Expr)} :
      Derives nearest .initializer ts initializer →
      Derives nearest .variable (name.1 :: ts ++ [semicolon.1])
        (do return .var name (← initializer))
  | noInitializer : Derives nearest .initializer [] (pure none)
  | initializer (equals : Terminal (.symbol .equal)) {ts : List Token} {value : Numbered Expr} :
      Derives nearest .expression ts value →
      Derives nearest .initializer (equals.1 :: ts) (do return some (← value))
  -- statements
  | expressionStatement (semicolon : Terminal (.symbol .semicolon)) {ts : List Token}
      {value : Numbered Expr} :
      Derives nearest .expression ts value →
      Derives nearest .expressionStatement (ts ++ [semicolon.1]) (do return .expression (← value))
  | ofExpression {ts : List Token} {statement : Numbered Stmt} :
      Derives nearest .expressionStatement ts statement →
      Derives nearest (.statement false) ts statement
  | print (keyword : Terminal (.keyword .print)) (semicolon : Terminal (.symbol .semicolon))
      {ts : List Token} {value : Numbered Expr} :
      Derives nearest .expression ts value →
      Derives nearest (.statement false) (keyword.1 :: ts ++ [semicolon.1])
        (do return .print keyword (← value))
  | returning (keyword : Terminal (.keyword .return)) (semicolon : Terminal (.symbol .semicolon))
      {ts : List Token} {value : Numbered (Option Expr)} :
      Derives nearest .optional ts value →
      Derives nearest (.statement false) (keyword.1 :: ts ++ [semicolon.1])
        (do return .return keyword (← value))
  | block (opening : Terminal (.symbol .leftBrace)) (closing : Terminal (.symbol .rightBrace))
      {ts : List Token} {statements : Numbered (List Stmt)} :
      Derives nearest .declarations ts statements →
      Derives nearest (.statement false) (opening.1 :: ts ++ [closing.1])
        (do return .block (← statements))
  | ifThen (keyword : Terminal (.keyword .if)) (opening : Terminal (.symbol .leftParen))
      (closing : Terminal (.symbol .rightParen)) {dangling : Bool} {cs ys : List Token}
      {condition : Numbered Expr} {yes : Numbered Stmt} :
      Derives nearest .expression cs condition → Derives nearest (.statement dangling) ys yes →
      Derives nearest (.statement true) (keyword.1 :: opening.1 :: cs ++ closing.1 :: ys)
        (do return .if (← condition) (← yes) none)
  | ifElse (keyword : Terminal (.keyword .if)) (opening : Terminal (.symbol .leftParen))
      (closing : Terminal (.symbol .rightParen)) (otherwise : Terminal (.keyword .else))
      {within dangling : Bool} {cs ys ns : List Token}
      {condition : Numbered Expr} {yes no : Numbered Stmt} :
      Derives nearest .expression cs condition → Derives nearest (.statement within) ys yes →
      (nearest = true → within = false) → Derives nearest (.statement dangling) ns no →
      Derives nearest (.statement dangling)
        (keyword.1 :: opening.1 :: cs ++ closing.1 :: ys ++ otherwise.1 :: ns)
        (do return .if (← condition) (← yes) (some (← no)))
  | whileLoop (keyword : Terminal (.keyword .while)) (opening : Terminal (.symbol .leftParen))
      (closing : Terminal (.symbol .rightParen)) {dangling : Bool} {cs ts : List Token}
      {condition : Numbered Expr} {body : Numbered Stmt} :
      Derives nearest .expression cs condition → Derives nearest (.statement dangling) ts body →
      Derives nearest (.statement dangling) (keyword.1 :: opening.1 :: cs ++ closing.1 :: ts)
        (do return .while (← condition) (← body))
  | forLoop (keyword : Terminal (.keyword .for)) (opening : Terminal (.symbol .leftParen))
      (semicolon : Terminal (.symbol .semicolon)) (closing : Terminal (.symbol .rightParen))
      {dangling : Bool} {is cs us ts : List Token} {initializer : Numbered (Option Stmt)}
      {condition increment : Numbered (Option Expr)} {body : Numbered Stmt} :
      Derives nearest .forInitializer is initializer → Derives nearest .optional cs condition →
      Derives nearest .optional us increment → Derives nearest (.statement dangling) ts body →
      Derives nearest (.statement dangling)
        (keyword.1 :: opening.1 :: is ++ cs ++ semicolon.1 :: us ++ closing.1 :: ts)
        (do return .forLoop (← initializer) (← condition) (← increment) (← body))
  | forNothing (semicolon : Terminal (.symbol .semicolon)) :
      Derives nearest .forInitializer [semicolon.1] (pure none)
  | forVariable (keyword : Terminal (.keyword .var)) {ts : List Token} {declared : Numbered Stmt} :
      Derives nearest .variable ts declared →
      Derives nearest .forInitializer (keyword.1 :: ts) (do return some (← declared))
  | forExpression {ts : List Token} {statement : Numbered Stmt} :
      Derives nearest .expressionStatement ts statement →
      Derives nearest .forInitializer ts (do return some (← statement))
  | nothing : Derives nearest .optional [] (pure none)
  | something {ts : List Token} {value : Numbered Expr} :
      Derives nearest .expression ts value → Derives nearest .optional ts (do return some (← value))
  | function (opening : Terminal (.symbol .leftParen)) (closing : Terminal (.symbol .rightParen))
      (left : Terminal (.symbol .leftBrace)) (right : Terminal (.symbol .rightBrace))
      {ps names ts : List Token} {statements : Numbered (List Stmt)} :
      Parameters ps names → names.length ≤ maxArity → Derives nearest .declarations ts statements →
      Derives nearest .function (opening.1 :: ps ++ closing.1 :: left.1 :: ts ++ [right.1])
        (do return ⟨names, ← statements⟩)
  -- expressions
  | assign (name : Terminal .identifier) (equals : Terminal (.symbol .equal)) {ts : List Token}
      {value : Numbered Expr} :
      Derives nearest .expression ts value →
      Derives nearest .expression (name.1 :: equals.1 :: ts)
        (do let _ ← Numbered.fresh
            let value ← value
            return .assign (← Numbered.fresh) name value)
  | ofTernary {ts : List Token} {value : Numbered Expr} :
      Derives nearest .ternary ts value → Derives nearest .expression ts value
  | ofBinary {ts : List Token} {value : Numbered Expr} :
      Derives nearest (.binary .or) ts value → Derives nearest .ternary ts value
  | ternary (question : Terminal (.symbol .question)) (colon : Terminal (.symbol .colon))
      {cs ys ns : List Token} {condition yes no : Numbered Expr} :
      Derives nearest (.binary .or) cs condition → Derives nearest .expression ys yes →
      Derives nearest .ternary ns no →
      Derives nearest .ternary (cs ++ question.1 :: ys ++ colon.1 :: ns)
        (do return .ternary (← condition) question (← yes) (← no))
  | binary {level : Level} {ts us : List Token} {left : Numbered Expr}
      {others : Numbered (List (Token × Expr))} :
      Derives nearest (.operand level) ts left → Derives nearest (.joined level) us others →
      Derives nearest (.binary level) (ts ++ us) (do return level.joinAll (← left) (← others))
  | noOperators {level : Level} : Derives nearest (.joined level) [] (pure [])
  | moreOperators {level : Level} (operator : Token) {ts us : List Token} {right : Numbered Expr}
      {others : Numbered (List (Token × Expr))} :
      level.holds operator.kind = true → Derives nearest (.operand level) ts right →
      Derives nearest (.joined level) us others →
      Derives nearest (.joined level) (operator :: ts ++ us)
        (do return (operator, ← right) :: (← others))
  | ofTighter {level tighter : Level} {ts : List Token} {value : Numbered Expr} :
      level.tighter? = some tighter → Derives nearest (.binary tighter) ts value →
      Derives nearest (.operand level) ts value
  | ofUnary {level : Level} {ts : List Token} {value : Numbered Expr} :
      level.tighter? = none → Derives nearest .unary ts value →
      Derives nearest (.operand level) ts value
  | unary (operator : Token) {ts : List Token} {right : Numbered Expr} :
      operator.kind.isUnary = true → Derives nearest .unary ts right →
      Derives nearest .unary (operator :: ts) (do return .unary operator (← right))
  | ofCall {ts : List Token} {value : Numbered Expr} :
      Derives nearest .call ts value → Derives nearest .unary ts value
  | call {ts us : List Token} {callee : Numbered Expr}
      {calls : Numbered (List (List Expr × Token))} :
      Derives nearest .primary ts callee → Derives nearest .calls us calls →
      Derives nearest .call (ts ++ us) (do return (← callee).callAll (← calls))
  | noCalls : Derives nearest .calls [] (pure [])
  | moreCalls (opening : Terminal (.symbol .leftParen)) (closing : Terminal (.symbol .rightParen))
      {ts us : List Token} {arguments : Numbered (List Expr)}
      {others : Numbered (List (List Expr × Token))} :
      Derives nearest .arguments ts arguments → Derives nearest .calls us others →
      Derives nearest .calls (opening.1 :: ts ++ closing.1 :: us)
        (do return (← arguments, closing.1) :: (← others))
  | noArguments : Derives nearest .arguments [] (pure [])
  | someArguments {count : Nat} {ts : List Token} {arguments : Numbered (List Expr)} :
      Derives nearest (.argumentList count) ts arguments → count ≤ maxArity →
      Derives nearest .arguments ts arguments
  | oneArgument {ts : List Token} {value : Numbered Expr} :
      Derives nearest .expression ts value →
      Derives nearest (.argumentList 1) ts (do return [← value])
  | moreArguments (comma : Terminal (.symbol .comma)) {count : Nat} {ts us : List Token}
      {value : Numbered Expr} {others : Numbered (List Expr)} :
      Derives nearest .expression ts value → Derives nearest (.argumentList count) us others →
      Derives nearest (.argumentList (count + 1)) (ts ++ comma.1 :: us)
        (do return (← value) :: (← others))
  | literal (token : Token) {value : Literal} :
      token.kind.literal? = some value →
      Derives nearest .primary [token] (pure (.literal value))
  | name (name : Terminal .identifier) :
      Derives nearest .primary [name.1] (do return .variable (← Numbered.fresh) name)
  | group (opening : Terminal (.symbol .leftParen)) (closing : Terminal (.symbol .rightParen))
      {ts : List Token} {inner : Numbered Expr} :
      Derives nearest .expression ts inner →
      Derives nearest .primary (opening.1 :: ts ++ [closing.1]) (do return .grouping (← inner))
  | lambda (keyword : Terminal (.keyword .fun)) {ts : List Token}
      {function : Numbered FunctionBody} :
      Derives nearest .function ts function →
      Derives nearest .primary (keyword.1 :: ts) (do return .lambda keyword (← function))

end Lox
