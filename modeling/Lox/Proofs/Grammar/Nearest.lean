/-
**The nearest `if` takes the `else`, and no text is lost by that.**

* `Derives.with_else` — after a dangling statement, an `else` and a statement can be taken in: they
  go to the innermost `if` that has none.
* `Derives.nearest` — whatever derives from a phrase also derives from it with each `else` at the
  nearest `if`, though the tree may be another one.
* `Derives.anywhere` — the derivations with each `else` at the nearest `if` are among all
  derivations.
-/

import Lox.Proofs.Grammar

namespace Lox

variable {tokens : List Token}

/-! ### Taking in an `else` -/

/-- Tokens that derive from some statement, with each `else` at the nearest `if`. -/
def DerivesSomeStatement (tokens : List Token) : Prop :=
  ∃ dangling tree, Derives true (.statement dangling) tokens tree

/-- A dangling statement with these tokens takes in an `else` and a statement. -/
def Phrase.TakesElse : Phrase → List Token → Prop
  | .statement true, tokens => ∀ (otherwise : Terminal (.keyword .else)) (others : List Token),
    DerivesSomeStatement others → DerivesSomeStatement (tokens ++ otherwise.1 :: others)
  | _, _ => True

/-- **An `else` after a dangling statement goes to the innermost `if` that has none.** -/
theorem Derives.with_else {phrase : Phrase} {tree : Numbered phrase.Tree}
    (derives : Derives true phrase tokens tree) : phrase.TakesElse tokens := by
  -- the phrases that dangle are statements only, and each ends in a statement that dangles as well
  induction derives with
  | @ifThen keyword opening closing within cs ys condition yes derivesCondition derivesYes _ ih =>
    rintro otherwise others ⟨dangling, no, derivesNo⟩
    cases within with
    | false =>
      exact ⟨_, _, .ifElse keyword opening closing otherwise derivesCondition derivesYes
        (fun _ => rfl) derivesNo⟩
    | true =>
      obtain ⟨_, _, derivesBoth⟩ := ih otherwise others ⟨dangling, no, derivesNo⟩
      have derivesAll := Derives.ifThen keyword opening closing derivesCondition derivesBoth
      rw [← List.cons_append, ← List.append_assoc] at derivesAll
      exact ⟨_, _, derivesAll⟩
  | @ifElse keyword opening closing inner within dangling cs ys ns _ _ _ derivesCondition derivesYes
      nearest _ _ _ ih =>
    cases dangling with
    | false => trivial
    | true =>
      intro otherwise others follows
      obtain ⟨_, _, derivesBoth⟩ := ih otherwise others follows
      have derivesAll :=
        Derives.ifElse keyword opening closing inner derivesCondition derivesYes nearest derivesBoth
      rw [← List.cons_append, ← List.append_assoc] at derivesAll
      exact ⟨_, _, derivesAll⟩
  | @whileLoop keyword opening closing dangling cs ts _ _ derivesCondition _ _ ih =>
    cases dangling with
    | false => trivial
    | true =>
      intro otherwise others follows
      obtain ⟨_, _, derivesBoth⟩ := ih otherwise others follows
      have derivesAll := Derives.whileLoop keyword opening closing derivesCondition derivesBoth
      rw [← List.cons_append, ← List.append_assoc] at derivesAll
      exact ⟨_, _, derivesAll⟩
  | @forLoop keyword opening semicolon closing dangling is cs us ts _ _ _ _ derivesInitializer
      derivesCondition derivesIncrement _ _ _ _ ih =>
    cases dangling with
    | false => trivial
    | true =>
      intro otherwise others follows
      obtain ⟨_, _, derivesBoth⟩ := ih otherwise others follows
      have derivesAll := Derives.forLoop keyword opening semicolon closing derivesInitializer
        derivesCondition derivesIncrement derivesBoth
      rw [← List.cons_append, ← List.append_assoc] at derivesAll
      exact ⟨_, _, derivesAll⟩
  | _ => trivial

/-! ### All derivations -/

/-- Tokens that derive from the phrase with each `else` at the nearest `if`. A statement may dangle
where the one it stands for does not. -/
def Phrase.Nearest : Phrase → List Token → Prop
  | .statement _, tokens => DerivesSomeStatement tokens
  | .declaration _, tokens => ∃ dangling tree, Derives true (.declaration dangling) tokens tree
  | phrase, tokens => ∃ tree, Derives true phrase tokens tree

/-- **What derives from a phrase derives from it with each `else` at the nearest `if`.** -/
theorem Derives.nearest {phrase : Phrase} {tree : Numbered phrase.Tree}
    (derives : Derives false phrase tokens tree) : phrase.Nearest tokens := by
  induction derives with
  | noDeclarations => exact ⟨_, .noDeclarations⟩
  | moreDeclarations _ _ first others =>
    obtain ⟨_, _, first⟩ := first
    obtain ⟨_, others⟩ := others
    exact ⟨_, .moreDeclarations first others⟩
  | functionDeclaration keyword name _ function =>
    obtain ⟨_, function⟩ := function
    exact ⟨_, _, .functionDeclaration keyword name function⟩
  | variableDeclaration keyword _ declared =>
    obtain ⟨_, declared⟩ := declared
    exact ⟨_, _, .variableDeclaration keyword declared⟩
  | statementDeclaration _ statement =>
    obtain ⟨_, _, statement⟩ := statement
    exact ⟨_, _, .statementDeclaration statement⟩
  | declared name semicolon _ initial =>
    obtain ⟨_, initial⟩ := initial
    exact ⟨_, .declared name semicolon initial⟩
  | noInitializer => exact ⟨_, .noInitializer⟩
  | initializer equals _ value =>
    obtain ⟨_, value⟩ := value
    exact ⟨_, .initializer equals value⟩
  | expressionStatement semicolon _ value =>
    obtain ⟨_, value⟩ := value
    exact ⟨_, .expressionStatement semicolon value⟩
  | ofExpression _ statement =>
    obtain ⟨_, statement⟩ := statement
    exact ⟨_, _, .ofExpression statement⟩
  | print keyword semicolon _ value =>
    obtain ⟨_, value⟩ := value
    exact ⟨_, _, .print keyword semicolon value⟩
  | returning keyword semicolon _ value =>
    obtain ⟨_, value⟩ := value
    exact ⟨_, _, .returning keyword semicolon value⟩
  | block opening closing _ statements =>
    obtain ⟨_, statements⟩ := statements
    exact ⟨_, _, .block opening closing statements⟩
  | ifThen keyword opening closing _ _ condition yes =>
    obtain ⟨_, condition⟩ := condition
    obtain ⟨_, _, yes⟩ := yes
    exact ⟨_, _, .ifThen keyword opening closing condition yes⟩
  | @ifElse keyword opening closing otherwise _ _ cs ys ns _ _ _ _ _ _ _ condition yes no =>
    obtain ⟨_, condition⟩ := condition
    obtain ⟨within, _, yes⟩ := yes
    cases within with
    | false =>
      obtain ⟨_, _, no⟩ := no
      exact ⟨_, _, .ifElse keyword opening closing otherwise condition yes (fun _ => rfl) no⟩
    | true =>
      -- the `else` belongs further inside, and the outer `if` is left without one
      obtain ⟨_, _, both⟩ := yes.with_else otherwise ns no
      have all := Derives.ifThen keyword opening closing condition both
      rw [← List.cons_append, ← List.append_assoc] at all
      exact ⟨_, _, all⟩
  | whileLoop keyword opening closing _ _ condition body =>
    obtain ⟨_, condition⟩ := condition
    obtain ⟨_, _, body⟩ := body
    exact ⟨_, _, .whileLoop keyword opening closing condition body⟩
  | forLoop keyword opening semicolon closing _ _ _ _ initial condition increment body =>
    obtain ⟨_, initial⟩ := initial
    obtain ⟨_, condition⟩ := condition
    obtain ⟨_, increment⟩ := increment
    obtain ⟨_, _, body⟩ := body
    exact ⟨_, _, .forLoop keyword opening semicolon closing initial condition increment body⟩
  | forNothing semicolon => exact ⟨_, .forNothing semicolon⟩
  | forVariable keyword _ declared =>
    obtain ⟨_, declared⟩ := declared
    exact ⟨_, .forVariable keyword declared⟩
  | forExpression _ statement =>
    obtain ⟨_, statement⟩ := statement
    exact ⟨_, .forExpression statement⟩
  | nothing => exact ⟨_, .nothing⟩
  | something _ value =>
    obtain ⟨_, value⟩ := value
    exact ⟨_, .something value⟩
  | function opening closing left right parameters few _ statements =>
    obtain ⟨_, statements⟩ := statements
    exact ⟨_, .function opening closing left right parameters few statements⟩
  | assign name equals _ value =>
    obtain ⟨_, value⟩ := value
    exact ⟨_, .assign name equals value⟩
  | ofTernary _ value =>
    obtain ⟨_, value⟩ := value
    exact ⟨_, .ofTernary value⟩
  | ofBinary _ value =>
    obtain ⟨_, value⟩ := value
    exact ⟨_, .ofBinary value⟩
  | ternary question colon _ _ _ condition yes no =>
    obtain ⟨_, condition⟩ := condition
    obtain ⟨_, yes⟩ := yes
    obtain ⟨_, no⟩ := no
    exact ⟨_, .ternary question colon condition yes no⟩
  | binary _ _ left others =>
    obtain ⟨_, left⟩ := left
    obtain ⟨_, others⟩ := others
    exact ⟨_, .binary left others⟩
  | noOperators => exact ⟨_, .noOperators⟩
  | moreOperators operator holds _ _ right others =>
    obtain ⟨_, right⟩ := right
    obtain ⟨_, others⟩ := others
    exact ⟨_, .moreOperators operator holds right others⟩
  | ofTighter next _ value =>
    obtain ⟨_, value⟩ := value
    exact ⟨_, .ofTighter next value⟩
  | ofUnary tightest _ value =>
    obtain ⟨_, value⟩ := value
    exact ⟨_, .ofUnary tightest value⟩
  | unary operator isUnary _ right =>
    obtain ⟨_, right⟩ := right
    exact ⟨_, .unary operator isUnary right⟩
  | ofCall _ value =>
    obtain ⟨_, value⟩ := value
    exact ⟨_, .ofCall value⟩
  | call _ _ callee calls =>
    obtain ⟨_, callee⟩ := callee
    obtain ⟨_, calls⟩ := calls
    exact ⟨_, .call callee calls⟩
  | noCalls => exact ⟨_, .noCalls⟩
  | moreCalls opening closing _ _ values others =>
    obtain ⟨_, values⟩ := values
    obtain ⟨_, others⟩ := others
    exact ⟨_, .moreCalls opening closing values others⟩
  | noArguments => exact ⟨_, .noArguments⟩
  | someArguments _ few list =>
    obtain ⟨_, list⟩ := list
    exact ⟨_, .someArguments list few⟩
  | oneArgument _ value =>
    obtain ⟨_, value⟩ := value
    exact ⟨_, .oneArgument value⟩
  | moreArguments comma _ _ value others =>
    obtain ⟨_, value⟩ := value
    obtain ⟨_, others⟩ := others
    exact ⟨_, .moreArguments comma value others⟩
  | literal token isLiteral => exact ⟨_, .literal token isLiteral⟩
  | name name => exact ⟨_, .name name⟩
  | group opening closing _ inner =>
    obtain ⟨_, inner⟩ := inner
    exact ⟨_, .group opening closing inner⟩
  | lambda keyword _ function =>
    obtain ⟨_, function⟩ := function
    exact ⟨_, .lambda keyword function⟩

/-- With each `else` at the nearest `if`, a derivation is still one of the grammar. -/
theorem Derives.anywhere {phrase : Phrase} {tree : Numbered phrase.Tree}
    (derives : Derives true phrase tokens tree) : Derives false phrase tokens tree := by
  induction derives with
  | ifElse keyword opening closing otherwise _ _ _ _ condition yes no =>
    exact .ifElse keyword opening closing otherwise condition yes nofun no
  | print keyword semicolon _ value => exact .print keyword semicolon value
  | returning keyword semicolon _ value => exact .returning keyword semicolon value
  | block opening closing _ statements => exact .block opening closing statements
  | ternary question colon _ _ _ condition yes no => exact .ternary question colon condition yes no
  | ofUnary tightest _ value => exact .ofUnary tightest value
  | _ => constructor <;> assumption

end Lox
