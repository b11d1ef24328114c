/-
**What the first tokens of a phrase can be.**

The parser decides on the next token, and once on the one after it. These are the facts about
derivations that make its decisions the right ones.

* `Opening` — a token list that starts with a token of certain kinds, where a `fun` has a
  parenthesis after it.
* `Phrase.Starts` — how the tokens of a phrase start. `Derives.starts`: every
  phrase starts as it should.
* `Derives.no_end` — no end token derives from anything.
-/

import Lox.Proofs.Grammar

namespace Lox

/-! ### Kinds that start something -/

/-- Whether a primary expression can start with a token of this kind. -/
def Kind.opensPrimary (kind : Kind) : Bool :=
  kind.literal?.isSome || kind = .identifier || kind = .symbol .leftParen || kind = .keyword .fun

/-- Whether an expression can start with a token of this kind. -/
def Kind.opensExpression (kind : Kind) : Bool :=
  kind.opensPrimary || kind.isUnary

/-- Whether a statement that is no expression starts with a token of this kind. -/
def Kind.opensForm : Kind → Bool
  | .keyword .print => true
  | .keyword .return => true
  | .keyword .while => true
  | .keyword .for => true
  | .keyword .if => true
  | .symbol .leftBrace => true
  | _ => false

/-- Whether a statement can start with a token of this kind. -/
def Kind.opensStatement (kind : Kind) : Bool :=
  kind.opensForm || kind.opensExpression

/-- Whether a declaration can start with a token of this kind. -/
def Kind.opensDeclaration (kind : Kind) : Bool :=
  kind.opensStatement || kind = .keyword .var

/-- A token list that starts with a token of certain kinds. -/
def StartsWith (test : Kind → Bool) (tokens : List Token) : Prop :=
  ∃ first rest, tokens = first :: rest ∧ test first.kind = true

/-- A token list that starts with a token of certain kinds, where a `fun` has a parenthesis after
it. -/
def Opening (test : Kind → Bool) (tokens : List Token) : Prop :=
  ∃ first rest, tokens = first :: rest ∧ test first.kind = true ∧
    (first.kind = .keyword .fun → (firstToken rest).kind = .symbol .leftParen)

@[simp] theorem firstToken_nil : (firstToken []).kind = .eof :=
  rfl

@[simp] theorem firstToken_cons (token : Token) (tokens : List Token) :
    firstToken (token :: tokens) = token :=
  rfl

theorem firstToken_append {tokens : List Token} {kind : Kind}
    (seen : (firstToken tokens).kind = kind) (noEnd : kind ≠ .eof) (others : List Token) :
    (firstToken (tokens ++ others)).kind = kind := by
  cases tokens with
  | nil => exact absurd seen.symm noEnd
  | cons token tokens => exact seen

theorem StartsWith.mono {test weaker : Kind → Bool} {tokens : List Token}
    (starts : StartsWith test tokens) (weakens : ∀ kind, test kind = true → weaker kind = true) :
    StartsWith weaker tokens := by
  obtain ⟨first, rest, rfl, passes⟩ := starts
  exact ⟨first, rest, rfl, weakens _ passes⟩

theorem StartsWith.append {test : Kind → Bool} {tokens : List Token}
    (starts : StartsWith test tokens) (others : List Token) :
    StartsWith test (tokens ++ others) := by
  obtain ⟨first, rest, rfl, passes⟩ := starts
  exact ⟨first, rest ++ others, rfl, passes⟩

theorem StartsWith.length_pos {test : Kind → Bool} {tokens : List Token}
    (starts : StartsWith test tokens) : 0 < tokens.length := by
  obtain ⟨first, rest, rfl, _⟩ := starts
  simp

namespace Opening

variable {test : Kind → Bool} {tokens : List Token}

theorem startsWith (opening : Opening test tokens) : StartsWith test tokens := by
  obtain ⟨first, rest, rfl, passes, _⟩ := opening
  exact ⟨first, rest, rfl, passes⟩

theorem mono {weaker : Kind → Bool} (opening : Opening test tokens)
    (weakens : ∀ kind, test kind = true → weaker kind = true) : Opening weaker tokens := by
  obtain ⟨first, rest, rfl, passes, next⟩ := opening
  exact ⟨first, rest, rfl, weakens _ passes, next⟩

theorem append (opening : Opening test tokens) (others : List Token) :
    Opening test (tokens ++ others) := by
  obtain ⟨first, rest, rfl, passes, next⟩ := opening
  exact ⟨first, rest ++ others, rfl, passes,
    fun isFun => firstToken_append (next isFun) (by decide) others⟩

/-- A first token that is no `fun` needs nothing after it. -/
theorem of_first {first : Token} (rest : List Token) (passes : test first.kind = true)
    (noFun : first.kind ≠ .keyword .fun) : Opening test (first :: rest) :=
  ⟨first, rest, rfl, passes, fun isFun => absurd isFun noFun⟩

end Opening

/-! ### How phrases start -/

/-- How the tokens of a phrase start, where that matters. -/
def Phrase.Starts : Phrase → List Token → Prop
  | .declarations, tokens => tokens = [] ∨ StartsWith Kind.opensDeclaration tokens
  | .declaration _, tokens => StartsWith Kind.opensDeclaration tokens
  | .variable, tokens => StartsWith (· = .identifier) tokens
  | .statement _, tokens => Opening Kind.opensStatement tokens
  | .function, tokens => (firstToken tokens).kind = .symbol .leftParen
  | .expressionStatement, tokens | .expression, tokens | .ternary, tokens | .binary _, tokens
  | .operand _, tokens | .unary, tokens
  | .argumentList _, tokens => Opening Kind.opensExpression tokens
  | .call, tokens | .primary, tokens => Opening Kind.opensPrimary tokens
  | .joined level, tokens => tokens = [] ∨ StartsWith level.holds tokens
  | _, _ => True

theorem Kind.opensPrimary_of_literal? {kind : Kind} {value : Literal}
    (isLiteral : kind.literal? = some value) : kind.opensPrimary = true := by
  simp [Kind.opensPrimary, isLiteral]

theorem Kind.opensExpression_of_opensPrimary {kind : Kind} (opens : kind.opensPrimary = true) :
    kind.opensExpression = true := by
  simp [Kind.opensExpression, opens]

theorem Kind.opensExpression_of_isUnary {kind : Kind} (isUnary : kind.isUnary = true) :
    kind.opensExpression = true := by
  simp [Kind.opensExpression, isUnary]

theorem Kind.opensStatement_of_opensExpression {kind : Kind} (opens : kind.opensExpression = true) :
    kind.opensStatement = true := by
  simp [Kind.opensStatement, opens]

theorem Kind.opensDeclaration_of_opensStatement {kind : Kind} (opens : kind.opensStatement = true) :
    kind.opensDeclaration = true := by
  simp [Kind.opensDeclaration, opens]

/-- Every phrase starts as it should. -/
theorem Derives.starts {nearest : Bool} {phrase : Phrase} {tokens : List Token}
    {tree : Numbered phrase.Tree} (derives : Derives nearest phrase tokens tree) :
    phrase.Starts tokens := by
  induction derives with
  | noDeclarations => exact .inl rfl
  | moreDeclarations _ _ ih _ => exact .inr (ih.append _)
  | functionDeclaration keyword name _ _ =>
    exact ⟨_, _, rfl, by rw [keyword.2]; decide⟩
  | variableDeclaration keyword _ _ =>
    exact ⟨_, _, rfl, by rw [keyword.2]; decide⟩
  | statementDeclaration _ ih =>
    exact ih.startsWith.mono fun _ => Kind.opensDeclaration_of_opensStatement
  | declared name _ _ _ => exact ⟨_, _, rfl, by simp⟩
  | expressionStatement _ _ ih => exact ih.append _
  | ofExpression _ ih => exact ih.mono fun _ => Kind.opensStatement_of_opensExpression
  | print keyword _ _ _ | returning keyword _ _ _ | block keyword _ _ _ | ifThen keyword _ _ _ _ _ _
  | ifElse keyword _ _ _ _ _ _ _ _ _ _ | whileLoop keyword _ _ _ _ _ _
  | forLoop keyword _ _ _ _ _ _ _ _ _ _ _ =>
    exact .of_first _ (by rw [keyword.2]; decide) (by rw [keyword.2]; decide)
  | function opening _ _ _ _ _ _ _ => exact opening.2
  | assign name _ _ _ => exact .of_first _ (by rw [name.2]; decide) (by rw [name.2]; decide)
  | ofTernary _ ih | ofBinary _ ih | ofTighter _ _ ih | ofUnary _ _ ih
  | oneArgument _ ih => exact ih
  | ofCall _ ih => exact ih.mono fun _ => Kind.opensExpression_of_opensPrimary
  | noOperators => exact .inl rfl
  | moreOperators operator holds _ _ _ _ => exact .inr ⟨operator, _, rfl, holds⟩
  | ternary _ _ _ _ _ ih _ _ => exact (ih.append _).append _
  | binary _ _ ih _ | call _ _ ih _ | moreArguments _ _ _ ih _ => exact ih.append _
  | @unary operator _ _ isUnary _ _ =>
    refine .of_first _ (Kind.opensExpression_of_isUnary isUnary) fun isFun => ?_
    rw [isFun] at isUnary
    exact absurd isUnary (by decide)
  | @literal token _ isLiteral =>
    refine .of_first _ (Kind.opensPrimary_of_literal? isLiteral) fun isFun => ?_
    rw [isFun] at isLiteral
    exact absurd isLiteral (by simp [Kind.literal?])
  | name name => exact .of_first _ (by rw [name.2]; decide) (by rw [name.2]; decide)
  | group opening _ _ _ => exact .of_first _ (by rw [opening.2]; decide) (by rw [opening.2]; decide)
  | lambda keyword _ ih => exact ⟨_, _, rfl, by rw [keyword.2]; decide, fun _ => ih⟩
  | _ => trivial

/-! ### No end tokens -/

theorem ParameterList.no_end {tokens names : List Token} (list : ParameterList tokens names) :
    ∀ token ∈ tokens, token.kind ≠ .eof := by
  induction list with
  | one name => simp
  | more name comma _ ih => simpa using ih

theorem Parameters.no_end {tokens names : List Token} (parameters : Parameters tokens names) :
    ∀ token ∈ tokens, token.kind ≠ .eof := by
  cases parameters with
  | none => simp
  | some list => exact list.no_end

theorem Level.holds_eof (level : Level) : level.holds .eof = false := by
  cases level <;> decide

/-- No end token derives from anything. -/
theorem Derives.no_end {nearest : Bool} {phrase : Phrase} {tokens : List Token}
    {tree : Numbered phrase.Tree} (derives : Derives nearest phrase tokens tree) :
    ∀ token ∈ tokens, token.kind ≠ .eof := by
  induction derives with
  | function _ _ _ _ parameters _ _ ih =>
    have := parameters.no_end
    simp_all [or_imp]
  | moreOperators operator holds _ _ _ _ =>
    have : operator.kind ≠ .eof := fun isEnd => by simp [isEnd, Level.holds_eof] at holds
    simp_all [or_imp]
  | unary operator isUnary _ _ =>
    have : operator.kind ≠ .eof := fun isEnd => by simp [isEnd, Kind.isUnary] at isUnary
    simp_all
  | literal token isLiteral =>
    have : token.kind ≠ .eof := fun isEnd => by simp [isEnd, Kind.literal?] at isLiteral
    simpa using this
  | _ => simp_all [or_imp]

end Lox
