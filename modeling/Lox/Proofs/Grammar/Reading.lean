/-
**Derived tokens are read as the tree of their derivation.**

* `Reads parse slack follow tokens tree` — given enough fuel, `parse` takes exactly these tokens off
  the front of any others, provided that the next token is one that `follow` allows, and makes
  `tree` of them, without a diagnostic. How much fuel is enough grows with the number of tokens.
* `Phrase.Reads` — the same for the production of a phrase, with the tokens that may follow it.
* `Derives.reads` — what derives from a phrase, with each `else` at the nearest `if`, is read by its
  production. The proof has one lemma for each rule of the grammar.
-/

import Lox.Proofs.Grammar.Opening

namespace Lox

open Parse

/-! ### Running a sequence -/

namespace Step

variable {σ ε α β : Type}

theorem view_apply (read : σ → α) (state : σ) :
    (view read : Step σ ε α) state = .done (read state) state :=
  rfl

theorem bind_done {first : Step σ ε α} {state later : σ} {value : α}
    (done : first state = .done value later) (next : α → Step σ ε β) :
    (first >>= next) state = next value later := by
  rw [bind_apply, done]

end Step

/-! ### Looking at tokens and taking them -/

namespace Parse

variable {tokens : List Token} {diagnostics : List Diagnostic} {nextNode : Nat}

theorem sees_eq_true {test : Kind → Bool} (noEnd : (firstToken tokens).kind ≠ .eof)
    (passes : test (firstToken tokens).kind = true) :
    Cursor.sees ⟨tokens, diagnostics, nextNode⟩ test = true := by
  simp [Cursor.sees, Cursor.atEnd, Cursor.peek, noEnd, passes]

theorem sees_eq_false {test : Kind → Bool} (fails : test (firstToken tokens).kind = false) :
    Cursor.sees ⟨tokens, diagnostics, nextNode⟩ test = false := by
  simp [Cursor.sees, Cursor.peek, fails]

theorem takeIf_some {token : Token} {test : Kind → Bool} (noEnd : token.kind ≠ .eof)
    (passes : test token.kind = true) :
    takeIf test ⟨token :: tokens, diagnostics, nextNode⟩ =
      .done (some token) ⟨tokens, diagnostics, nextNode⟩ := by
  rw [takeIf, if_pos (sees_eq_true (by exact noEnd) (by exact passes))]
  rfl

theorem takeIf_none {test : Kind → Bool} (fails : test (firstToken tokens).kind = false) :
    takeIf test ⟨tokens, diagnostics, nextNode⟩ = .done none ⟨tokens, diagnostics, nextNode⟩ := by
  rw [takeIf, if_neg (by rw [sees_eq_false fails]; exact Bool.false_ne_true)]

theorem takes_true {kind : Kind} (token : Terminal kind) (noEnd : kind ≠ .eof) :
    takes kind ⟨token.1 :: tokens, diagnostics, nextNode⟩ =
      .done true ⟨tokens, diagnostics, nextNode⟩ := by
  rw [takes, Step.bind_done (takeIf_some (by rwa [token.2]) (by simp))]
  rfl

theorem takes_false {kind : Kind} (other : (firstToken tokens).kind ≠ kind) :
    takes kind ⟨tokens, diagnostics, nextNode⟩ = .done false ⟨tokens, diagnostics, nextNode⟩ := by
  rw [takes, Step.bind_done (takeIf_none (by simpa using other))]
  rfl

theorem expect_terminal {kind : Kind} (token : Terminal kind) (noEnd : kind ≠ .eof)
    (expected : Expected) :
    expect kind expected ⟨token.1 :: tokens, diagnostics, nextNode⟩ =
      .done token.1 ⟨tokens, diagnostics, nextNode⟩ := by
  rw [expect, Step.bind_done (takeIf_some (by rwa [token.2]) (by simp))]
  rfl

theorem sees_apply (test : Kind → Bool) (cursor : Cursor) :
    sees test cursor = .done (cursor.sees test) cursor :=
  rfl

theorem peek_apply (cursor : Cursor) : peek cursor = .done cursor.peek cursor :=
  rfl

theorem advance_apply (token : Token) :
    (Step.update Cursor.advance : Parse Unit) ⟨token :: tokens, diagnostics, nextNode⟩ =
      .done () ⟨tokens, diagnostics, nextNode⟩ :=
  rfl

end Parse

/-! ### What may follow -/

namespace Level

/-- The level and all tighter ones. -/
def andTighter : Level → List Level
  | .or => [.or, .and, .equality, .comparison, .term, .factor]
  | .and => [.and, .equality, .comparison, .term, .factor]
  | .equality => [.equality, .comparison, .term, .factor]
  | .comparison => [.comparison, .term, .factor]
  | .term => [.term, .factor]
  | .factor => [.factor]

/-- Whether a token of this kind, right after operands of the level, makes them longer. -/
def continues (level : Level) (kind : Kind) : Bool :=
  kind = .symbol .leftParen || level.andTighter.any (·.holds kind)

/-- Whether a token of this kind, right after an operand of the level, makes it longer. -/
def continuesOperand (level : Level) (kind : Kind) : Bool :=
  kind = .symbol .leftParen || level.andTighter.tail.any (·.holds kind)

/-- The number of productions between operands of the level and a primary expression. -/
def height : Level → Nat
  | .or => 13
  | .and => 11
  | .equality => 9
  | .comparison => 7
  | .term => 5
  | .factor => 3

theorem continues_eq (level : Level) (kind : Kind) :
    level.continues kind = (level.holds kind || level.continuesOperand kind) := by
  cases level <;> simp only [continues, continuesOperand, andTighter, List.any_cons,
    List.tail_cons] <;> ac_rfl

theorem continuesOperand_of_tighter {level tighter : Level} (next : level.tighter? = some tighter) :
    level.continuesOperand = tighter.continues := by
  cases level <;> cases next <;> rfl

theorem continuesOperand_of_tightest {level : Level} (tightest : level.tighter? = none)
    (kind : Kind) :
    level.continuesOperand kind = decide (kind = .symbol .leftParen) := by
  cases level <;> cases tightest
  simp [continuesOperand, andTighter]

theorem height_of_tighter {level tighter : Level} (next : level.tighter? = some tighter) :
    level.height = tighter.height + 2 := by
  cases level <;> cases next <;> rfl

theorem two_lt_height (level : Level) : 2 < level.height := by
  cases level <;> decide

/-- An operator of a level makes no operand of that level longer. -/
theorem continuesOperand_of_holds {level : Level} {kind : Kind} (holds : level.holds kind = true) :
    level.continuesOperand kind = false := by
  cases level <;> simp only [Level.holds, Bool.or_eq_true, decide_eq_true_eq] at holds
  case or | and => subst holds; decide
  case comparison => rcases holds with ((rfl | rfl) | rfl) | rfl <;> decide
  all_goals rcases holds with rfl | rfl <;> decide

end Level

/-- Whether a token of this kind, right after a ternary, makes it longer. -/
def Kind.continuesTernary (kind : Kind) : Bool :=
  kind = .symbol .question || Level.or.continues kind

/-- Whether a token of this kind, right after an expression, makes it longer. -/
def Kind.continuesExpression (kind : Kind) : Bool :=
  kind = .symbol .equal || kind.continuesTernary

/-! ### Being read -/

/-- With enough fuel, `parse` takes exactly these tokens, where `follow` allows the next one, and
makes this tree of them. -/
def Reads {α : Type} (parse : Nat → Parse α) (slack : Nat) (follow : Kind → Prop)
    (tokens : List Token) (tree : Numbered α) : Prop :=
  ∀ fuel rest diagnostics nextNode, 32 * tokens.length + slack ≤ fuel →
    follow (firstToken rest).kind →
    parse fuel ⟨tokens ++ rest, diagnostics, nextNode⟩ =
      .done (tree nextNode).1 ⟨rest, diagnostics, (tree nextNode).2⟩

/-- Fuel that is enough for something is not spent. -/
theorem Reads.of_succ {α : Type} {parse : Nat → Parse α} {slack : Nat} {follow : Kind → Prop}
    {tokens : List Token} {tree : Numbered α} (positive : 0 < 32 * tokens.length + slack)
    (reads : ∀ fuel rest diagnostics nextNode, 32 * tokens.length + slack ≤ fuel + 1 →
      follow (firstToken rest).kind →
      parse (fuel + 1) ⟨tokens ++ rest, diagnostics, nextNode⟩ =
        .done (tree nextNode).1 ⟨rest, diagnostics, (tree nextNode).2⟩) :
    Reads parse slack follow tokens tree := by
  intro fuel rest diagnostics nextNode enough follows
  obtain ⟨fuel, rfl⟩ : ∃ less, fuel = less + 1 := ⟨fuel - 1, by omega⟩
  exact reads fuel rest diagnostics nextNode enough follows

/-- No token has to be kept away. -/
def Kind.Any (_ : Kind) : Prop :=
  True

variable {ts us : List Token}

/-! ### Primary expressions and calls -/

theorem reads_literal {token : Token} {value : Literal}
    (isLiteral : token.kind.literal? = some value) :
    Reads primary 0 Kind.Any [token] (pure (.literal value)) := by
  refine .of_succ (by simp) fun fuel rest diagnostics nextNode _ _ => ?_
  rw [primary, Step.bind_done (peek_apply _), List.singleton_append, Cursor.peek, firstToken_cons]
  cases kind : token.kind with
  | keyword word => cases word <;> simp [kind,
      Kind.literal?] at isLiteral <;> subst isLiteral <;> rfl
  | number | string => simp [kind, Kind.literal?] at isLiteral; subst isLiteral; rfl
  | symbol | identifier | eof => simp [kind, Kind.literal?] at isLiteral

theorem reads_name (name : Terminal .identifier) :
    Reads primary 0 Kind.Any [name.1] (do return .variable (← Numbered.fresh) name) := by
  refine .of_succ (by simp) fun fuel rest diagnostics nextNode _ _ => ?_
  rw [primary, Step.bind_done (peek_apply _), List.singleton_append, Cursor.peek,
    firstToken_cons, name.2]
  rfl

theorem reads_group (opening : Terminal (.symbol .leftParen))
    (closing : Terminal (.symbol .rightParen)) {inner : Numbered Expr}
    (reads : Reads expression 15 (fun kind => kind.continuesExpression = false) ts inner) :
    Reads primary 0 Kind.Any (opening.1 :: ts ++ [closing.1]) (do return .grouping (← inner)) := by
  refine .of_succ (by simp) fun fuel rest diagnostics nextNode enough _ => ?_
  simp only [List.length_append, List.length_cons, List.length_nil] at enough
  have within := reads fuel (closing.1 :: rest) diagnostics nextNode (by omega)
    (by rw [firstToken_cons, closing.2]; decide)
  rw [primary, Step.bind_done (peek_apply _), List.append_assoc, List.singleton_append,
    List.cons_append, Cursor.peek, firstToken_cons, opening.2]
  show (do Step.update Cursor.advance; let inner ← expression fuel; _) _ = _
  rw [Step.bind_done (advance_apply _), Step.bind_done within,
    Step.bind_done (expect_terminal closing (by decide) _)]
  rfl

/-- A primary expression and the argument lists after it. -/
def Parse.call (fuel : Nat) : Parse Expr := do
  let callee ← primary fuel
  calls callee fuel

theorem reads_noCalls (callee : Expr) :
    Reads (calls callee) 1 (· ≠ .symbol .leftParen) [] (callee.callAll <$> pure []) := by
  refine .of_succ (by simp) fun fuel rest diagnostics nextNode _ follows => ?_
  rw [List.nil_append, calls, Step.bind_done (takes_false follows)]
  rfl

theorem reads_moreCalls (opening : Terminal (.symbol .leftParen))
    (closing : Terminal (.symbol .rightParen)) {values : Numbered (List Expr)}
    {others : Numbered (List (List Expr × Token))}
    (first : Reads arguments 17 (· = .symbol .rightParen) ts values)
    (next : ∀ callee : Expr,
      Reads (calls callee) 1 (· ≠ .symbol .leftParen) us (callee.callAll <$> others))
    (callee : Expr) :
    Reads (calls callee) 1 (· ≠ .symbol .leftParen) (opening.1 :: ts ++ closing.1 :: us)
      (callee.callAll <$> do return (← values, closing.1) :: (← others)) := by
  refine .of_succ (by simp) fun fuel rest diagnostics nextNode enough follows => ?_
  simp only [List.length_append, List.length_cons] at enough
  have within := first fuel (closing.1 :: (us ++ rest)) diagnostics nextNode (by omega) closing.2
  simp only [List.append_assoc, List.cons_append]
  rw [calls, Step.bind_done (takes_true opening (by decide)), if_pos rfl, Step.bind_done within,
    Step.bind_done (expect_terminal closing (by decide) _), next _ fuel rest _ _ (by omega) follows]
  rfl

theorem reads_call {callee : Numbered Expr} {others : Numbered (List (List Expr × Token))}
    (nonempty : 0 < ts.length) (first : Reads primary 0 Kind.Any ts callee)
    (next : ∀ callee : Expr,
      Reads (calls callee) 1 (· ≠ .symbol .leftParen) us (callee.callAll <$> others)) :
    Reads Parse.call 0 (· ≠ .symbol .leftParen) (ts ++ us)
      (do return (← callee).callAll (← others)) := by
  intro fuel rest diagnostics nextNode enough follows
  simp only [List.length_append] at enough
  rw [List.append_assoc, Parse.call, Step.bind_done (first fuel _ _ _ (by omega) trivial),
    next _ fuel rest _ _ (by omega) follows]
  rfl

/-! ### Arguments -/

theorem reads_noArguments : Reads arguments 17 (· = .symbol .rightParen) [] (pure []) := by
  refine .of_succ (by simp) fun fuel rest diagnostics nextNode _ follows => ?_
  rw [List.nil_append, arguments, Step.bind_done (sees_apply _ _),
    sees_eq_true (by rw [follows]; decide) (by simpa using follows)]
  rfl

theorem Opening.first_ne {test : Kind → Bool} {tokens : List Token} (opening : Opening test tokens)
    {kind : Kind} (other : test kind = false) (rest : List Token) :
    (firstToken (tokens ++ rest)).kind ≠ kind := by
  obtain ⟨first, others, rfl, passes, _⟩ := opening
  rintro rfl
  exact Bool.false_ne_true (other.symm.trans passes)

theorem reads_someArguments {values : Numbered (List Expr)}
    (opens : Opening Kind.opensExpression ts)
    (reads : Reads (argumentsAfter 0) 16 (· = .symbol .rightParen) ts values) :
    Reads arguments 17 (· = .symbol .rightParen) ts values := by
  refine .of_succ (by simp) fun fuel rest diagnostics nextNode enough follows => ?_
  rw [arguments, Step.bind_done (sees_apply _ _),
    sees_eq_false (by simpa using opens.first_ne (by decide) rest)]
  exact reads fuel rest diagnostics nextNode (by omega) follows

theorem reads_oneArgument {value : Numbered Expr}
    (reads : Reads expression 15 (fun kind => kind.continuesExpression = false) ts value)
    {before : Nat} (few : before + 1 ≤ maxArity) :
    Reads (argumentsAfter before) 16 (· = .symbol .rightParen) ts (do return [← value]) := by
  refine .of_succ (by simp) fun fuel rest diagnostics nextNode enough follows => ?_
  rw [argumentsAfter, if_neg (by omega)]
  dsimp only
  rw [Step.bind_done (reads fuel rest _ _ (by omega) (by rw [follows]; decide)),
    Step.bind_done (takes_false (by rw [follows]; decide))]
  rfl

theorem reads_moreArguments (comma : Terminal (.symbol .comma)) {value : Numbered Expr}
    {count : Nat} {others : Numbered (List Expr)}
    (reads : Reads expression 15 (fun kind => kind.continuesExpression = false) ts value)
    (next : ∀ before, before + count ≤ maxArity →
      Reads (argumentsAfter before) 16 (· = .symbol .rightParen) us others) {before : Nat}
    (few : before + (count + 1) ≤ maxArity) :
    Reads (argumentsAfter before) 16 (· = .symbol .rightParen) (ts ++ comma.1 :: us)
      (do return (← value) :: (← others)) := by
  refine .of_succ (by simp) fun fuel rest diagnostics nextNode enough follows => ?_
  simp only [List.length_append, List.length_cons] at enough
  simp only [List.append_assoc, List.cons_append]
  rw [argumentsAfter, if_neg (by omega)]
  dsimp only
  rw [Step.bind_done (reads fuel _ _ _ (by omega) (by rw [firstToken_cons, comma.2]; decide)),
    Step.bind_done (takes_true comma (by decide)), if_pos rfl,
    Step.bind_done (next (before + 1) (by omega) fuel rest _ _ (by omega) follows)]
  rfl

/-! ### Operators -/

/-- No primary expression starts with an operator. -/
theorem Kind.isUnary_of_opensPrimary {kind : Kind} (opens : kind.opensPrimary = true) :
    kind.isUnary = false := by
  rw [Bool.eq_false_iff, ne_eq, Kind.isUnary, Bool.or_eq_true, decide_eq_true_eq, decide_eq_true_eq]
  rintro (rfl | rfl) <;> simp [Kind.opensPrimary, Kind.literal?] at opens

theorem reads_ofCall {value : Numbered Expr} (opens : Opening Kind.opensPrimary ts)
    (reads : Reads Parse.call 0 (· ≠ .symbol .leftParen) ts value) :
    Reads unary 1 (· ≠ .symbol .leftParen) ts value := by
  refine .of_succ (by simp) fun fuel rest diagnostics nextNode enough follows => ?_
  have first : (firstToken (ts ++ rest)).kind.isUnary = false := by
    obtain ⟨_, _, rfl, passes, _⟩ := opens
    exact Kind.isUnary_of_opensPrimary passes
  rw [unary, Step.bind_done (takeIf_none first)]
  exact reads fuel rest diagnostics nextNode (by omega) follows

theorem reads_unary {operator : Token} (isUnary : operator.kind.isUnary = true)
    {right : Numbered Expr} (reads : Reads unary 1 (· ≠ .symbol .leftParen) ts right) :
    Reads unary 1 (· ≠ .symbol .leftParen) (operator :: ts)
      (do return .unary operator (← right)) := by
  refine .of_succ (by simp) fun fuel rest diagnostics nextNode enough follows => ?_
  simp only [List.length_cons] at enough
  have noEnd : operator.kind ≠ .eof := fun isEnd => by simp [isEnd, Kind.isUnary] at isUnary
  rw [List.cons_append, unary, Step.bind_done (takeIf_some noEnd isUnary)]
  show (unary fuel >>= _) _ = _
  rw [Step.bind_done (reads fuel rest _ _ (by omega) follows)]
  rfl

theorem reads_ofUnary (level : Level) (tightest : level.tighter? = none) {value : Numbered Expr}
    (reads : Reads unary 1 (· ≠ .symbol .leftParen) ts value) :
    Reads (operand level) (level.height - 1) (fun kind => level.continuesOperand kind = false)
      ts value := by
  have := level.two_lt_height
  refine .of_succ (by omega) fun fuel rest diagnostics nextNode enough follows => ?_
  rw [operand, tightest]
  rw [Level.continuesOperand_of_tightest tightest] at follows
  exact reads fuel rest diagnostics nextNode (by omega) (by simpa using follows)

theorem reads_ofTighter (level : Level) {tighter : Level} (next : level.tighter? = some tighter)
    {value : Numbered Expr}
    (reads : Reads (binary tighter) tighter.height
      (fun kind => tighter.continues kind = false) ts value) :
    Reads (operand level) (level.height - 1) (fun kind => level.continuesOperand kind = false)
      ts value := by
  have := Level.height_of_tighter next
  refine .of_succ (by omega) fun fuel rest diagnostics nextNode enough follows => ?_
  rw [operand, next]
  rw [Level.continuesOperand_of_tighter next] at follows
  exact reads fuel rest diagnostics nextNode (by omega) follows

theorem reads_noOperators {level : Level} (left : Expr) :
    Reads (joined level left) 1 (fun kind => level.continues kind = false) []
      (level.joinAll left <$> pure []) := by
  refine .of_succ (by simp) fun fuel rest diagnostics nextNode _ follows => ?_
  rw [Level.continues_eq, Bool.or_eq_false_iff] at follows
  rw [List.nil_append, joined, Step.bind_done (takeIf_none follows.1)]
  rfl

/-- After an operand of a level, no operator of that level makes the operand longer. -/
theorem continuesOperand_of_starts {level : Level} (starts : ts = [] ∨ StartsWith level.holds ts)
    {rest : List Token} (follows : level.continues (firstToken rest).kind = false) :
    level.continuesOperand (firstToken (ts ++ rest)).kind = false := by
  rcases starts with rfl | ⟨operator, others, rfl, holds⟩
  · rw [Level.continues_eq, Bool.or_eq_false_iff] at follows
    exact follows.2
  · exact Level.continuesOperand_of_holds holds

theorem reads_moreOperators {level : Level} {operator : Token}
    (holds : level.holds operator.kind = true) {right : Numbered Expr}
    {others : Numbered (List (Token × Expr))} (starts : us = [] ∨ StartsWith level.holds us)
    (first : Reads (operand level) (level.height - 1)
      (fun kind => level.continuesOperand kind = false) ts right)
    (next : ∀ left, Reads (joined level left) 1 (fun kind => level.continues kind = false) us
      (level.joinAll left <$> others)) (left : Expr) :
    Reads (joined level left) 1 (fun kind => level.continues kind = false) (operator :: ts ++ us)
      (level.joinAll left <$> do return (operator, ← right) :: (← others)) := by
  have height : level.height ≤ 13 := by cases level <;> decide
  refine .of_succ (by simp) fun fuel rest diagnostics nextNode enough follows => ?_
  simp only [List.length_append, List.length_cons] at enough
  have noEnd : operator.kind ≠ .eof := fun isEnd => by simp [isEnd, Level.holds_eof] at holds
  rw [List.append_assoc, List.cons_append, joined, Step.bind_done (takeIf_some noEnd holds)]
  show (operand level fuel >>= _) _ = _
  rw [Step.bind_done (first fuel _ _ _ (by omega) (continuesOperand_of_starts starts follows)),
    next _ fuel rest _ _ (by omega) follows]
  rfl

theorem reads_binary {level : Level} {left : Numbered Expr}
    {others : Numbered (List (Token × Expr))} (nonempty : 0 < ts.length)
    (starts : us = [] ∨ StartsWith level.holds us) (first : Reads (operand level) (level.height - 1)
      (fun kind => level.continuesOperand kind = false) ts left)
    (next : ∀ left, Reads (joined level left) 1 (fun kind => level.continues kind = false) us
      (level.joinAll left <$> others)) :
    Reads (binary level) level.height (fun kind => level.continues kind = false) (ts ++ us)
      (do return level.joinAll (← left) (← others)) := by
  have := level.two_lt_height
  refine .of_succ (by omega) fun fuel rest diagnostics nextNode enough follows => ?_
  rw [List.length_append] at enough
  rw [List.append_assoc, binary,
    Step.bind_done (first fuel _ _ _ (by omega) (continuesOperand_of_starts starts follows)),
    next _ fuel rest _ _ (by omega) follows]
  rfl

/-! ### Ternaries and assignments -/

theorem reads_ofBinary {value : Numbered Expr}
    (reads : Reads (binary .or) Level.or.height
      (fun kind => Level.or.continues kind = false) ts value) :
    Reads ternary 14 (fun kind => kind.continuesTernary = false) ts value := by
  refine .of_succ (by simp) fun fuel rest diagnostics nextNode enough follows => ?_
  rw [Kind.continuesTernary, Bool.or_eq_false_iff] at follows
  have height : Level.or.height = 13 := rfl
  rw [ternary, Step.bind_done (reads fuel rest _ _ (by omega) follows.2),
    Step.bind_done (takeIf_none (by simpa using follows.1))]
  rfl

theorem reads_ternary (question : Terminal (.symbol .question)) (colon : Terminal (.symbol .colon))
    {cs ys ns : List Token} {condition yes no : Numbered Expr}
    (readsCondition :
      Reads (binary .or) Level.or.height (fun kind => Level.or.continues kind = false) cs condition)
    (readsYes : Reads expression 15 (fun kind => kind.continuesExpression = false) ys yes)
    (readsNo : Reads ternary 14 (fun kind => kind.continuesTernary = false) ns no) :
    Reads ternary 14 (fun kind => kind.continuesTernary = false)
      (cs ++ question.1 :: ys ++ colon.1 :: ns)
      (do return .ternary (← condition) question (← yes) (← no)) := by
  refine .of_succ (by simp) fun fuel rest diagnostics nextNode enough follows => ?_
  have height : Level.or.height = 13 := rfl
  simp only [List.length_append, List.length_cons] at enough
  simp only [List.append_assoc, List.cons_append]
  rw [ternary, Step.bind_done (readsCondition fuel _ _ _ (by omega)
      (by rw [firstToken_cons, question.2]; decide)),
    Step.bind_done (takeIf_some (by rw [question.2]; decide) (by simp))]
  show (expression fuel >>= _) _ = _
  rw [Step.bind_done (readsYes fuel _ _ _ (by omega) (by rw [firstToken_cons, colon.2]; decide)),
    Step.bind_done (expect_terminal colon (by decide) _),
    Step.bind_done (readsNo fuel rest _ _ (by omega) follows)]
  rfl

theorem reads_ofTernary {value : Numbered Expr}
    (reads : Reads ternary 14 (fun kind => kind.continuesTernary = false) ts value) :
    Reads expression 15 (fun kind => kind.continuesExpression = false) ts value := by
  refine .of_succ (by simp) fun fuel rest diagnostics nextNode enough follows => ?_
  rw [Kind.continuesExpression, Bool.or_eq_false_iff] at follows
  rw [expression, Step.bind_done (reads fuel rest _ _ (by omega) follows.2),
    Step.bind_done (takeIf_none (by simpa using follows.1))]
  rfl

/-- A single operand is an expression of its level. -/
theorem Reads.alone {level : Level} {value : Numbered Expr} (nonempty : 0 < ts.length)
    (reads : Reads (operand level) (level.height - 1)
      (fun kind => level.continuesOperand kind = false) ts value) :
    Reads (binary level) level.height (fun kind => level.continues kind = false) ts value := by
  have joined := reads_binary nonempty (.inl rfl) reads reads_noOperators
  rw [List.append_nil] at joined
  exact joined

/-- A single name is a ternary. -/
theorem reads_ternaryName (name : Terminal .identifier) :
    Reads ternary 14 (fun kind => kind.continuesTernary = false) [name.1]
      (do return .variable (← Numbered.fresh) name) := by
  have call := reads_call (by simp) (reads_name name) reads_noCalls
  rw [List.append_nil] at call
  have unary := reads_ofCall (.of_first [] (by rw [name.2]; decide) (by rw [name.2]; decide)) call
  have factor := (reads_ofUnary .factor rfl unary).alone (by simp)
  have term := (reads_ofTighter .term rfl factor).alone (by simp)
  have comparison := (reads_ofTighter .comparison rfl term).alone (by simp)
  have equality := (reads_ofTighter .equality rfl comparison).alone (by simp)
  have and := (reads_ofTighter .and rfl equality).alone (by simp)
  exact reads_ofBinary ((reads_ofTighter .or rfl and).alone (by simp))

theorem reads_assign (name : Terminal .identifier) (equals : Terminal (.symbol .equal))
    {value : Numbered Expr}
    (reads : Reads expression 15 (fun kind => kind.continuesExpression = false) ts value) :
    Reads expression 15 (fun kind => kind.continuesExpression = false) (name.1 :: equals.1 :: ts)
      (do let _ ← Numbered.fresh
          let value ← value
          return .assign (← Numbered.fresh) name value) := by
  refine .of_succ (by simp) fun fuel rest diagnostics nextNode enough follows => ?_
  simp only [List.length_cons] at enough
  have target := reads_ternaryName name fuel (equals.1 :: (ts ++ rest)) diagnostics nextNode
    (by simp; omega) (by rw [firstToken_cons, equals.2]; decide)
  rw [List.singleton_append] at target
  rw [List.cons_append, List.cons_append, expression, Step.bind_done target,
    Step.bind_done (takeIf_some (by rw [equals.2]; decide) (by simp))]
  show (expression fuel >>= _) _ = _
  rw [Step.bind_done (reads fuel rest _ _ (by omega) follows)]
  rfl

/-! ### Clauses of statements -/

theorem reads_nothing {stop : Kind} (noEnd : stop ≠ .eof) :
    Reads (unlessSeen stop) 16 (· = stop) [] (pure none) := by
  refine .of_succ (by simp) fun fuel rest diagnostics nextNode _ follows => ?_
  rw [List.nil_append, unlessSeen, Step.bind_done (sees_apply _ _),
    sees_eq_true (by rwa [follows]) (by simpa using follows)]
  rfl

theorem reads_something {stop : Kind} (other : stop.opensExpression = false)
    (ends : stop.continuesExpression = false) (opens : Opening Kind.opensExpression ts)
    {value : Numbered Expr}
    (reads : Reads expression 15 (fun kind => kind.continuesExpression = false) ts value) :
    Reads (unlessSeen stop) 16 (· = stop) ts (do return some (← value)) := by
  refine .of_succ (by simp) fun fuel rest diagnostics nextNode enough follows => ?_
  rw [unlessSeen, Step.bind_done (sees_apply _ _),
    sees_eq_false (by simpa using opens.first_ne other rest)]
  show (expression fuel >>= _) _ = _
  rw [Step.bind_done (reads fuel rest _ _ (by omega) (by rwa [follows]))]
  rfl

theorem reads_noInitializer : Reads initializer 16 (· = .symbol .semicolon) [] (pure none) := by
  refine .of_succ (by simp) fun fuel rest diagnostics nextNode _ follows => ?_
  rw [List.nil_append, initializer, Step.bind_done (takes_false (by rw [follows]; decide))]
  rfl

theorem reads_initializer (equals : Terminal (.symbol .equal)) {value : Numbered Expr}
    (reads : Reads expression 15 (fun kind => kind.continuesExpression = false) ts value) :
    Reads initializer 16 (· = .symbol .semicolon) (equals.1 :: ts) (do return some (← value)) := by
  refine .of_succ (by simp) fun fuel rest diagnostics nextNode enough follows => ?_
  rw [List.length_cons] at enough
  rw [List.cons_append, initializer, Step.bind_done (takes_true equals (by decide)), if_pos rfl,
    Step.bind_done (reads fuel rest _ _ (by omega) (by rw [follows]; decide))]
  rfl

theorem reads_declared (name : Terminal .identifier) (semicolon : Terminal (.symbol .semicolon))
    {value : Numbered (Option Expr)}
    (reads : Reads initializer 16 (· = .symbol .semicolon) ts value) :
    Reads varDeclaration 0 Kind.Any (name.1 :: ts ++ [semicolon.1])
      (do return .var name (← value)) := by
  refine .of_succ (by simp) fun fuel rest diagnostics nextNode enough _ => ?_
  simp only [List.length_append, List.length_cons, List.length_nil] at enough
  rw [List.append_assoc, List.cons_append, List.singleton_append, varDeclaration,
    Step.bind_done (expect_terminal name (by decide) _),
    Step.bind_done (reads fuel _ _ _ (by omega) (by rw [firstToken_cons, semicolon.2])),
    Step.bind_done (expect_terminal semicolon (by decide) _)]
  rfl

theorem reads_expressionStatement (semicolon : Terminal (.symbol .semicolon))
    {value : Numbered Expr}
    (reads : Reads expression 15 (fun kind => kind.continuesExpression = false) ts value) :
    Reads expressionStatement 0 Kind.Any (ts ++ [semicolon.1])
      (do return .expression (← value)) := by
  refine .of_succ (by simp) fun fuel rest diagnostics nextNode enough _ => ?_
  simp only [List.length_append, List.length_cons, List.length_nil] at enough
  rw [List.append_assoc, List.singleton_append, expressionStatement,
    Step.bind_done (reads fuel _ _ _ (by omega) (by rw [firstToken_cons, semicolon.2]; decide)),
    Step.bind_done (expect_terminal semicolon (by decide) _)]
  rfl

theorem reads_forNothing (semicolon : Terminal (.symbol .semicolon)) :
    Reads forInitializer 1 Kind.Any [semicolon.1] (pure none) := by
  refine .of_succ (by simp) fun fuel rest diagnostics nextNode _ _ => ?_
  rw [List.singleton_append, forInitializer, Step.bind_done (takes_true semicolon (by decide))]
  rfl

theorem reads_forVariable (keyword : Terminal (.keyword .var)) {declared : Numbered Stmt}
    (reads : Reads varDeclaration 0 Kind.Any ts declared) :
    Reads forInitializer 1 Kind.Any (keyword.1 :: ts) (do return some (← declared)) := by
  refine .of_succ (by simp) fun fuel rest diagnostics nextNode enough _ => ?_
  rw [List.length_cons] at enough
  rw [List.cons_append, forInitializer,
    Step.bind_done (takes_false (by rw [firstToken_cons, keyword.2]; decide))]
  show (takes (.keyword .var) >>= _) _ = _
  rw [Step.bind_done (takes_true keyword (by decide)), if_pos rfl,
    Step.bind_done (reads fuel rest _ _ (by omega) trivial)]
  rfl

theorem reads_forExpression {statement : Numbered Stmt} (opens : Opening Kind.opensExpression ts)
    (reads : Reads expressionStatement 0 Kind.Any ts statement) :
    Reads forInitializer 1 Kind.Any ts (do return some (← statement)) := by
  refine .of_succ (by simp) fun fuel rest diagnostics nextNode enough _ => ?_
  rw [forInitializer, Step.bind_done (takes_false (opens.first_ne (by decide) rest))]
  show (takes (.keyword .var) >>= _) _ = _
  rw [Step.bind_done (takes_false (opens.first_ne (by decide) rest))]
  show (expressionStatement fuel >>= _) _ = _
  rw [Step.bind_done (reads fuel rest _ _ (by omega) trivial)]
  rfl

/-! ### Statements -/

/-- What may follow a statement: no `else` where the statement is dangling. -/
def Kind.Closes (dangling : Bool) (kind : Kind) : Prop :=
  dangling = true → kind ≠ .keyword .else

/-- After a statement that is not dangling, anything may follow. -/
theorem Kind.closes_false (kind : Kind) : Kind.Closes false kind :=
  fun never => absurd never Bool.false_ne_true

theorem reads_ofExpression {statement : Numbered Stmt} (opens : Opening Kind.opensExpression ts)
    (reads : Reads expressionStatement 0 Kind.Any ts statement) :
    Reads Parse.statement 1 (Kind.Closes false) ts statement := by
  refine .of_succ (by simp) fun fuel rest diagnostics nextNode enough _ => ?_
  have within := reads fuel rest diagnostics nextNode (by omega) trivial
  obtain ⟨first, others, rfl, passes, _⟩ := opens
  rw [Parse.statement, Step.bind_done (peek_apply _), List.cons_append,
    Cursor.peek, firstToken_cons]
  rw [List.cons_append] at within
  cases kind : first.kind with
  | keyword word =>
    rw [kind] at passes
    cases word <;> first | exact within | exact absurd passes (by decide)
  | symbol symbol =>
    rw [kind] at passes
    cases symbol <;> first | exact within | exact absurd passes (by decide)
  | _ => exact within

theorem reads_print (keyword : Terminal (.keyword .print))
    (semicolon : Terminal (.symbol .semicolon)) {value : Numbered Expr}
    (reads : Reads expression 15 (fun kind => kind.continuesExpression = false) ts value) :
    Reads statement 1 (Kind.Closes false) (keyword.1 :: ts ++ [semicolon.1])
      (do return .print keyword (← value)) := by
  refine .of_succ (by simp) fun fuel rest diagnostics nextNode enough _ => ?_
  simp only [List.length_append, List.length_cons, List.length_nil] at enough
  rw [List.append_assoc, List.cons_append, List.singleton_append, statement,
    Step.bind_done (peek_apply _), Cursor.peek, firstToken_cons, keyword.2]
  show (Step.update Cursor.advance >>= _) _ = _
  rw [Step.bind_done (advance_apply _),
    Step.bind_done (reads fuel _ _ _ (by omega) (by rw [firstToken_cons, semicolon.2]; decide)),
    Step.bind_done (expect_terminal semicolon (by decide) _)]
  rfl

theorem reads_returning (keyword : Terminal (.keyword .return))
    (semicolon : Terminal (.symbol .semicolon)) {value : Numbered (Option Expr)}
    (reads : Reads (unlessSeen (.symbol .semicolon)) 16 (· = .symbol .semicolon) ts value) :
    Reads statement 1 (Kind.Closes false) (keyword.1 :: ts ++ [semicolon.1])
      (do return .return keyword (← value)) := by
  refine .of_succ (by simp) fun fuel rest diagnostics nextNode enough _ => ?_
  simp only [List.length_append, List.length_cons, List.length_nil] at enough
  rw [List.append_assoc, List.cons_append, List.singleton_append, statement,
    Step.bind_done (peek_apply _), Cursor.peek, firstToken_cons, keyword.2]
  show (Step.update Cursor.advance >>= _) _ = _
  rw [Step.bind_done (advance_apply _),
    Step.bind_done (reads fuel _ _ _ (by omega) (by rw [firstToken_cons, semicolon.2])),
    Step.bind_done (expect_terminal semicolon (by decide) _)]
  rfl

theorem reads_whileLoop (keyword : Terminal (.keyword .while))
    (opening : Terminal (.symbol .leftParen)) (closing : Terminal (.symbol .rightParen))
    {dangling : Bool} {cs : List Token} {condition : Numbered Expr} {body : Numbered Stmt}
    (readsCondition : Reads expression 15
      (fun kind => kind.continuesExpression = false) cs condition)
    (readsBody : Reads statement 1 (Kind.Closes dangling) ts body) :
    Reads statement 1 (Kind.Closes dangling) (keyword.1 :: opening.1 :: cs ++ closing.1 :: ts)
      (do return .while (← condition) (← body)) := by
  refine .of_succ (by simp) fun fuel rest diagnostics nextNode enough follows => ?_
  simp only [List.length_append, List.length_cons] at enough
  simp only [List.append_assoc, List.cons_append]
  rw [statement, Step.bind_done (peek_apply _), Cursor.peek, firstToken_cons, keyword.2]
  show (Step.update Cursor.advance >>= _) _ = _
  rw [Step.bind_done (advance_apply _), Step.bind_done (expect_terminal opening (by decide) _),
    Step.bind_done
      (readsCondition fuel _ _ _ (by omega) (by rw [firstToken_cons, closing.2]; decide)),
    Step.bind_done (expect_terminal closing (by decide) _),
    Step.bind_done (readsBody fuel rest _ _ (by omega) follows)]
  rfl

theorem reads_ifThen (keyword : Terminal (.keyword .if)) (opening : Terminal (.symbol .leftParen))
    (closing : Terminal (.symbol .rightParen)) {dangling : Bool} {cs : List Token}
    {condition : Numbered Expr} {yes : Numbered Stmt}
    (readsCondition : Reads expression 15
      (fun kind => kind.continuesExpression = false) cs condition)
    (readsYes : Reads statement 1 (Kind.Closes dangling) ts yes) :
    Reads statement 1 (Kind.Closes true) (keyword.1 :: opening.1 :: cs ++ closing.1 :: ts)
      (do return .if (← condition) (← yes) none) := by
  refine .of_succ (by simp) fun fuel rest diagnostics nextNode enough follows => ?_
  simp only [List.length_append, List.length_cons] at enough
  obtain ⟨fuel, rfl⟩ : ∃ less, fuel = less + 1 := ⟨fuel - 1, by omega⟩
  simp only [List.append_assoc, List.cons_append]
  rw [statement, Step.bind_done (peek_apply _), Cursor.peek, firstToken_cons, keyword.2]
  show (Step.update Cursor.advance >>= _) _ = _
  rw [Step.bind_done (advance_apply _), ifStatement,
    Step.bind_done (expect_terminal opening (by decide) _),
    Step.bind_done
      (readsCondition fuel _ _ _ (by omega) (by rw [firstToken_cons, closing.2]; decide)),
    Step.bind_done (expect_terminal closing (by decide) _),
    Step.bind_done (readsYes fuel rest _ _ (by omega) fun _ => follows rfl),
    Step.bind_done (takes_false (follows rfl))]
  rfl

theorem reads_ifElse (keyword : Terminal (.keyword .if)) (opening : Terminal (.symbol .leftParen))
    (closing : Terminal (.symbol .rightParen)) (otherwise : Terminal (.keyword .else))
    {dangling : Bool} {cs ys ns : List Token} {condition : Numbered Expr} {yes no : Numbered Stmt}
    (readsCondition : Reads expression 15
      (fun kind => kind.continuesExpression = false) cs condition)
    (readsYes : Reads statement 1 (Kind.Closes false) ys yes)
    (readsNo : Reads statement 1 (Kind.Closes dangling) ns no) :
    Reads statement 1 (Kind.Closes dangling)
      (keyword.1 :: opening.1 :: cs ++ closing.1 :: ys ++ otherwise.1 :: ns)
      (do return .if (← condition) (← yes) (some (← no))) := by
  refine .of_succ (by simp) fun fuel rest diagnostics nextNode enough follows => ?_
  simp only [List.length_append, List.length_cons] at enough
  obtain ⟨fuel, rfl⟩ : ∃ less, fuel = less + 1 := ⟨fuel - 1, by omega⟩
  simp only [List.append_assoc, List.cons_append]
  rw [statement, Step.bind_done (peek_apply _), Cursor.peek, firstToken_cons, keyword.2]
  show (Step.update Cursor.advance >>= _) _ = _
  rw [Step.bind_done (advance_apply _), ifStatement,
    Step.bind_done (expect_terminal opening (by decide) _),
    Step.bind_done
      (readsCondition fuel _ _ _ (by omega) (by rw [firstToken_cons, closing.2]; decide)),
    Step.bind_done (expect_terminal closing (by decide) _),
    Step.bind_done (readsYes fuel _ _ _ (by omega) nofun),
    Step.bind_done (takes_true otherwise (by decide)), if_pos rfl,
    Step.bind_done (readsNo fuel rest _ _ (by omega) follows)]
  rfl

theorem reads_forLoop (keyword : Terminal (.keyword .for)) (opening : Terminal (.symbol .leftParen))
    (semicolon : Terminal (.symbol .semicolon)) (closing : Terminal (.symbol .rightParen))
    {dangling : Bool} {is cs : List Token} {initializer : Numbered (Option Stmt)}
    {condition increment : Numbered (Option Expr)} {body : Numbered Stmt}
    (readsInitializer : Reads forInitializer 1 Kind.Any is initializer)
    (readsCondition : Reads (unlessSeen (.symbol .semicolon)) 16
      (· = .symbol .semicolon) cs condition)
    (readsIncrement : Reads (unlessSeen (.symbol .rightParen)) 16
      (· = .symbol .rightParen) us increment)
    (readsBody : Reads statement 1 (Kind.Closes dangling) ts body) :
    Reads statement 1 (Kind.Closes dangling)
      (keyword.1 :: opening.1 :: is ++ cs ++ semicolon.1 :: us ++ closing.1 :: ts)
      (do return .forLoop (← initializer) (← condition) (← increment) (← body)) := by
  refine .of_succ (by simp) fun fuel rest diagnostics nextNode enough follows => ?_
  simp only [List.length_append, List.length_cons] at enough
  obtain ⟨fuel, rfl⟩ : ∃ less, fuel = less + 1 := ⟨fuel - 1, by omega⟩
  simp only [List.append_assoc, List.cons_append]
  rw [statement, Step.bind_done (peek_apply _), Cursor.peek, firstToken_cons, keyword.2]
  show (Step.update Cursor.advance >>= _) _ = _
  rw [Step.bind_done (advance_apply _), forStatement,
    Step.bind_done (expect_terminal opening (by decide) _),
    Step.bind_done (readsInitializer fuel _ _ _ (by omega) trivial),
    Step.bind_done (readsCondition fuel _ _ _ (by omega) (by rw [firstToken_cons, semicolon.2])),
    Step.bind_done (expect_terminal semicolon (by decide) _),
    Step.bind_done (readsIncrement fuel _ _ _ (by omega) (by rw [firstToken_cons, closing.2])),
    Step.bind_done (expect_terminal closing (by decide) _),
    Step.bind_done (readsBody fuel rest _ _ (by omega) follows)]
  rfl

/-! ### Declarations -/

theorem recover_done {α : Type} {parse : Parse α} {cursor later : Cursor} {value : α}
    (done : parse cursor = .done value later) :
    recover parse cursor = .done (some value) later := by
  rw [recover, done]

theorem reads_functionDeclaration (keyword : Terminal (.keyword .fun)) (name : Terminal .identifier)
    {function : Numbered FunctionBody}
    (reads : Reads (functionBody .functionParameters .functionBody) 0 Kind.Any ts function) :
    Reads declaration 2 Kind.Any (keyword.1 :: name.1 :: ts)
      (do return some (.function name (← function))) := by
  refine .of_succ (by simp) fun fuel rest diagnostics nextNode enough _ => ?_
  simp only [List.length_cons] at enough
  have seen : Cursor.seesFunction ⟨keyword.1 :: name.1 :: (ts ++ rest), diagnostics, nextNode⟩ =
      true := by
    rw [Cursor.seesFunction, sees_eq_true (by simp) (by simp)]
    simp [Cursor.peek, Cursor.advance]
  rw [List.cons_append, List.cons_append, declaration]
  refine recover_done ?_
  rw [Step.bind_done (Step.view_apply _ _), if_pos seen, Step.bind_done (advance_apply _),
    Step.bind_done (expect_terminal name (by decide) _),
      Step.bind_done (reads fuel rest _ _ (by omega) trivial)]
  rfl

theorem reads_variableDeclaration (keyword : Terminal (.keyword .var)) {declared : Numbered Stmt}
    (reads : Reads varDeclaration 0 Kind.Any ts declared) :
    Reads declaration 2 Kind.Any (keyword.1 :: ts) (some <$> declared) := by
  refine .of_succ (by simp) fun fuel rest diagnostics nextNode enough _ => ?_
  simp only [List.length_cons] at enough
  have unseen : Cursor.seesFunction ⟨keyword.1 :: (ts ++ rest), diagnostics, nextNode⟩ = false := by
    rw [Cursor.seesFunction, sees_eq_false (by simp), Bool.false_and]
  rw [List.cons_append, declaration]
  refine recover_done ?_
  rw [Step.bind_done (Step.view_apply _ _), if_neg (by rw [unseen]; exact Bool.false_ne_true),
    Step.bind_done (takes_true keyword (by decide)), if_pos rfl]
  exact reads fuel rest _ _ (by omega) trivial

theorem reads_statementDeclaration {dangling : Bool} (opens : Opening Kind.opensStatement ts)
    {statement : Numbered Stmt}
    (reads : Reads Parse.statement 1 (Kind.Closes dangling) ts statement) :
    Reads declaration 2 (Kind.Closes dangling) ts (some <$> statement) := by
  refine .of_succ (by simp) fun fuel rest diagnostics nextNode enough follows => ?_
  have unseen : Cursor.seesFunction ⟨ts ++ rest, diagnostics, nextNode⟩ = false := by
    obtain ⟨first, others, tokens, _, next⟩ := opens.append rest
    rw [tokens]
    by_cases isFun : first.kind = .keyword .fun
    · rw [Cursor.seesFunction, Cursor.peek, Cursor.advance, List.tail_cons, next isFun]
      simp
    · rw [Cursor.seesFunction, sees_eq_false (decide_eq_false isFun), Bool.false_and]
  rw [declaration]
  refine recover_done ?_
  rw [Step.bind_done (Step.view_apply _ _), if_neg (by rw [unseen]; exact Bool.false_ne_true),
    Step.bind_done (takes_false (opens.first_ne (by decide) rest))]
  exact reads fuel rest _ _ (by omega) follows

/-- What may follow declarations that are read up to a token that passes a test. -/
def Kind.Ends (stop : Kind → Bool) (kind : Kind) : Prop :=
  kind = .eof ∨ stop kind = true

/-- A test that only a closing brace can pass. -/
def Kind.StopsAtBrace (stop : Kind → Bool) : Prop :=
  ∀ kind, stop kind = true → kind = .symbol .rightBrace

theorem reads_noDeclarations (stop : Kind → Bool) :
    Reads (declarations stop) 3 (Kind.Ends stop) [] (pure []) := by
  refine .of_succ (by simp) fun fuel rest diagnostics nextNode _ follows => ?_
  have ends : (Cursor.atEnd ⟨rest, diagnostics, nextNode⟩ ||
      Cursor.sees ⟨rest, diagnostics, nextNode⟩ stop) = true := by
    by_cases isEnd : (firstToken rest).kind = .eof
    · simp [Cursor.atEnd, Cursor.peek, isEnd]
    · rw [sees_eq_true isEnd (follows.resolve_left isEnd), Bool.or_true]
  rw [List.nil_append, declarations]
  rw [Step.bind_done (Step.view_apply _ _), if_pos ends]
  rfl

theorem reads_moreDeclarations {stop : Kind → Bool} (stops : Kind.StopsAtBrace stop)
    {dangling : Bool} {first : Numbered Stmt} {others : Numbered (List Stmt)}
    (starts : StartsWith Kind.opensDeclaration ts)
    (next : us = [] ∨ StartsWith Kind.opensDeclaration us)
    (readsFirst : Reads declaration 2 (Kind.Closes dangling) ts (some <$> first))
    (readsOthers : Reads (declarations stop) 3 (Kind.Ends stop) us others) :
    Reads (declarations stop) 3 (Kind.Ends stop) (ts ++ us)
      (do return (← first) :: (← others)) := by
  refine .of_succ (by simp) fun fuel rest diagnostics nextNode enough follows => ?_
  have nonempty := starts.length_pos
  rw [List.length_append] at enough
  have goesOn : (Cursor.atEnd ⟨ts ++ (us ++ rest), diagnostics, nextNode⟩ ||
      Cursor.sees ⟨ts ++ (us ++ rest), diagnostics, nextNode⟩ stop) = false := by
    obtain ⟨token, _, rfl, passes⟩ := starts
    have noEnd : token.kind ≠ .eof := by
      rintro isEnd; rw [isEnd] at passes; exact absurd passes (by decide)
    have noStop : stop token.kind = false := by
      refine Bool.eq_false_iff.mpr fun isStop => ?_
      rw [stops _ isStop] at passes
      exact absurd passes (by decide)
    rw [sees_eq_false (by simpa using noStop)]
    simp [Cursor.atEnd, Cursor.peek, noEnd]
  have closes : Kind.Closes dangling (firstToken (us ++ rest)).kind := by
    intro _ isElse
    rcases next with rfl | ⟨token, _, rfl, passes⟩
    · rw [List.nil_append] at isElse
      rw [isElse] at follows
      rcases follows with isEnd | isStop
      · exact absurd isEnd (by decide)
      · exact absurd (stops _ isStop) (by decide)
    · rw [List.cons_append, firstToken_cons] at isElse
      rw [isElse] at passes
      exact absurd passes (by decide)
  rw [List.append_assoc, declarations]
  rw [Step.bind_done (Step.view_apply _ _), if_neg (by rw [goesOn]; exact Bool.false_ne_true),
    Step.bind_done (readsFirst fuel _ _ _ (by omega) closes),
    Step.bind_done (readsOthers fuel rest _ _ (by omega) follows)]
  rfl

/-- Declarations and the closing brace after them are read as a block. -/
theorem reads_block (closing : Terminal (.symbol .rightBrace)) {statements : Numbered (List Stmt)}
    (reads : Reads (declarations (· = .symbol .rightBrace)) 3
      (Kind.Ends (· = .symbol .rightBrace)) ts statements) :
    Reads block 0 Kind.Any (ts ++ [closing.1]) statements := by
  refine .of_succ (by simp) fun fuel rest diagnostics nextNode enough _ => ?_
  simp only [List.length_append, List.length_cons, List.length_nil] at enough
  rw [List.append_assoc, List.singleton_append, block,
    Step.bind_done (reads fuel _ _ _ (by omega) (.inr (by simp))),
    Step.bind_done (expect_terminal closing (by decide) _)]
  rfl

theorem reads_braces (opening : Terminal (.symbol .leftBrace)) {statements : Numbered (List Stmt)}
    (reads : Reads block 0 Kind.Any ts statements) :
    Reads statement 1 (Kind.Closes false) (opening.1 :: ts) (do return .block (← statements)) := by
  refine .of_succ (by simp) fun fuel rest diagnostics nextNode enough _ => ?_
  simp only [List.length_cons] at enough
  rw [List.cons_append, statement, Step.bind_done (peek_apply _), Cursor.peek,
    firstToken_cons, opening.2]
  show (Step.update Cursor.advance >>= _) _ = _
  rw [Step.bind_done (advance_apply _), Step.bind_done (reads fuel rest _ _ (by omega) trivial)]
  rfl

/-! ### Functions -/

theorem reads_parameterList {tokens names : List Token} (list : ParameterList tokens names)
    (closing : Terminal (.symbol .rightParen)) {before : Nat}
    (few : before + names.length ≤ maxArity) :
    Reads (parametersAfter before) 0 Kind.Any (tokens ++ [closing.1]) (pure names) := by
  induction list generalizing before with
  | one name =>
    refine .of_succ (by simp) fun fuel rest diagnostics nextNode _ _ => ?_
    rw [List.length_singleton] at few
    rw [parametersAfter, if_neg (by omega)]
    dsimp only [List.cons_append, List.nil_append]
    rw [Step.bind_done (expect_terminal name (by decide) _),
      Step.bind_done (takes_false (by rw [firstToken_cons, closing.2]; decide))]
    show (expect _ _ >>= _) _ = _
    rw [Step.bind_done (expect_terminal closing (by decide) _)]
    rfl
  | @more name comma tokens names _ ih =>
    refine .of_succ (by simp) fun fuel rest diagnostics nextNode enough _ => ?_
    simp only [List.length_append, List.length_cons] at enough few
    rw [parametersAfter, if_neg (by omega)]
    dsimp only [List.cons_append]
    rw [Step.bind_done (expect_terminal name (by decide) _),
      Step.bind_done (takes_true comma (by decide)), if_pos rfl,
      Step.bind_done (ih (by omega) fuel rest _ _
        (by simp only [List.length_append, List.length_cons]; omega) trivial)]
    rfl

theorem reads_parameters {tokens names : List Token} (list : Parameters tokens names)
    (closing : Terminal (.symbol .rightParen)) (few : names.length ≤ maxArity) :
    Reads parameters 0 Kind.Any (tokens ++ [closing.1]) (pure names) := by
  intro fuel rest diagnostics nextNode enough _
  cases list with
  | none =>
    rw [List.nil_append, List.singleton_append, parameters, Step.bind_done (sees_apply _ _),
      sees_eq_true (by simp) (by simp), if_pos rfl,
        Step.bind_done (expect_terminal closing (by decide) _)]
    rfl
  | some list =>
    have other : (firstToken (tokens ++ [closing.1] ++ rest)).kind ≠ .symbol .rightParen := by
      cases list <;> simp
    rw [parameters, Step.bind_done (sees_apply _ _), sees_eq_false (by simpa using other)]
    exact reads_parameterList list closing (by omega) fuel rest _ _ enough trivial

theorem reads_function (opening : Terminal (.symbol .leftParen))
    (closing : Terminal (.symbol .rightParen)) (left : Terminal (.symbol .leftBrace))
    (right : Terminal (.symbol .rightBrace)) {ps names : List Token} (list : Parameters ps names)
    (few : names.length ≤ maxArity) {statements : Numbered (List Stmt)}
    (reads : Reads block 0 Kind.Any (ts ++ [right.1]) statements)
    (beforeParameters beforeBody : Expected) :
    Reads (functionBody beforeParameters beforeBody) 0 Kind.Any
      (opening.1 :: ps ++ closing.1 :: left.1 :: ts ++ [right.1])
      (do return ⟨names, ← statements⟩) := by
  refine .of_succ (by simp) fun fuel rest diagnostics nextNode enough _ => ?_
  simp only [List.length_append, List.length_cons, List.length_nil] at enough
  have names := reads_parameters list closing few fuel
    (left.1 :: (ts ++ [right.1] ++ rest)) diagnostics
    nextNode (by simp only [List.length_append, List.length_cons, List.length_nil]; omega) trivial
  have body := reads fuel rest diagnostics nextNode
    (by simp only [List.length_append, List.length_cons, List.length_nil]; omega) trivial
  simp only [List.append_assoc, List.cons_append, List.nil_append] at names body ⊢
  rw [functionBody, Step.bind_done (expect_terminal opening (by decide) _), Step.bind_done names,
    Step.bind_done (expect_terminal left (by decide) _)]
  dsimp only [Numbered.pure_apply]
  rw [Step.bind_done body]
  rfl

theorem reads_lambda (keyword : Terminal (.keyword .fun)) {function : Numbered FunctionBody}
    (reads : Reads (functionBody .lambdaParameters .lambdaBody) 0 Kind.Any ts function) :
    Reads primary 0 Kind.Any (keyword.1 :: ts) (do return .lambda keyword (← function)) := by
  refine .of_succ (by simp) fun fuel rest diagnostics nextNode enough _ => ?_
  simp only [List.length_cons] at enough
  rw [List.cons_append, primary, Step.bind_done (peek_apply _), Cursor.peek,
    firstToken_cons, keyword.2]
  show (Step.update Cursor.advance >>= _) _ = _
  rw [Step.bind_done (advance_apply _), Step.bind_done (reads fuel rest _ _ (by omega) trivial)]
  rfl

/-! ### Phrases -/

/-- The tokens of a phrase are read by its production as this tree. -/
def Phrase.Reads : (phrase : Phrase) → List Token → Numbered phrase.Tree → Prop
  | .declarations, tokens, tree => ∀ stop, Kind.StopsAtBrace stop →
    Lox.Reads (Parse.declarations stop) 3 (Kind.Ends stop) tokens tree
  | .declaration dangling, tokens, tree =>
    Lox.Reads Parse.declaration 2 (Kind.Closes dangling) tokens (some <$> tree)
  | .variable, tokens, tree => Lox.Reads varDeclaration 0 Kind.Any tokens tree
  | .initializer, tokens, tree =>
    Lox.Reads Parse.initializer 16 (· = .symbol .semicolon) tokens tree
  | .statement dangling, tokens, tree =>
    Lox.Reads Parse.statement 1 (Kind.Closes dangling) tokens tree
  | .expressionStatement, tokens, tree => Lox.Reads Parse.expressionStatement 0 Kind.Any tokens tree
  | .forInitializer, tokens, tree => Lox.Reads Parse.forInitializer 1 Kind.Any tokens tree
  | .optional, tokens, tree => ∀ stop : Kind, stop.opensExpression = false →
    stop.continuesExpression = false → stop ≠ .eof →
      Lox.Reads (unlessSeen stop) 16 (· = stop) tokens tree
  | .function, tokens, tree => ∀ beforeParameters beforeBody,
    Lox.Reads (functionBody beforeParameters beforeBody) 0 Kind.Any tokens tree
  | .expression, tokens, tree =>
    Lox.Reads Parse.expression 15 (fun kind => kind.continuesExpression = false) tokens tree
  | .ternary, tokens, tree =>
    Lox.Reads Parse.ternary 14 (fun kind => kind.continuesTernary = false) tokens tree
  | .binary level, tokens, tree =>
    Lox.Reads (Parse.binary level) level.height
      (fun kind => level.continues kind = false) tokens tree
  | .operand level, tokens, tree => Lox.Reads (Parse.operand level) (level.height - 1)
    (fun kind => level.continuesOperand kind = false) tokens tree
  | .joined level, tokens, tree => ∀ left, Lox.Reads (Parse.joined level left) 1
    (fun kind => level.continues kind = false) tokens (level.joinAll left <$> tree)
  | .unary, tokens, tree => Lox.Reads Parse.unary 1 (· ≠ .symbol .leftParen) tokens tree
  | .call, tokens, tree => Lox.Reads Parse.call 0 (· ≠ .symbol .leftParen) tokens tree
  | .calls, tokens, tree => ∀ callee : Expr,
    Lox.Reads (Parse.calls callee) 1 (· ≠ .symbol .leftParen) tokens (callee.callAll <$> tree)
  | .arguments, tokens, tree => Lox.Reads Parse.arguments 17 (· = .symbol .rightParen) tokens tree
  | .argumentList count, tokens, tree => ∀ before, before + count ≤ maxArity →
    Lox.Reads (argumentsAfter before) 16 (· = .symbol .rightParen) tokens tree
  | .primary, tokens, tree => Lox.Reads Parse.primary 0 Kind.Any tokens tree

theorem Kind.stopsAtBrace_rightBrace : Kind.StopsAtBrace (· = .symbol .rightBrace) :=
  fun _ isBrace => by simpa using isBrace

/-- **What derives from a phrase, with each `else` at the nearest `if`, is read by its
production.** -/
theorem Derives.reads {phrase : Phrase} {tokens : List Token} {tree : Numbered phrase.Tree}
    (derives : Derives true phrase tokens tree) : phrase.Reads tokens tree := by
  induction derives with
  | noDeclarations => exact fun stop _ => reads_noDeclarations stop
  | moreDeclarations first others readsFirst readsOthers =>
    exact fun stop stops => reads_moreDeclarations stops first.starts others.starts readsFirst
      (readsOthers stop stops)
  | functionDeclaration keyword name _ ih =>
    exact fun fuel rest diagnostics nextNode enough _ =>
      reads_functionDeclaration keyword name (ih _ _) fuel rest diagnostics nextNode enough trivial
  | variableDeclaration keyword _ ih =>
    exact fun fuel rest diagnostics nextNode enough _ =>
      reads_variableDeclaration keyword ih fuel rest diagnostics nextNode enough trivial
  | statementDeclaration statement ih => exact reads_statementDeclaration statement.starts ih
  | declared name semicolon _ ih => exact reads_declared name semicolon ih
  | noInitializer => exact reads_noInitializer
  | initializer equals _ ih => exact reads_initializer equals ih
  | expressionStatement semicolon _ ih => exact reads_expressionStatement semicolon ih
  | ofExpression statement ih => exact reads_ofExpression statement.starts ih
  | print keyword semicolon _ ih => exact reads_print keyword semicolon ih
  | returning keyword semicolon _ ih =>
    exact reads_returning keyword semicolon (ih _ (by decide) (by decide) (by decide))
  | block opening closing _ ih =>
    exact reads_braces opening (reads_block closing (ih _ Kind.stopsAtBrace_rightBrace))
  | ifThen keyword opening closing _ _ condition yes =>
    exact reads_ifThen keyword opening closing condition yes
  | ifElse keyword opening closing otherwise _ _ nearest _ condition yes no =>
    obtain rfl := nearest rfl
    exact reads_ifElse keyword opening closing otherwise condition yes no
  | whileLoop keyword opening closing _ _ condition body =>
    exact reads_whileLoop keyword opening closing condition body
  | forLoop keyword opening semicolon closing _ _ _ _ first condition increment body =>
    exact reads_forLoop keyword opening semicolon closing first
      (condition _ (by decide) (by decide) (by decide))
      (increment _ (by decide) (by decide) (by decide)) body
  | forNothing semicolon => exact reads_forNothing semicolon
  | forVariable keyword _ ih => exact reads_forVariable keyword ih
  | forExpression statement ih => exact reads_forExpression statement.starts ih
  | nothing => exact fun stop _ _ noEnd => reads_nothing noEnd
  | something value ih =>
    exact fun stop other ends _ => reads_something other ends value.starts ih
  | function opening closing left right parameters few _ ih =>
    exact reads_function opening closing left right parameters few
      (reads_block right (ih _ Kind.stopsAtBrace_rightBrace))
  | assign name equals _ ih => exact reads_assign name equals ih
  | ofTernary _ ih => exact reads_ofTernary ih
  | ofBinary _ ih => exact reads_ofBinary ih
  | ternary question colon _ _ _ condition yes no =>
    exact reads_ternary question colon condition yes no
  | binary first others readsFirst readsOthers =>
    exact reads_binary first.starts.startsWith.length_pos others.starts readsFirst readsOthers
  | noOperators => exact reads_noOperators
  | moreOperators operator holds _ others readsFirst readsOthers =>
    exact reads_moreOperators holds others.starts readsFirst readsOthers
  | ofTighter next _ ih => exact reads_ofTighter _ next ih
  | ofUnary tightest _ ih => exact reads_ofUnary _ tightest ih
  | unary operator isUnary _ ih => exact reads_unary isUnary ih
  | ofCall call ih => exact reads_ofCall call.starts ih
  | call callee _ readsCallee readsCalls =>
    exact reads_call callee.starts.startsWith.length_pos readsCallee readsCalls
  | noCalls => exact reads_noCalls
  | moreCalls opening closing _ _ values others =>
    exact reads_moreCalls opening closing values others
  | noArguments => exact reads_noArguments
  | someArguments list few ih => exact reads_someArguments list.starts (ih 0 (by omega))
  | oneArgument _ ih => exact fun before few => reads_oneArgument ih few
  | moreArguments comma _ _ value others =>
    exact fun before few => reads_moreArguments comma value others few
  | literal token isLiteral => exact reads_literal isLiteral
  | name name => exact reads_name name
  | group opening closing _ ih => exact reads_group opening closing ih
  | lambda keyword _ ih => exact reads_lambda keyword (ih _ _)

end Lox
