/-
**What is read without a diagnostic derives from its phrase.**

* `Recognizes parse Q` — whenever `parse` ends with a value and without any diagnostic,
  there was none before, and `Q` holds of the tokens it took, of the tree they are
  given, and of the tokens left.
* `Recognized` — all productions with the same fuel recognise what derives from their phrases.
* `recognized` — so they do with any fuel. The proof has one lemma for each production.

An `else` goes to the nearest `if` because a dangling statement is never left
with an `else` after it.
-/

import Lox.Proofs.Grammar.Reading

namespace Lox

open Parse

/-! ### Taking a sequence apart -/

namespace Step

variable {σ ε α β : Type}

theorem of_bind_done {first : Step σ ε α} {next : α → Step σ ε β} {state later : σ} {value : β}
    (done : (first >>= next) state = .done value later) :
    ∃ between middle, first state = .done between middle ∧
      next between middle = .done value later := by
  rw [bind_apply] at done
  cases ran : first state with
  | done between middle =>
    rw [ran] at done
    exact ⟨between, middle, rfl, done⟩
  | failed => rw [ran] at done; cases done
  | outOfFuel => rw [ran] at done; cases done

theorem of_pure_done {value result : α} {state later : σ}
    (done : (pure value : Step σ ε α) state = .done result later) :
    value = result ∧ state = later := by
  cases done
  exact ⟨rfl, rfl⟩

theorem of_view_done {read : σ → α} {result : α} {state later : σ}
    (done : (view read : Step σ ε α) state = .done result later) :
    read state = result ∧ state = later := by
  cases done
  exact ⟨rfl, rfl⟩

end Step

namespace Parse

variable {input : List Token} {diagnostics : List Diagnostic} {nextNode : Nat} {later : Cursor}

theorem not_seen {test : Kind → Bool}
    (unseen : Cursor.sees ⟨input, diagnostics, nextNode⟩ test = false)
    (noEnd : (firstToken input).kind ≠ .eof) : test (firstToken input).kind = false := by
  cases passes : test (firstToken input).kind with
  | false => rfl
  | true => rw [sees_eq_true noEnd passes] at unseen; cases unseen

theorem of_takeIf_done {test : Kind → Bool} {found : Option Token}
    (done : takeIf test ⟨input, diagnostics, nextNode⟩ = .done found later) :
    (∃ token rest, found = some token ∧ input = token :: rest ∧ token.kind ≠ .eof ∧
        test token.kind = true ∧ later = ⟨rest, diagnostics, nextNode⟩) ∨
      found = none ∧ Cursor.sees ⟨input, diagnostics, nextNode⟩ test = false ∧
        later = ⟨input, diagnostics, nextNode⟩ := by
  rw [takeIf] at done
  cases seen : Cursor.sees ⟨input, diagnostics, nextNode⟩ test with
  | false =>
    rw [seen] at done
    cases done
    exact .inr ⟨rfl, rfl, rfl⟩
  | true =>
    rw [seen] at done
    cases done
    rw [Cursor.sees, Bool.and_eq_true, Bool.not_eq_true', Cursor.atEnd, decide_eq_false_iff_not]
      at seen
    cases input with
    | nil => exact absurd rfl seen.1
    | cons token rest => exact .inl ⟨token, rest, rfl, rfl, seen.1, seen.2, rfl⟩

theorem of_takes_done {kind : Kind} {took : Bool}
    (done : takes kind ⟨input, diagnostics, nextNode⟩ = .done took later) :
    (∃ (token : Terminal kind) (rest : List Token), took = true ∧ input = token.1 :: rest ∧
        later = ⟨rest, diagnostics, nextNode⟩) ∨
      took = false ∧ (kind ≠ .eof → (firstToken input).kind ≠ kind) ∧
        later = ⟨input, diagnostics, nextNode⟩ := by
  obtain ⟨found, middle, taken, done⟩ := Step.of_bind_done done
  obtain ⟨rfl, rfl⟩ := Step.of_pure_done done
  rcases of_takeIf_done taken with ⟨token, rest, rfl, rfl, _, isKind, rfl⟩ | ⟨rfl, unseen, rfl⟩
  · exact .inl ⟨⟨token, by simpa using isKind⟩, rest, rfl, rfl, rfl⟩
  · refine .inr ⟨rfl, fun noEnd isKind => ?_, rfl⟩
    have := not_seen unseen (by rwa [isKind])
    simp [isKind] at this

theorem of_expect_done {kind : Kind} {expected : Expected} {token : Token}
    (done : expect kind expected ⟨input, diagnostics, nextNode⟩ = .done token later) :
    ∃ (terminal : Terminal kind) (rest : List Token), token = terminal.1 ∧
      input = terminal.1 :: rest ∧
      later = ⟨rest, diagnostics, nextNode⟩ := by
  obtain ⟨found, middle, taken, done⟩ := Step.of_bind_done done
  rcases of_takeIf_done taken with ⟨token, rest, rfl, rfl, _, isKind, rfl⟩ | ⟨rfl, unseen, rfl⟩
  · obtain ⟨rfl, rfl⟩ := Step.of_pure_done done
    exact ⟨⟨token, by simpa using isKind⟩, rest, rfl, rfl, rfl⟩
  · cases done

/-- A token that is no end token is the first of the tokens. -/
theorem eq_cons_of_first {kind : Kind} (first : (firstToken input).kind = kind)
    (noEnd : kind ≠ .eof) :
    ∃ (token : Terminal kind) (rest : List Token), input = token.1 :: rest := by
  cases input with
  | nil => exact absurd first.symm noEnd
  | cons token rest => exact ⟨⟨token, first⟩, rest, rfl⟩

/-- What a recovered production gives without a diagnostic is what the production itself gives. -/
theorem of_recover_done {α : Type} {parse : Parse α} {cursor : Cursor} {found : Option α}
    (done : recover parse cursor = .done found later) (clean : later.diagnostics = []) :
    ∃ value, found = some value ∧ parse cursor = .done value later := by
  rw [recover] at done
  cases ran : parse cursor with
  | done value =>
    rw [ran] at done
    cases done
    exact ⟨value, rfl, rfl⟩
  | failed diagnostic =>
    rw [ran] at done
    cases done
    simp [Cursor.record] at clean
  | outOfFuel => rw [ran] at done; cases done

theorem not_clean_of_report {token : Token} {defect : Defect} {result : Unit} {cursor : Cursor}
    (done : report token defect cursor = .done result later) : later.diagnostics ≠ [] := by
  cases done
  simp [Cursor.record]

end Parse

/-! ### Recognition -/

/-- Whenever `parse` ends with a value and without a diagnostic, there was none before, and this
holds of the tokens it took, their tree, and the tokens left. -/
def Recognizes {α : Type} (parse : Parse α) (Q : List Token → Numbered α → List Token → Prop) :
    Prop :=
  ∀ input diagnostics nextNode value later,
    parse ⟨input, diagnostics, nextNode⟩ = .done value later → later.diagnostics = [] →
      diagnostics = [] ∧ ∃ tokens tree, input = tokens ++ later.rest ∧ Q tokens tree later.rest ∧
        tree nextNode = (value, later.nextNode)

/-- A production recognises what derives from a phrase. -/
abbrev RecognizesPhrase (phrase : Phrase) (parse : Parse phrase.Tree) : Prop :=
  Recognizes parse fun tokens tree _ => Derives true phrase tokens tree

/-- A statement that may stand where it stands: no `else` comes after it if it is dangling. -/
def DerivesStatement (tokens : List Token) (tree : Numbered Stmt) (rest : List Token) : Prop :=
  ∃ dangling, Derives true (.statement dangling) tokens tree ∧
    Kind.Closes dangling (firstToken rest).kind

/-- All productions with this fuel recognise what derives from their phrases. -/
structure Recognized (fuel : Nat) : Prop where
  expression : RecognizesPhrase .expression (Parse.expression fuel)
  ternary : RecognizesPhrase .ternary (Parse.ternary fuel)
  binary : ∀ level, RecognizesPhrase (.binary level) (Parse.binary level fuel)
  operand : ∀ level, RecognizesPhrase (.operand level) (Parse.operand level fuel)
  joined : ∀ level left, Recognizes (Parse.joined level left fuel) fun tokens tree _ =>
    ∃ others, Derives true (.joined level) tokens others ∧ tree = level.joinAll left <$> others
  unary : RecognizesPhrase .unary (Parse.unary fuel)
  calls : ∀ callee : Expr, Recognizes (Parse.calls callee fuel) fun tokens tree _ =>
    ∃ others, Derives true .calls tokens others ∧ tree = callee.callAll <$> others
  arguments : RecognizesPhrase .arguments (Parse.arguments fuel)
  argumentsAfter : ∀ before, Recognizes (Parse.argumentsAfter before fuel) fun tokens tree _ =>
    ∃ count, Derives true (.argumentList count) tokens tree ∧ before + count ≤ maxArity
  primary : RecognizesPhrase .primary (Parse.primary fuel)
  functionBody : ∀ beforeParameters beforeBody,
    RecognizesPhrase .function (Parse.functionBody beforeParameters beforeBody fuel)
  block : Recognizes (Parse.block fuel) fun tokens tree _ =>
    ∃ (statements : List Token) (closing : Terminal (.symbol .rightBrace)),
      tokens = statements ++ [closing.1] ∧ Derives true .declarations statements tree
  declarations : ∀ stop, Recognizes (Parse.declarations stop fuel) fun tokens tree rest =>
    Derives true .declarations tokens tree ∧ Kind.Ends stop (firstToken rest).kind
  declaration : Recognizes (Parse.declaration fuel) fun tokens tree _ =>
    ∃ dangling first, Derives true (.declaration dangling) tokens first ∧ tree = some <$> first
  varDeclaration : RecognizesPhrase .variable (Parse.varDeclaration fuel)
  initializer : RecognizesPhrase .initializer (Parse.initializer fuel)
  statement : Recognizes (Parse.statement fuel) DerivesStatement
  expressionStatement : RecognizesPhrase .expressionStatement (Parse.expressionStatement fuel)
  unlessSeen : ∀ stop, RecognizesPhrase .optional (Parse.unlessSeen stop fuel)
  ifStatement : ∀ keyword : Terminal (.keyword .if), Recognizes (Parse.ifStatement fuel)
    fun tokens tree rest => DerivesStatement (keyword.1 :: tokens) tree rest
  forStatement : ∀ keyword : Terminal (.keyword .for), Recognizes (Parse.forStatement fuel)
    fun tokens tree rest => DerivesStatement (keyword.1 :: tokens) tree rest
  forInitializer : RecognizesPhrase .forInitializer (Parse.forInitializer fuel)

/-! ### Variables as trees -/

theorem Level.joinAll_eq_variable {level : Level} {left : Expr} {others : List (Token × Expr)}
    {node : NodeId} {name : Token} (joined : level.joinAll left others = .variable node name) :
    others = [] := by
  rcases List.eq_nil_or_concat others with rfl | ⟨before, last, rfl⟩
  · rfl
  · rw [Level.joinAll, List.concat_eq_append, List.foldl_append] at joined
    cases level <;> cases joined

theorem Expr.callAll_eq_variable {callee : Expr} {calls : List (List Expr × Token)} {node : NodeId}
    {name : Token} (called : callee.callAll calls = .variable node name) : calls = [] := by
  rcases List.eq_nil_or_concat calls with rfl | ⟨before, last, rfl⟩
  · rfl
  · rw [Expr.callAll, List.concat_eq_append, List.foldl_append] at called
    cases called

/-- A tree that is a variable, or the lack of operators and calls, comes from these tokens only. -/
def Phrase.Plain : (phrase : Phrase) → List Token → Numbered phrase.Tree → Prop
  | .ternary, tokens, tree | .binary _, tokens, tree | .operand _, tokens, tree
  | .unary, tokens, tree
  | .call, tokens, tree | .primary, tokens, tree => ∀ index node name next,
    tree index = (.variable node name, next) →
      tokens = [name] ∧ name.kind = .identifier ∧ next = index + 1
  | .joined _, tokens, tree => ∀ index, (tree index).1 = [] → tokens = [] ∧ (tree index).2 = index
  | .calls, tokens, tree => ∀ index, (tree index).1 = [] → tokens = [] ∧ (tree index).2 = index
  | _, _, _ => True

theorem Derives.plain {nearest : Bool} {phrase : Phrase} {tokens : List Token}
    {tree : Numbered phrase.Tree} (derives : Derives nearest phrase tokens tree) :
    phrase.Plain tokens tree := by
  induction derives with
  | ofBinary _ ih | ofTighter _ _ ih | ofUnary _ _ ih | ofCall _ ih => exact ih
  | ternary | unary | literal | group
  | lambda => intro index node name next numbered; cases numbered
  | binary _ _ left others =>
    intro index node name next numbered
    obtain ⟨rfl, same⟩ := others _ (Level.joinAll_eq_variable (congrArg Prod.fst numbered))
    obtain ⟨rfl, isName, step⟩ := left index node name _ (Prod.ext (by
      have joined := congrArg Prod.fst numbered
      have none := Level.joinAll_eq_variable joined
      simp only [Numbered.bind_apply, Numbered.pure_apply] at joined none
      rwa [none] at joined) rfl)
    exact ⟨rfl, isName, (congrArg Prod.snd numbered).symm.trans (same.trans step)⟩
  | call _ _ callee calls =>
    intro index node name next numbered
    obtain ⟨rfl, same⟩ := calls _ (Expr.callAll_eq_variable (congrArg Prod.fst numbered))
    obtain ⟨rfl, isName, step⟩ := callee index node name _ (Prod.ext (by
      have called := congrArg Prod.fst numbered
      have none := Expr.callAll_eq_variable called
      simp only [Numbered.bind_apply, Numbered.pure_apply] at called none
      rwa [none] at called) rfl)
    exact ⟨rfl, isName, (congrArg Prod.snd numbered).symm.trans (same.trans step)⟩
  | noOperators | noCalls => exact fun index _ => ⟨rfl, rfl⟩
  | moreOperators | moreCalls => intro index none; cases none
  | name name =>
    intro index node token next numbered
    cases numbered
    exact ⟨rfl, name.2, rfl⟩
  | _ => trivial

variable {fuel : Nat}

/-! ### Expressions -/

theorem recognizes_expression (ih : Recognized fuel) :
    RecognizesPhrase .expression (Parse.expression (fuel + 1)) := by
  intro input diagnostics nextNode value later done clean
  rw [Parse.expression] at done
  obtain ⟨target, ⟨rest, middle, node⟩, ran, done⟩ := Step.of_bind_done done
  obtain ⟨found, afterEquals, taken, done⟩ := Step.of_bind_done done
  rcases of_takeIf_done taken with ⟨equals, others, rfl, rfl, _, isEqual, rfl⟩ | ⟨rfl, _, rfl⟩
  · obtain ⟨assigned, ⟨left, reported, node'⟩, ranValue, done⟩ := Step.of_bind_done done
    cases target with
    | «variable» old name =>
      obtain ⟨new, _, fresh, done⟩ := Step.of_bind_done done
      obtain ⟨rfl, rfl⟩ := Step.of_pure_done done
      cases fresh
      obtain ⟨rfl, tokens, tree, rfl, derives, numbered⟩ := ih.expression _ _ _ _ _ ranValue clean
      obtain ⟨rfl, names, target, rfl, derivesTarget, numberedTarget⟩ :=
        ih.ternary _ _ _ _ _ ran rfl
      obtain ⟨rfl, isName, rfl⟩ := derivesTarget.plain _ _ _ _ numberedTarget
      refine ⟨rfl, name :: equals :: tokens, _, rfl,
        .assign ⟨name, isName⟩ ⟨equals, by simpa using isEqual⟩ derives, ?_⟩
      simp only [Numbered.bind_apply, Numbered.pure_apply, Numbered.fresh_apply, numbered]
    | _ =>
      obtain ⟨_, _, reports, done⟩ := Step.of_bind_done done
      obtain ⟨rfl, rfl⟩ := Step.of_pure_done done
      exact absurd clean (not_clean_of_report reports)
  · obtain ⟨rfl, rfl⟩ := Step.of_pure_done done
    obtain ⟨rfl, tokens, tree, rfl, derives, numbered⟩ := ih.ternary _ _ _ _ _ ran clean
    exact ⟨rfl, tokens, tree, rfl, .ofTernary derives, numbered⟩

theorem recognizes_ternary (ih : Recognized fuel) :
    RecognizesPhrase .ternary (Parse.ternary (fuel + 1)) := by
  intro input diagnostics nextNode value later done clean
  rw [Parse.ternary] at done
  obtain ⟨condition, ⟨rest, middle, node⟩, ran, done⟩ := Step.of_bind_done done
  obtain ⟨found, afterQuestion, taken, done⟩ := Step.of_bind_done done
  rcases of_takeIf_done taken with ⟨question, others, rfl, rfl, _, isQuestion, rfl⟩ | ⟨rfl, _, rfl⟩
  · obtain ⟨yes, ⟨rest, middle, node⟩, ranYes, done⟩ := Step.of_bind_done done
    obtain ⟨_, _, expected, done⟩ := Step.of_bind_done done
    obtain ⟨colon, rest, rfl, rfl, rfl⟩ := of_expect_done expected
    obtain ⟨no, ⟨rest, middle, node⟩, ranNo, done⟩ := Step.of_bind_done done
    obtain ⟨rfl, rfl⟩ := Step.of_pure_done done
    obtain ⟨rfl, ns, no, rfl, derivesNo, numberedNo⟩ := ih.ternary _ _ _ _ _ ranNo clean
    obtain ⟨rfl, ys, yes, rfl, derivesYes, numberedYes⟩ := ih.expression _ _ _ _ _ ranYes rfl
    obtain ⟨rfl, cs, condition, rfl, derivesCondition, numberedCondition⟩ :=
      ih.binary .or _ _ _ _ _ ran rfl
    refine ⟨rfl, cs ++ question :: ys ++ colon.1 :: ns, _, by simp,
      .ternary ⟨question, by simpa using isQuestion⟩ colon derivesCondition
        derivesYes derivesNo, ?_⟩
    simp only [Numbered.bind_apply, Numbered.pure_apply, numberedCondition, numberedYes, numberedNo]
  · obtain ⟨rfl, rfl⟩ := Step.of_pure_done done
    obtain ⟨rfl, tokens, tree, rfl, derives, numbered⟩ := ih.binary .or _ _ _ _ _ ran clean
    exact ⟨rfl, tokens, tree, rfl, .ofBinary derives, numbered⟩

theorem recognizes_binary (ih : Recognized fuel) (level : Level) :
    RecognizesPhrase (.binary level) (Parse.binary level (fuel + 1)) := by
  intro input diagnostics nextNode value later done clean
  rw [Parse.binary] at done
  obtain ⟨left, ⟨rest, middle, node⟩, ran, done⟩ := Step.of_bind_done done
  obtain ⟨rfl, us, _, rfl, ⟨others, derivesOthers, rfl⟩, numberedOthers⟩ :=
    ih.joined level left _ _ _ _ _ done clean
  obtain ⟨rfl, ts, first, rfl, derivesFirst, numberedFirst⟩ := ih.operand level _ _ _ _ _ ran rfl
  refine ⟨rfl, ts ++ us, _, by simp, .binary derivesFirst derivesOthers, ?_⟩
  simp only [Numbered.bind_apply, Numbered.pure_apply, numberedFirst]
  exact numberedOthers

theorem recognizes_operand (ih : Recognized fuel) (level : Level) :
    RecognizesPhrase (.operand level) (Parse.operand level (fuel + 1)) := by
  intro input diagnostics nextNode value later done clean
  rw [Parse.operand] at done
  cases next : level.tighter? with
  | none =>
    rw [next] at done
    obtain ⟨rfl, tokens, tree, rfl, derives, numbered⟩ := ih.unary _ _ _ _ _ done clean
    exact ⟨rfl, tokens, tree, rfl, .ofUnary next derives, numbered⟩
  | some tighter =>
    rw [next] at done
    obtain ⟨rfl, tokens, tree, rfl, derives, numbered⟩ := ih.binary tighter _ _ _ _ _ done clean
    exact ⟨rfl, tokens, tree, rfl, .ofTighter next derives, numbered⟩

theorem recognizes_joined (ih : Recognized fuel) (level : Level) (left : Expr) :
    Recognizes (Parse.joined level left (fuel + 1)) fun tokens tree _ =>
      ∃ others, Derives true (.joined level) tokens others ∧
        tree = level.joinAll left <$> others := by
  intro input diagnostics nextNode value later done clean
  rw [Parse.joined] at done
  obtain ⟨found, afterOperator, taken, done⟩ := Step.of_bind_done done
  rcases of_takeIf_done taken with ⟨operator, others, rfl, rfl, _, holds, rfl⟩ | ⟨rfl, _, rfl⟩
  · obtain ⟨right, ⟨rest, middle, node⟩, ran, done⟩ := Step.of_bind_done done
    obtain ⟨rfl, us, _, rfl, ⟨others, derivesOthers, rfl⟩, numberedOthers⟩ :=
      ih.joined level _ _ _ _ _ _ done clean
    obtain ⟨rfl, ts, first, rfl, derivesFirst, numberedFirst⟩ := ih.operand level _ _ _ _ _ ran rfl
    refine ⟨rfl, operator :: ts ++ us, _, by simp,
      ⟨_, .moreOperators operator holds derivesFirst derivesOthers, rfl⟩, ?_⟩
    simp only [Numbered.map_apply, Numbered.bind_apply, Numbered.pure_apply, numberedFirst]
    exact numberedOthers
  · obtain ⟨rfl, rfl⟩ := Step.of_pure_done done
    exact ⟨clean, [], _, rfl, ⟨_, .noOperators, rfl⟩, rfl⟩

theorem recognizes_unary (ih : Recognized fuel) :
    RecognizesPhrase .unary (Parse.unary (fuel + 1)) := by
  intro input diagnostics nextNode value later done clean
  rw [Parse.unary] at done
  obtain ⟨found, afterOperator, taken, done⟩ := Step.of_bind_done done
  rcases of_takeIf_done taken with ⟨operator, others, rfl, rfl, _, isUnary, rfl⟩ | ⟨rfl, _, rfl⟩
  · obtain ⟨right, ⟨rest, middle, node⟩, ran, done⟩ := Step.of_bind_done done
    obtain ⟨rfl, rfl⟩ := Step.of_pure_done done
    obtain ⟨rfl, tokens, tree, rfl, derives, numbered⟩ := ih.unary _ _ _ _ _ ran clean
    refine ⟨rfl, operator :: tokens, _, rfl, .unary operator isUnary derives, ?_⟩
    simp only [Numbered.bind_apply, Numbered.pure_apply, numbered]
  · obtain ⟨callee, ⟨rest, middle, node⟩, ran, done⟩ := Step.of_bind_done done
    obtain ⟨rfl, us, _, rfl, ⟨calls, derivesCalls, rfl⟩, numberedCalls⟩ :=
      ih.calls callee _ _ _ _ _ done clean
    obtain ⟨rfl, ts, first, rfl, derivesFirst, numberedFirst⟩ := ih.primary _ _ _ _ _ ran rfl
    refine ⟨rfl, ts ++ us, _, by simp, .ofCall (.call derivesFirst derivesCalls), ?_⟩
    simp only [Numbered.bind_apply, Numbered.pure_apply, numberedFirst]
    exact numberedCalls

theorem recognizes_calls (ih : Recognized fuel) (callee : Expr) :
    Recognizes (Parse.calls callee (fuel + 1)) fun tokens tree _ =>
      ∃ others, Derives true .calls tokens others ∧ tree = callee.callAll <$> others := by
  intro input diagnostics nextNode value later done clean
  rw [Parse.calls] at done
  obtain ⟨took, afterParenthesis, taken, done⟩ := Step.of_bind_done done
  rcases of_takes_done taken with ⟨opening, rest, rfl, rfl, rfl⟩ | ⟨rfl, _, rfl⟩
  · rw [if_pos rfl] at done
    obtain ⟨values, ⟨rest, middle, node⟩, ran, done⟩ := Step.of_bind_done done
    obtain ⟨_, _, expected, done⟩ := Step.of_bind_done done
    obtain ⟨closing, rest, rfl, rfl, rfl⟩ := of_expect_done expected
    obtain ⟨rfl, us, _, rfl, ⟨others, derivesOthers, rfl⟩, numberedOthers⟩ :=
      ih.calls _ _ _ _ _ _ done clean
    obtain ⟨rfl, ts, first, rfl, derivesFirst, numberedFirst⟩ := ih.arguments _ _ _ _ _ ran rfl
    refine ⟨rfl, opening.1 :: ts ++ closing.1 :: us, _, by simp,
      ⟨_, .moreCalls opening closing derivesFirst derivesOthers, rfl⟩, ?_⟩
    simp only [Numbered.map_apply, Numbered.bind_apply, Numbered.pure_apply, numberedFirst]
    exact numberedOthers
  · obtain ⟨rfl, rfl⟩ := Step.of_pure_done done
    exact ⟨clean, [], _, rfl, ⟨_, .noCalls, rfl⟩, rfl⟩

theorem recognizes_arguments (ih : Recognized fuel) :
    RecognizesPhrase .arguments (Parse.arguments (fuel + 1)) := by
  intro input diagnostics nextNode value later done clean
  rw [Parse.arguments] at done
  obtain ⟨seen, _, viewed, done⟩ := Step.of_bind_done done
  obtain ⟨rfl, rfl⟩ := Step.of_view_done viewed
  split at done
  · obtain ⟨rfl, rfl⟩ := Step.of_pure_done done
    exact ⟨clean, [], _, rfl, .noArguments, rfl⟩
  · obtain ⟨rfl, tokens, tree, rfl, ⟨count, derives, few⟩, numbered⟩ :=
      ih.argumentsAfter 0 _ _ _ _ _ done clean
    exact ⟨rfl, tokens, tree, rfl, .someArguments derives (by omega), numbered⟩

/-- Without a diagnostic, one more parameter or argument is not one too many. -/
theorem Recognizes.limited {α : Type} {before : Nat} {defect : Defect} {next : Unit → Parse α}
    {Q : List Token → Numbered α → List Token → Prop} (recognizes : Recognizes (next ()) Q) :
    Recognizes
      (if maxArity ≤ before then do
        let token ← peek
        let reported ← report token defect
        next reported
      else next ())
      fun tokens tree rest => Q tokens tree rest ∧ before + 1 ≤ maxArity := by
  intro input diagnostics nextNode value later done clean
  split at done
  · obtain ⟨token, _, _, done⟩ := Step.of_bind_done done
    obtain ⟨_, ⟨rest, middle, node⟩, reports, done⟩ := Step.of_bind_done done
    exact absurd (recognizes _ _ _ _ _ done clean).1 (not_clean_of_report reports)
  · obtain ⟨rfl, tokens, tree, rfl, holds, numbered⟩ := recognizes _ _ _ _ _ done clean
    exact ⟨rfl, tokens, tree, rfl, ⟨holds, by omega⟩, numbered⟩

theorem recognizes_argumentsAfter (ih : Recognized fuel) (before : Nat) :
    Recognizes (Parse.argumentsAfter before (fuel + 1)) fun tokens tree _ =>
      ∃ count, Derives true (.argumentList count) tokens tree ∧ before + count ≤ maxArity := by
  have unlimited : Recognizes
      (do
        let argument ← Parse.expression fuel
        if ← takes (.symbol .comma) then
          return argument :: (← Parse.argumentsAfter (before + 1) fuel)
        return [argument])
      fun tokens tree _ => ∃ count, Derives true (.argumentList count) tokens tree ∧
        (before + 1 ≤ maxArity → before + count ≤ maxArity) := by
    intro input diagnostics nextNode value later done clean
    obtain ⟨argument, ⟨rest, middle, node⟩, ran, done⟩ := Step.of_bind_done done
    obtain ⟨took, afterComma, taken, done⟩ := Step.of_bind_done done
    rcases of_takes_done taken with ⟨comma, rest, rfl, rfl, rfl⟩ | ⟨rfl, _, rfl⟩
    · rw [if_pos rfl] at done
      obtain ⟨others, ⟨rest, middle, node⟩, ranOthers, done⟩ := Step.of_bind_done done
      obtain ⟨rfl, rfl⟩ := Step.of_pure_done done
      obtain ⟨rfl, us, others, rfl, ⟨count, derivesOthers, few⟩, numberedOthers⟩ :=
        ih.argumentsAfter (before + 1) _ _ _ _ _ ranOthers clean
      obtain ⟨rfl, ts, first, rfl, derivesFirst, numberedFirst⟩ := ih.expression _ _ _ _ _ ran rfl
      refine ⟨rfl, ts ++ comma.1 :: us, _, by simp,
        ⟨count + 1, .moreArguments comma derivesFirst derivesOthers, fun _ => by omega⟩, ?_⟩
      simp only [Numbered.bind_apply, Numbered.pure_apply, numberedFirst, numberedOthers]
    · rw [if_neg Bool.false_ne_true] at done
      obtain ⟨rfl, rfl⟩ := Step.of_pure_done done
      obtain ⟨rfl, ts, first, rfl, derivesFirst, numberedFirst⟩ := ih.expression _ _ _ _ _ ran clean
      refine ⟨rfl, ts, _, rfl, ⟨1, .oneArgument derivesFirst, id⟩, ?_⟩
      simp only [Numbered.bind_apply, Numbered.pure_apply, numberedFirst]
  intro input diagnostics nextNode value later done clean
  rw [Parse.argumentsAfter] at done
  obtain ⟨rfl, tokens, tree, rfl, ⟨⟨count, derives, few⟩, room⟩, numbered⟩ :=
    unlimited.limited _ _ _ _ _ done clean
  exact ⟨rfl, tokens, tree, rfl, ⟨count, derives, few room⟩, numbered⟩

theorem recognizes_primary (ih : Recognized fuel) :
    RecognizesPhrase .primary (Parse.primary (fuel + 1)) := by
  intro input diagnostics nextNode value later done clean
  rw [Parse.primary] at done
  obtain ⟨token, _, viewed, done⟩ := Step.of_bind_done done
  obtain ⟨rfl, rfl⟩ := Step.of_view_done viewed
  dsimp only [Cursor.peek] at done
  have literal : ∀ {constant : Literal}, (firstToken input).kind.literal? = some constant →
      taken (.literal constant) ⟨input, diagnostics, nextNode⟩ = .done value later →
      diagnostics = [] ∧ ∃ tokens tree, input = tokens ++ later.rest ∧
        Derives true .primary tokens tree ∧ tree nextNode = (value, later.nextNode) := by
    intro constant isLiteral done
    cases done
    cases input with
    | nil => simp [Kind.literal?] at isLiteral
    | cons first rest => exact ⟨clean, [first], _, rfl, .literal first isLiteral, rfl⟩
  generalize kind : (firstToken input).kind = found at done
  split at done
  case h_1 | h_2 | h_3 => exact literal (by rw [kind]; rfl) done
  case h_4 | h_5 => exact literal (by rw [kind]; rfl) done
  case h_6 =>
    obtain ⟨name, rest, rfl⟩ := eq_cons_of_first kind (by decide)
    obtain ⟨_, _, advanced, done⟩ := Step.of_bind_done done
    cases advanced
    obtain ⟨_, _, fresh, done⟩ := Step.of_bind_done done
    cases fresh
    obtain ⟨rfl, rfl⟩ := Step.of_pure_done done
    exact ⟨clean, [name.1], _, rfl, .name name, rfl⟩
  case h_7 =>
    obtain ⟨opening, rest, rfl⟩ := eq_cons_of_first kind (by decide)
    obtain ⟨_, _, advanced, done⟩ := Step.of_bind_done done
    cases advanced
    obtain ⟨inner, ⟨rest, middle, node⟩, ran, done⟩ := Step.of_bind_done done
    obtain ⟨_, _, expected, done⟩ := Step.of_bind_done done
    obtain ⟨closing, rest, rfl, rfl, rfl⟩ := of_expect_done expected
    obtain ⟨rfl, rfl⟩ := Step.of_pure_done done
    obtain ⟨rfl, ts, tree, same, derives, numbered⟩ := ih.expression _ _ _ _ _ ran clean
    refine ⟨rfl, opening.1 :: ts ++ [closing.1], _, ?_, .group opening closing derives, ?_⟩
    · simpa [Cursor.advance] using same
    · simp only [Numbered.bind_apply, Numbered.pure_apply, numbered]
  case h_8 =>
    obtain ⟨keyword, rest, rfl⟩ := eq_cons_of_first kind (by decide)
    obtain ⟨_, _, advanced, done⟩ := Step.of_bind_done done
    cases advanced
    obtain ⟨function, ⟨rest, middle, node⟩, ran, done⟩ := Step.of_bind_done done
    obtain ⟨rfl, rfl⟩ := Step.of_pure_done done
    obtain ⟨rfl, ts, tree, same, derives, numbered⟩ := ih.functionBody _ _ _ _ _ _ _ ran clean
    refine ⟨rfl, keyword.1 :: ts, _, ?_, .lambda keyword derives, ?_⟩
    · simpa [Cursor.advance] using same
    · simp only [Numbered.bind_apply, Numbered.pure_apply, numbered]
      rfl
  case h_9 => cases done

/-! ### Functions -/

theorem recognizes_parametersAfter (before : Nat) :
    Recognizes (Parse.parametersAfter before fuel) fun tokens tree _ =>
      ∃ (list names : List Token) (closing : Terminal (.symbol .rightParen)),
        tokens = list ++ [closing.1] ∧ ParameterList list names ∧ tree = pure names ∧
          before + names.length ≤ maxArity := by
  induction fuel generalizing before with
  | zero => intro input diagnostics nextNode value later done; cases done
  | succ fuel ih =>
    have unlimited : Recognizes
        (do
          let name ← expect .identifier .parameterName
          if ← takes (.symbol .comma) then
            return name :: (← Parse.parametersAfter (before + 1) fuel)
          let _ ← expect (.symbol .rightParen) .parametersEnd
          return [name])
        fun tokens tree _ => ∃ (list names : List Token) (closing : Terminal (.symbol .rightParen)),
          tokens = list ++ [closing.1] ∧ ParameterList list names ∧ tree = pure names ∧
            (before + 1 ≤ maxArity → before + names.length ≤ maxArity) := by
      intro input diagnostics nextNode value later done clean
      obtain ⟨_, _, expected, done⟩ := Step.of_bind_done done
      obtain ⟨name, rest, rfl, rfl, rfl⟩ := of_expect_done expected
      obtain ⟨took, afterComma, taken, done⟩ := Step.of_bind_done done
      rcases of_takes_done taken with ⟨comma, rest, rfl, rfl, rfl⟩ | ⟨rfl, _, rfl⟩
      · rw [if_pos rfl] at done
        obtain ⟨others, ⟨rest, middle, node⟩, ranOthers, done⟩ := Step.of_bind_done done
        obtain ⟨rfl, rfl⟩ := Step.of_pure_done done
        obtain ⟨rfl, _, _, rfl, ⟨list, names, closing, rfl, derives, rfl, few⟩, numbered⟩ :=
          ih (before + 1) _ _ _ _ _ ranOthers clean
        cases numbered
        exact ⟨rfl, name.1 :: comma.1 :: list ++ [closing.1], _, rfl,
          ⟨_, _, closing, rfl, .more name comma derives, rfl,
            fun _ => by rw [List.length_cons]; omega⟩, rfl⟩
      · rw [if_neg Bool.false_ne_true] at done
        obtain ⟨_, _, expected, done⟩ := Step.of_bind_done done
        obtain ⟨closing, rest, rfl, rfl, rfl⟩ := of_expect_done expected
        obtain ⟨rfl, rfl⟩ := Step.of_pure_done done
        exact ⟨clean, [name.1, closing.1], _, rfl,
          ⟨[name.1], _, closing, rfl, .one name, rfl, id⟩, rfl⟩
    intro input diagnostics nextNode value later done clean
    rw [Parse.parametersAfter] at done
    obtain ⟨rfl, _, _, rfl, ⟨⟨list, names, closing, rfl, derives, rfl, few⟩, room⟩, numbered⟩ :=
      unlimited.limited _ _ _ _ _ done clean
    exact ⟨rfl, _, _, rfl, ⟨list, names, closing, rfl, derives, rfl, few room⟩, numbered⟩

theorem recognizes_parameters :
    Recognizes (Parse.parameters fuel) fun tokens tree _ =>
      ∃ (list names : List Token) (closing : Terminal (.symbol .rightParen)),
        tokens = list ++ [closing.1] ∧ Parameters list names ∧ tree = pure names ∧
          names.length ≤ maxArity := by
  intro input diagnostics nextNode value later done clean
  rw [Parse.parameters] at done
  obtain ⟨seen, _, viewed, done⟩ := Step.of_bind_done done
  obtain ⟨rfl, rfl⟩ := Step.of_view_done viewed
  split at done
  · obtain ⟨_, _, expected, done⟩ := Step.of_bind_done done
    obtain ⟨closing, rest, rfl, rfl, rfl⟩ := of_expect_done expected
    obtain ⟨rfl, rfl⟩ := Step.of_pure_done done
    exact ⟨clean, [closing.1], _, rfl, ⟨[], [], closing, rfl, .none, rfl, Nat.zero_le _⟩, rfl⟩
  · obtain ⟨rfl, _, _, rfl, ⟨list, names, closing, rfl, derives, rfl, few⟩, numbered⟩ :=
      recognizes_parametersAfter 0 _ _ _ _ _ done clean
    exact ⟨rfl, _, _, rfl, ⟨list, names, closing, rfl, .some derives, rfl, by omega⟩, numbered⟩

theorem recognizes_functionBody (ih : Recognized fuel) (beforeParameters beforeBody : Expected) :
    RecognizesPhrase .function (Parse.functionBody beforeParameters beforeBody (fuel + 1)) := by
  intro input diagnostics nextNode value later done clean
  rw [Parse.functionBody] at done
  obtain ⟨_, _, expected, done⟩ := Step.of_bind_done done
  obtain ⟨opening, rest, rfl, rfl, rfl⟩ := of_expect_done expected
  obtain ⟨names, ⟨rest, middle, node⟩, ranNames, done⟩ := Step.of_bind_done done
  obtain ⟨_, _, expected, done⟩ := Step.of_bind_done done
  obtain ⟨left, rest, rfl, rfl, rfl⟩ := of_expect_done expected
  obtain ⟨statements, ⟨rest, middle, node⟩, ran, done⟩ := Step.of_bind_done done
  obtain ⟨rfl, rfl⟩ := Step.of_pure_done done
  obtain ⟨rfl, _, tree, rfl, ⟨ts, right, rfl, derives⟩, numbered⟩ := ih.block _ _ _ _ _ ran clean
  obtain ⟨rfl, _, _, rfl, ⟨list, names, closing, rfl, parameters, rfl, few⟩, numberedNames⟩ :=
    recognizes_parameters _ _ _ _ _ ranNames rfl
  cases numberedNames
  refine ⟨rfl, opening.1 :: list ++ closing.1 :: left.1 :: ts ++ [right.1], _, by simp,
    .function opening closing left right parameters few derives, ?_⟩
  simp only [Numbered.bind_apply, Numbered.pure_apply, numbered]

theorem recognizes_block (ih : Recognized fuel) :
    Recognizes (Parse.block (fuel + 1)) fun tokens tree _ =>
      ∃ (statements : List Token) (closing : Terminal (.symbol .rightBrace)),
        tokens = statements ++ [closing.1] ∧ Derives true .declarations statements tree := by
  intro input diagnostics nextNode value later done clean
  rw [Parse.block] at done
  obtain ⟨statements, ⟨rest, middle, node⟩, ran, done⟩ := Step.of_bind_done done
  obtain ⟨_, _, expected, done⟩ := Step.of_bind_done done
  obtain ⟨closing, rest, rfl, rfl, rfl⟩ := of_expect_done expected
  obtain ⟨rfl, rfl⟩ := Step.of_pure_done done
  obtain ⟨rfl, ts, tree, rfl, ⟨derives, _⟩, numbered⟩ := ih.declarations _ _ _ _ _ _ ran clean
  exact ⟨rfl, ts ++ [closing.1], tree, by simp, ⟨ts, closing, rfl, derives⟩, numbered⟩

/-! ### Declarations -/

theorem recognizes_declarations (ih : Recognized fuel) (stop : Kind → Bool) :
    Recognizes (Parse.declarations stop (fuel + 1)) fun tokens tree rest =>
      Derives true .declarations tokens tree ∧ Kind.Ends stop (firstToken rest).kind := by
  intro input diagnostics nextNode value later done clean
  rw [Parse.declarations] at done
  obtain ⟨ends, _, viewed, done⟩ := Step.of_bind_done done
  obtain ⟨rfl, rfl⟩ := Step.of_view_done viewed
  split at done
  · rename_i ends
    obtain ⟨rfl, rfl⟩ := Step.of_pure_done done
    refine ⟨clean, [], _, rfl, ⟨.noDeclarations, ?_⟩, rfl⟩
    rw [Bool.or_eq_true, Cursor.atEnd, decide_eq_true_eq, Cursor.sees, Bool.and_eq_true] at ends
    exact ends.imp id And.right
  · obtain ⟨found, ⟨rest, middle, node⟩, ranFirst, done⟩ := Step.of_bind_done done
    obtain ⟨others, ⟨rest, middle, node⟩, ranOthers, done⟩ := Step.of_bind_done done
    obtain ⟨rfl, rfl⟩ := Step.of_pure_done done
    obtain ⟨rfl, us, others, rfl, ⟨derivesOthers, ends⟩, numberedOthers⟩ :=
      ih.declarations stop _ _ _ _ _ ranOthers clean
    obtain ⟨rfl, ts, _, rfl, ⟨dangling, first, derivesFirst, rfl⟩, numberedFirst⟩ :=
      ih.declaration _ _ _ _ _ ranFirst rfl
    refine ⟨rfl, ts ++ us, _, by simp, ⟨.moreDeclarations derivesFirst derivesOthers, ends⟩, ?_⟩
    cases numberedFirst
    simp only [Numbered.bind_apply, Numbered.pure_apply, numberedOthers]
    rfl

theorem recognizes_declaration (ih : Recognized fuel) :
    Recognizes (Parse.declaration (fuel + 1)) fun tokens tree _ =>
      ∃ dangling first, Derives true (.declaration dangling) tokens first ∧
        tree = some <$> first := by
  intro input diagnostics nextNode value later done clean
  rw [Parse.declaration] at done
  obtain ⟨found, rfl, unrecovered⟩ := of_recover_done done clean
  obtain ⟨_, _, viewed, done⟩ := Step.of_bind_done unrecovered
  obtain ⟨rfl, rfl⟩ := Step.of_view_done viewed
  split at done
  · rename_i seen
    rw [Cursor.seesFunction, Bool.and_eq_true, Cursor.sees, Bool.and_eq_true, decide_eq_true_eq]
      at seen
    obtain ⟨keyword, rest, rfl⟩ := eq_cons_of_first seen.1.2 (by decide)
    obtain ⟨_, _, advanced, done⟩ := Step.of_bind_done done
    cases advanced
    obtain ⟨_, _, expected, done⟩ := Step.of_bind_done done
    obtain ⟨name, rest, rfl, same, rfl⟩ := of_expect_done expected
    obtain ⟨function, ⟨rest, middle, node⟩, ran, done⟩ := Step.of_bind_done done
    obtain ⟨rfl, rfl⟩ := Step.of_pure_done done
    obtain ⟨rfl, ts, tree, rfl, derives, numbered⟩ := ih.functionBody _ _ _ _ _ _ _ ran clean
    refine ⟨rfl, keyword.1 :: name.1 :: ts, _, ?_,
      ⟨false, _, .functionDeclaration keyword name derives, rfl⟩, ?_⟩
    · rw [List.tail_cons] at same
      rw [same]
      rfl
    · simp only [Numbered.map_apply, Numbered.bind_apply, Numbered.pure_apply, numbered]
  · obtain ⟨took, afterVar, taken, done⟩ := Step.of_bind_done done
    rcases of_takes_done taken with ⟨keyword, rest, rfl, rfl, rfl⟩ | ⟨rfl, _, rfl⟩
    · rw [if_pos rfl] at done
      obtain ⟨rfl, ts, tree, rfl, derives, numbered⟩ := ih.varDeclaration _ _ _ _ _ done clean
      refine ⟨rfl, keyword.1 :: ts, _, rfl,
        ⟨false, _, .variableDeclaration keyword derives, rfl⟩, ?_⟩
      rw [Numbered.map_apply, numbered]
    · rw [if_neg Bool.false_ne_true] at done
      obtain ⟨rfl, ts, tree, rfl, ⟨dangling, derives, _⟩, numbered⟩ :=
        ih.statement _ _ _ _ _ done clean
      refine ⟨rfl, ts, _, rfl, ⟨dangling, _, .statementDeclaration derives, rfl⟩, ?_⟩
      rw [Numbered.map_apply, numbered]

theorem recognizes_varDeclaration (ih : Recognized fuel) :
    RecognizesPhrase .variable (Parse.varDeclaration (fuel + 1)) := by
  intro input diagnostics nextNode value later done clean
  rw [Parse.varDeclaration] at done
  obtain ⟨_, _, expected, done⟩ := Step.of_bind_done done
  obtain ⟨name, rest, rfl, rfl, rfl⟩ := of_expect_done expected
  obtain ⟨initial, ⟨rest, middle, node⟩, ran, done⟩ := Step.of_bind_done done
  obtain ⟨_, _, expected, done⟩ := Step.of_bind_done done
  obtain ⟨semicolon, rest, rfl, rfl, rfl⟩ := of_expect_done expected
  obtain ⟨rfl, rfl⟩ := Step.of_pure_done done
  obtain ⟨rfl, ts, tree, rfl, derives, numbered⟩ := ih.initializer _ _ _ _ _ ran clean
  refine ⟨rfl, name.1 :: ts ++ [semicolon.1], _, by simp, .declared name semicolon derives, ?_⟩
  simp only [Numbered.bind_apply, Numbered.pure_apply, numbered]

theorem recognizes_initializer (ih : Recognized fuel) :
    RecognizesPhrase .initializer (Parse.initializer (fuel + 1)) := by
  intro input diagnostics nextNode value later done clean
  rw [Parse.initializer] at done
  obtain ⟨took, afterEquals, taken, done⟩ := Step.of_bind_done done
  rcases of_takes_done taken with ⟨equals, rest, rfl, rfl, rfl⟩ | ⟨rfl, _, rfl⟩
  · rw [if_pos rfl] at done
    obtain ⟨initial, ⟨rest, middle, node⟩, ran, done⟩ := Step.of_bind_done done
    obtain ⟨rfl, rfl⟩ := Step.of_pure_done done
    obtain ⟨rfl, ts, tree, rfl, derives, numbered⟩ := ih.expression _ _ _ _ _ ran clean
    refine ⟨rfl, equals.1 :: ts, _, rfl, .initializer equals derives, ?_⟩
    simp only [Numbered.bind_apply, Numbered.pure_apply, numbered]
  · rw [if_neg Bool.false_ne_true] at done
    obtain ⟨rfl, rfl⟩ := Step.of_pure_done done
    exact ⟨clean, [], _, rfl, .noInitializer, rfl⟩

/-! ### Statements -/

theorem recognizes_expressionStatement (ih : Recognized fuel) :
    RecognizesPhrase .expressionStatement (Parse.expressionStatement (fuel + 1)) := by
  intro input diagnostics nextNode value later done clean
  rw [Parse.expressionStatement] at done
  obtain ⟨result, ⟨rest, middle, node⟩, ran, done⟩ := Step.of_bind_done done
  obtain ⟨_, _, expected, done⟩ := Step.of_bind_done done
  obtain ⟨semicolon, rest, rfl, rfl, rfl⟩ := of_expect_done expected
  obtain ⟨rfl, rfl⟩ := Step.of_pure_done done
  obtain ⟨rfl, ts, tree, rfl, derives, numbered⟩ := ih.expression _ _ _ _ _ ran clean
  refine ⟨rfl, ts ++ [semicolon.1], _, by simp, .expressionStatement semicolon derives, ?_⟩
  simp only [Numbered.bind_apply, Numbered.pure_apply, numbered]

theorem recognizes_unlessSeen (ih : Recognized fuel) (stop : Kind) :
    RecognizesPhrase .optional (Parse.unlessSeen stop (fuel + 1)) := by
  intro input diagnostics nextNode value later done clean
  rw [Parse.unlessSeen] at done
  obtain ⟨seen, _, viewed, done⟩ := Step.of_bind_done done
  obtain ⟨rfl, rfl⟩ := Step.of_view_done viewed
  split at done
  · obtain ⟨rfl, rfl⟩ := Step.of_pure_done done
    exact ⟨clean, [], _, rfl, .nothing, rfl⟩
  · obtain ⟨result, ⟨rest, middle, node⟩, ran, done⟩ := Step.of_bind_done done
    obtain ⟨rfl, rfl⟩ := Step.of_pure_done done
    obtain ⟨rfl, ts, tree, rfl, derives, numbered⟩ := ih.expression _ _ _ _ _ ran clean
    refine ⟨rfl, ts, _, rfl, .something derives, ?_⟩
    simp only [Numbered.bind_apply, Numbered.pure_apply, numbered]

theorem recognizes_forInitializer (ih : Recognized fuel) :
    RecognizesPhrase .forInitializer (Parse.forInitializer (fuel + 1)) := by
  intro input diagnostics nextNode value later done clean
  rw [Parse.forInitializer] at done
  obtain ⟨took, afterSemicolon, taken, done⟩ := Step.of_bind_done done
  rcases of_takes_done taken with ⟨semicolon, rest, rfl, rfl, rfl⟩ | ⟨rfl, _, rfl⟩
  · rw [if_pos rfl] at done
    obtain ⟨rfl, rfl⟩ := Step.of_pure_done done
    exact ⟨clean, [semicolon.1], _, rfl, .forNothing semicolon, rfl⟩
  · rw [if_neg Bool.false_ne_true] at done
    obtain ⟨took, afterVar, taken, done⟩ := Step.of_bind_done done
    rcases of_takes_done taken with ⟨keyword, rest, rfl, rfl, rfl⟩ | ⟨rfl, _, rfl⟩
    · rw [if_pos rfl] at done
      obtain ⟨declared, ⟨rest, middle, node⟩, ran, done⟩ := Step.of_bind_done done
      obtain ⟨rfl, rfl⟩ := Step.of_pure_done done
      obtain ⟨rfl, ts, tree, rfl, derives, numbered⟩ := ih.varDeclaration _ _ _ _ _ ran clean
      refine ⟨rfl, keyword.1 :: ts, _, rfl, .forVariable keyword derives, ?_⟩
      simp only [Numbered.bind_apply, Numbered.pure_apply, numbered]
    · rw [if_neg Bool.false_ne_true] at done
      obtain ⟨first, ⟨rest, middle, node⟩, ran, done⟩ := Step.of_bind_done done
      obtain ⟨rfl, rfl⟩ := Step.of_pure_done done
      obtain ⟨rfl, ts, tree, rfl, derives, numbered⟩ := ih.expressionStatement _ _ _ _ _ ran clean
      refine ⟨rfl, ts, _, rfl, .forExpression derives, ?_⟩
      simp only [Numbered.bind_apply, Numbered.pure_apply, numbered]

theorem recognizes_ifStatement (ih : Recognized fuel) (keyword : Terminal (.keyword .if)) :
    Recognizes (Parse.ifStatement (fuel + 1)) fun tokens tree rest =>
      DerivesStatement (keyword.1 :: tokens) tree rest := by
  intro input diagnostics nextNode value later done clean
  rw [Parse.ifStatement] at done
  obtain ⟨_, _, expected, done⟩ := Step.of_bind_done done
  obtain ⟨opening, rest, rfl, rfl, rfl⟩ := of_expect_done expected
  obtain ⟨condition, ⟨rest, middle, node⟩, ranCondition, done⟩ := Step.of_bind_done done
  obtain ⟨_, _, expected, done⟩ := Step.of_bind_done done
  obtain ⟨closing, rest, rfl, rfl, rfl⟩ := of_expect_done expected
  obtain ⟨yes, ⟨rest, middle, node⟩, ranYes, done⟩ := Step.of_bind_done done
  obtain ⟨took, afterElse, taken, done⟩ := Step.of_bind_done done
  rcases of_takes_done taken with ⟨otherwise, rest, rfl, rfl, rfl⟩ | ⟨rfl, noElse, rfl⟩
  · rw [if_pos rfl] at done
    obtain ⟨no, ⟨rest, middle, node⟩, ranNo, done⟩ := Step.of_bind_done done
    obtain ⟨rfl, rfl⟩ := Step.of_pure_done done
    obtain ⟨rfl, ns, no, rfl, ⟨dangling, derivesNo, closes⟩, numberedNo⟩ :=
      ih.statement _ _ _ _ _ ranNo clean
    obtain ⟨rfl, ys, yes, rfl, ⟨within, derivesYes, closesYes⟩, numberedYes⟩ :=
      ih.statement _ _ _ _ _ ranYes rfl
    obtain ⟨rfl, cs, condition, rfl, derivesCondition, numberedCondition⟩ :=
      ih.expression _ _ _ _ _ ranCondition rfl
    have nearest : within = false :=
      Bool.eq_false_iff.mpr fun isDangling => closesYes isDangling otherwise.2
    refine ⟨rfl, opening.1 :: cs ++ closing.1 :: ys ++ otherwise.1 :: ns, _, by simp,
      ⟨dangling, .ifElse keyword opening closing otherwise derivesCondition derivesYes
        (fun _ => nearest) derivesNo, closes⟩, ?_⟩
    simp only [Numbered.bind_apply, Numbered.pure_apply, numberedCondition, numberedYes, numberedNo]
  · rw [if_neg Bool.false_ne_true] at done
    obtain ⟨rfl, rfl⟩ := Step.of_pure_done done
    obtain ⟨rfl, ys, yes, rfl, ⟨within, derivesYes, _⟩, numberedYes⟩ :=
      ih.statement _ _ _ _ _ ranYes clean
    obtain ⟨rfl, cs, condition, rfl, derivesCondition, numberedCondition⟩ :=
      ih.expression _ _ _ _ _ ranCondition rfl
    refine ⟨rfl, opening.1 :: cs ++ closing.1 :: ys, _, by simp,
      ⟨true, .ifThen keyword opening closing derivesCondition derivesYes,
        fun _ => noElse (by decide)⟩, ?_⟩
    simp only [Numbered.bind_apply, Numbered.pure_apply, numberedCondition, numberedYes]

theorem recognizes_forStatement (ih : Recognized fuel) (keyword : Terminal (.keyword .for)) :
    Recognizes (Parse.forStatement (fuel + 1)) fun tokens tree rest =>
      DerivesStatement (keyword.1 :: tokens) tree rest := by
  intro input diagnostics nextNode value later done clean
  rw [Parse.forStatement] at done
  obtain ⟨_, _, expected, done⟩ := Step.of_bind_done done
  obtain ⟨opening, rest, rfl, rfl, rfl⟩ := of_expect_done expected
  obtain ⟨initial, ⟨rest, middle, node⟩, ranInitializer, done⟩ := Step.of_bind_done done
  obtain ⟨condition, ⟨rest, middle, node⟩, ranCondition, done⟩ := Step.of_bind_done done
  obtain ⟨_, _, expected, done⟩ := Step.of_bind_done done
  obtain ⟨semicolon, rest, rfl, rfl, rfl⟩ := of_expect_done expected
  obtain ⟨increment, ⟨rest, middle, node⟩, ranIncrement, done⟩ := Step.of_bind_done done
  obtain ⟨_, _, expected, done⟩ := Step.of_bind_done done
  obtain ⟨closing, rest, rfl, rfl, rfl⟩ := of_expect_done expected
  obtain ⟨body, ⟨rest, middle, node⟩, ranBody, done⟩ := Step.of_bind_done done
  obtain ⟨rfl, rfl⟩ := Step.of_pure_done done
  obtain ⟨rfl, ts, body, rfl, ⟨dangling, derivesBody, closes⟩, numberedBody⟩ :=
    ih.statement _ _ _ _ _ ranBody clean
  obtain ⟨rfl, us, increment, rfl, derivesIncrement, numberedIncrement⟩ :=
    ih.unlessSeen _ _ _ _ _ _ ranIncrement rfl
  obtain ⟨rfl, cs, condition, rfl, derivesCondition, numberedCondition⟩ :=
    ih.unlessSeen _ _ _ _ _ _ ranCondition rfl
  obtain ⟨rfl, is, initial, rfl, derivesInitializer, numberedInitializer⟩ :=
    ih.forInitializer _ _ _ _ _ ranInitializer rfl
  refine ⟨rfl, opening.1 :: is ++ cs ++ semicolon.1 :: us ++ closing.1 :: ts, _, by simp,
    ⟨dangling, .forLoop keyword opening semicolon closing derivesInitializer derivesCondition
      derivesIncrement derivesBody, closes⟩, ?_⟩
  simp only [Numbered.bind_apply, Numbered.pure_apply, numberedInitializer, numberedCondition,
    numberedIncrement, numberedBody]

theorem recognizes_statement (ih : Recognized fuel) :
    Recognizes (Parse.statement (fuel + 1)) DerivesStatement := by
  intro input diagnostics nextNode value later done clean
  rw [Parse.statement] at done
  obtain ⟨_, _, viewed, done⟩ := Step.of_bind_done done
  obtain ⟨rfl, rfl⟩ := Step.of_view_done viewed
  dsimp only [Cursor.peek] at done
  generalize kind : (firstToken input).kind = found at done
  split at done
  case h_1 =>
    obtain ⟨keyword, rest, rfl⟩ := eq_cons_of_first kind (by decide)
    obtain ⟨_, _, advanced, done⟩ := Step.of_bind_done done
    cases advanced
    obtain ⟨rfl, ts, tree, same, derives, numbered⟩ := ih.forStatement keyword _ _ _ _ _ done clean
    exact ⟨rfl, keyword.1 :: ts, tree, congrArg (keyword.1 :: ·) same, derives, numbered⟩
  case h_2 =>
    obtain ⟨keyword, rest, rfl⟩ := eq_cons_of_first kind (by decide)
    obtain ⟨_, _, advanced, done⟩ := Step.of_bind_done done
    cases advanced
    obtain ⟨rfl, ts, tree, same, derives, numbered⟩ := ih.ifStatement keyword _ _ _ _ _ done clean
    exact ⟨rfl, keyword.1 :: ts, tree, congrArg (keyword.1 :: ·) same, derives, numbered⟩
  case h_3 =>
    obtain ⟨keyword, rest, rfl⟩ := eq_cons_of_first kind (by decide)
    obtain ⟨_, _, advanced, done⟩ := Step.of_bind_done done
    cases advanced
    obtain ⟨_, _, expected, done⟩ := Step.of_bind_done done
    obtain ⟨opening, rest, rfl, same, rfl⟩ := of_expect_done expected
    obtain rfl : _ = opening.1 :: rest := same
    obtain ⟨condition, ⟨rest, middle, node⟩, ranCondition, done⟩ := Step.of_bind_done done
    obtain ⟨_, _, expected, done⟩ := Step.of_bind_done done
    obtain ⟨closing, rest, rfl, rfl, rfl⟩ := of_expect_done expected
    obtain ⟨body, ⟨rest, middle, node⟩, ranBody, done⟩ := Step.of_bind_done done
    obtain ⟨rfl, rfl⟩ := Step.of_pure_done done
    obtain ⟨rfl, ts, body, rfl, ⟨dangling, derivesBody, closes⟩, numberedBody⟩ :=
      ih.statement _ _ _ _ _ ranBody clean
    obtain ⟨rfl, cs, condition, rfl, derivesCondition, numberedCondition⟩ :=
      ih.expression _ _ _ _ _ ranCondition rfl
    refine ⟨rfl, keyword.1 :: opening.1 :: cs ++ closing.1 :: ts, _, by simp,
      ⟨dangling, .whileLoop keyword opening closing derivesCondition derivesBody, closes⟩, ?_⟩
    simp only [Numbered.bind_apply, Numbered.pure_apply, numberedCondition, numberedBody]
  case h_4 =>
    obtain ⟨keyword, rest, rfl⟩ := eq_cons_of_first kind (by decide)
    obtain ⟨_, _, advanced, done⟩ := Step.of_bind_done done
    cases advanced
    obtain ⟨result, ⟨rest, middle, node⟩, ran, done⟩ := Step.of_bind_done done
    obtain ⟨_, _, expected, done⟩ := Step.of_bind_done done
    obtain ⟨semicolon, rest, rfl, rfl, rfl⟩ := of_expect_done expected
    obtain ⟨rfl, rfl⟩ := Step.of_pure_done done
    obtain ⟨rfl, ts, tree, same, derives, numbered⟩ := ih.unlessSeen _ _ _ _ _ _ ran clean
    obtain rfl : _ = ts ++ semicolon.1 :: rest := same
    refine ⟨rfl, keyword.1 :: ts ++ [semicolon.1], _, by simp,
      ⟨false, .returning keyword semicolon derives, Kind.closes_false _⟩, ?_⟩
    simp only [Numbered.bind_apply, Numbered.pure_apply, numbered]
    rfl
  case h_5 =>
    obtain ⟨opening, rest, rfl⟩ := eq_cons_of_first kind (by decide)
    obtain ⟨_, _, advanced, done⟩ := Step.of_bind_done done
    cases advanced
    obtain ⟨statements, ⟨rest, middle, node⟩, ran, done⟩ := Step.of_bind_done done
    obtain ⟨rfl, rfl⟩ := Step.of_pure_done done
    obtain ⟨rfl, _, tree, same, ⟨ts, closing, rfl, derives⟩, numbered⟩ :=
      ih.block _ _ _ _ _ ran clean
    refine ⟨rfl, opening.1 :: ts ++ [closing.1], _, congrArg (opening.1 :: ·) same,
      ⟨false, .block opening closing derives, Kind.closes_false _⟩, ?_⟩
    simp only [Numbered.bind_apply, Numbered.pure_apply, numbered]
  case h_6 =>
    obtain ⟨keyword, rest, rfl⟩ := eq_cons_of_first kind (by decide)
    obtain ⟨_, _, advanced, done⟩ := Step.of_bind_done done
    cases advanced
    obtain ⟨result, ⟨rest, middle, node⟩, ran, done⟩ := Step.of_bind_done done
    obtain ⟨_, _, expected, done⟩ := Step.of_bind_done done
    obtain ⟨semicolon, rest, rfl, rfl, rfl⟩ := of_expect_done expected
    obtain ⟨rfl, rfl⟩ := Step.of_pure_done done
    obtain ⟨rfl, ts, tree, same, derives, numbered⟩ := ih.expression _ _ _ _ _ ran clean
    obtain rfl : _ = ts ++ semicolon.1 :: rest := same
    refine ⟨rfl, keyword.1 :: ts ++ [semicolon.1], _, by simp,
      ⟨false, .print keyword semicolon derives, Kind.closes_false _⟩, ?_⟩
    simp only [Numbered.bind_apply, Numbered.pure_apply, numbered]
    rfl
  case h_7 =>
    obtain ⟨rfl, ts, tree, rfl, derives, numbered⟩ := ih.expressionStatement _ _ _ _ _ done clean
    exact ⟨rfl, ts, tree, rfl, ⟨false, .ofExpression derives, Kind.closes_false _⟩, numbered⟩

/-! ### All productions -/

/-- **What any production reads without a diagnostic derives from its phrase.** -/
theorem recognized (fuel : Nat) : Recognized fuel := by
  induction fuel with
  | zero =>
    constructor <;> intros <;> intro input diagnostics nextNode value later done <;> cases done
  | succ fuel ih =>
    exact {
      expression := recognizes_expression ih
      ternary := recognizes_ternary ih
      binary := recognizes_binary ih
      operand := recognizes_operand ih
      joined := recognizes_joined ih
      unary := recognizes_unary ih
      calls := recognizes_calls ih
      arguments := recognizes_arguments ih
      argumentsAfter := recognizes_argumentsAfter ih
      primary := recognizes_primary ih
      functionBody := recognizes_functionBody ih
      block := recognizes_block ih
      declarations := recognizes_declarations ih
      declaration := recognizes_declaration ih
      varDeclaration := recognizes_varDeclaration ih
      initializer := recognizes_initializer ih
      statement := recognizes_statement ih
      expressionStatement := recognizes_expressionStatement ih
      unlessSeen := recognizes_unlessSeen ih
      ifStatement := recognizes_ifStatement ih
      forStatement := recognizes_forStatement ih
      forInitializer := recognizes_forInitializer ih }

end Lox
