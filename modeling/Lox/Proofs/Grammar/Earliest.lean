/-
**The first syntax error is found at the earliest possible token.**

* `AllDecided size` — what becomes of any production is decided by the tokens that it has come
  to, if they are few enough; with one lemma for each production. `nil` is the shortest
  expression, and completes whatever lacks one; a statement may be followed by anything but
  `else`, which would belong to it.
* `decided_program` — so what becomes of a program is decided by any tokens that it starts with:
  they break it, or they can be completed.
* `indexedErrors` — the errors of a program, each next to the index of its token.
* `first_error_is_earliest` — so the tokens before the one that the first fatal error is about can
  be completed, and with it they cannot.

The induction is on the number of tokens, and among equally many on how deep the productions are.
-/

import Lox.Proofs.Grammar.Decisions

namespace Lox

open Decided Read.Forward

/-- A reading is decided by tokens that are so much fewer than `size`. -/
def DecidedWithin {ι α : Type} (size slack : Nat) (read : ι → Read α) (Start Follow : Kind → Prop) :
    Prop :=
  ∀ tokens, NoEnd tokens → 32 * tokens.length + slack < size → Decided read Start Follow tokens

/-- The kind that the shortest expression consists of. -/
def Kind.IsNil (kind : Kind) : Prop :=
  kind = .keyword .nil

theorem Kind.IsNil.ne {kind other : Kind} (isNil : kind.IsNil) (differs : .keyword .nil ≠ other) :
    kind ≠ other :=
  isNil ▸ differs

/-- A token that makes no operands of a level longer makes neither an operand longer
nor joins it to another. -/
theorem Level.of_not_continues {level : Level} {kind : Kind}
    (follows : level.continues kind = false) :
    level.holds kind = false ∧ level.continuesOperand kind = false := by
  rw [Level.continues_eq] at follows
  exact Bool.or_eq_false_iff.mp follows

/-- All productions are decided by tokens that are so much fewer than `size`. -/
structure AllDecided (size : Nat) : Prop where
  expression : DecidedWithin size 15 Read.expression Kind.IsNil
    fun kind => kind.continuesExpression = false
  ternary : DecidedWithin size 14 Read.ternary Kind.IsNil fun kind => kind.continuesTernary = false
  binary : ∀ level : Level,
    DecidedWithin size level.height (Read.binary level) Kind.IsNil
      fun kind => level.continues kind = false
  operand : ∀ level : Level, DecidedWithin size (level.height - 1) (Read.operand level) Kind.IsNil
    fun kind => level.continuesOperand kind = false
  joined : ∀ level : Level, DecidedWithin size 0 (fun i : Expr × Nat => Read.joined level i.1 i.2)
    (fun kind => level.continues kind = false) fun kind => level.continues kind = false
  unary : DecidedWithin size 1 Read.unary Kind.IsNil (· ≠ .symbol .leftParen)
  calls : DecidedWithin size 0 (fun i : Expr × Nat => Read.calls i.1 i.2) (· ≠ .symbol .leftParen)
    (· ≠ .symbol .leftParen)
  arguments : DecidedWithin size 17 Read.arguments (· = .symbol .rightParen)
    (· = .symbol .rightParen)
  argumentsAfter : DecidedWithin size 16
    (fun i : Nat × Nat => Read.argumentsAfter i.1 i.2) Kind.IsNil (· = .symbol .rightParen)
  primary : DecidedWithin size 0 Read.primary Kind.IsNil Kind.Any
  functionBody : ∀ beforeParameters beforeBody,
    DecidedWithin size 21 (Read.functionBody beforeParameters beforeBody) Kind.Any Kind.Any
  block : DecidedWithin size 20 Read.block Kind.Any Kind.Any
  declarations : ∀ stop : Kind → Bool, stop (.keyword .else) = false →
    DecidedWithin size 19 (Read.declarations stop) (fun kind => kind = .eof ∨ stop kind = true)
      fun kind => kind = .eof ∨ stop kind = true
  declaration : DecidedWithin size 18 Read.declaration Kind.Any (· ≠ .keyword .else)
  varDeclaration : DecidedWithin size 1 Read.varDeclaration Kind.Any Kind.Any
  initializer : DecidedWithin size 0 Read.initializer (· = .symbol .semicolon)
    (· = .symbol .semicolon)
  statement : DecidedWithin size 17 Read.statement Kind.IsNil (· ≠ .keyword .else)
  expressionStatement : DecidedWithin size 16 Read.expressionStatement Kind.IsNil Kind.Any
  unlessSeen : ∀ kind : Kind, kind ≠ .eof → kind.continuesExpression = false →
    DecidedWithin size 16 (Read.unlessSeen kind) (· = kind) (· = kind)
  ifStatement : DecidedWithin size 18 Read.ifStatement Kind.Any (· ≠ .keyword .else)
  forStatement : DecidedWithin size 18 Read.forStatement Kind.Any (· ≠ .keyword .else)
  forInitializer : DecidedWithin size 17 Read.forInitializer Kind.Any Kind.Any

/-! ### Parameters -/

theorem decided_parametersAfter {tokens : List Token} (plain : NoEnd tokens) :
    Decided (fun i : Nat × Nat => Read.parametersAfter i.1 i.2)
      (· = .identifier) Kind.Any tokens := by
  induction length : tokens.length using Nat.strongRecOn generalizing tokens with
  | _ length ih =>
    subst length
    have forward : ∀ count fuel, (Read.parametersAfter count fuel).Forward := fun count fuel =>
      production (.parametersAfter count) fuel
    refine .succOf forward (fun count => rfl) ?_
    refine .mayReport rfl (fun i => forward i.1 (i.2 + 1)) ?_
    refine .expect plain nofun fun name left plainLeft le => ?_
    have fails : ∀ kind : Kind, kind = .symbol .rightParen → kind ≠ .symbol .comma := by
      rintro _ rfl
      decide
    refine .any (.takes plainLeft (fun i => ?_) (fun rest plainRest less => ?_) ?_ fails)
    · exact .bind (forward (i.1 + 1) i.2) fun _ => .pure _
    · exact .any (.map (.comp (ih _ (by omega) plainRest rfl) fun i : Nat × Nat => (i.1 + 1, i.2))
        plainRest)
    · exact .expect plainLeft nofun fun _ _ _ _ => .pure fun _ => id

theorem decided_parameters {tokens : List Token} (plain : NoEnd tokens) :
    Decided Read.parameters (· = .symbol .rightParen) Kind.Any tokens := by
  refine .sees (fun fuel => production (.parametersAfter 0) fuel) (by rintro _ rfl; decide) ?_
    fun _ _ _ => ?_
  · exact .expect plain nofun fun _ _ _ _ => .pure fun _ => id
  · exact .any (.comp (decided_parametersAfter plain) fun fuel : Nat => (0, fuel))

/-! ### Declarations -/

/-- A declaration before the end takes a token, or goes over one after a failure. -/
theorem declaration_takes {other : Token} {others : List Token} (plain : NoEnd (other :: others)) :
    ¬Consumes Read.declaration [] (other :: others <+: ·) := by
  intro consumes
  have noEnd := plain other List.mem_cons_self
  have hasEnd : (Reader.start (other :: (others ++ [.finish 0])) 0).HasEnd :=
    ⟨.finish 0, List.mem_cons_of_mem other (List.mem_append_right others List.mem_cons_self), rfl⟩
  generalize isReader : Reader.start (other :: (others ++ [.finish 0])) 0 = reader at hasEnd
  have isRest : reader.rest = other :: (others ++ [.finish 0]) := by
    rw [← isReader]
    rfl
  have notEnd : reader.cursor.atEnd = false := by
    rw [Reader.cursor_atEnd isRest, decide_eq_false noEnd]
  let fuel := 32 * reader.rest.length + 18
  rcases consumes fuel reader _ hasEnd isRest (List.prefix_append _ _)
    with out | ⟨form, later, ran, isLater, -⟩
  · have reaches := followed fuel .declaration reader hasEnd
    rw [show Production.declaration.read fuel reader = .outOfFuel from out] at reaches
    exact declaration_ends hasEnd notEnd (Nat.le_refl _) (Nat.le_refl _) reaches.eq_outOfFuel
  · have further := progress_declaration hasEnd isRest noEnd ran
    have goes := (production .declaration fuel).goes hasEnd ran
    have stays : later.position = reader.position + ([] : List Token).length :=
      goes.position_eq (isRest.trans isLater.symm)
    rw [stays] at further
    exact absurd further (Nat.lt_irrefl _)

/-- Tokens that make a lambda and the end of a statement after `fun`. -/
def lambdaRest : List Token :=
  [⟨.symbol .leftParen, "(", 0⟩, ⟨.symbol .rightParen, ")", 0⟩, ⟨.symbol .leftBrace, "\x7b", 0⟩,
    ⟨.symbol .rightBrace, "\x7d", 0⟩, ⟨.symbol .semicolon, ";", 0⟩, .finish 0]

/-! ### Productions -/

section

variable {size : Nat} (ih : AllDecided size)

include ih

theorem decided_expression :
    DecidedWithin (size + 1) 15 Read.expression Kind.IsNil fun kind => kind.continuesExpression =
      false := by
  intro tokens plain enough
  have compatible : ∀ kind : Kind, kind.continuesExpression = false →
      kind.continuesTernary = false := by
    intro kind follows
    exact (Bool.or_eq_false_iff.mp follows).2
  have fails : ∀ kind : Kind, kind.continuesExpression = false →
      decide (kind = .symbol .equal) = false := by
    intro kind follows
    exact (Bool.or_eq_false_iff.mp follows).1
  refine .succ (production .expression) rfl ?_
  refine .bind (ih.ternary tokens plain (by omega)) plain compatible fun left plainLeft le => ?_
  refine .takeIf plainLeft ?forward
    (fun equals rest plainRest less => .here (fun i => ?forward i equals) ?_)
    (.pure fun _ => id) fails
  case forward =>
    rintro ⟨fuel, target⟩ equals
    have follows := followed fuel .expression
    cases target with
    | «variable» => exact ⟨_, .here fun _ => .bind follows fun _ => .bind .freshNode
        fun _ => .pure _⟩
    | _ => exact ⟨_, .here fun _ => .bind follows fun _ => .bind (.report _ _ rfl) fun _ => .pure _⟩
  refine .any (.bind (.comp (ih.expression rest plainRest (by omega)) _) plainRest (fun _ => id)
    fun last _ _ => ?_)
  refine .quiet (fun i => ?_) (fun i reader _ => ?_) fun _ => id
  · obtain ⟨⟨⟨fuel, target⟩, next⟩, value⟩ := i
    cases target with
    | «variable» => exact .bind ⟨_, .freshNode⟩ fun _ => .pure _
    | _ => exact .bind ⟨_, .report _ _ rfl⟩ fun _ => .pure _
  · obtain ⟨⟨⟨fuel, target⟩, next⟩, value⟩ := i
    cases target with
    | «variable» => exact ⟨_, { reader with nextNode := _ }, rfl, rfl,
        [], (List.append_nil _).symm, rfl⟩
    | _ => exact ⟨_, reader.record (next - 1) (.atToken equals .invalidAssignmentTarget),
        rfl, rfl, [_], rfl, rfl⟩

theorem decided_ternary :
    DecidedWithin (size + 1) 14 Read.ternary Kind.IsNil fun kind => kind.continuesTernary =
      false := by
  intro tokens plain enough
  have compatible : ∀ kind : Kind, kind.continuesTernary = false →
      Level.or.continues kind = false := by
    intro kind follows
    exact (Bool.or_eq_false_iff.mp follows).2
  have fails : ∀ kind : Kind, kind.continuesTernary = false →
      decide (kind = .symbol .question) = false := by
    intro kind follows
    exact (Bool.or_eq_false_iff.mp follows).1
  refine .succ (production .ternary) rfl ?_
  refine .bind (ih.binary .or tokens plain (by rw [Level.height]; omega)) plain compatible
    fun left plainLeft le => ?_
  refine .takeIf plainLeft (fun i question => ?_) (fun question rest plainRest less => ?_)
    (.pure fun _ => id) fails
  · refine .bind (production .expression _) fun _ => .bind (expect _ _) fun _ => ?_
    exact .bind (production .ternary _) fun _ => .pure _
  · refine .any (.upTo (.comp (ih.expression rest plainRest (by omega)) _) plainRest nofun rfl
      fun colon left plainLeft le => ?_)
    exact .any (.map (.comp (ih.ternary left plainLeft (by omega)) _) plainLeft)

theorem decided_binary (level : Level) :
    DecidedWithin (size + 1) level.height (Read.binary level) Kind.IsNil
      fun kind => level.continues kind = false := by
  intro tokens plain enough
  have high := level.two_lt_height
  refine .succ (production (.binary level)) rfl ?_
  refine .bind (ih.operand level tokens plain (by omega)) plain
    (fun kind follows => (Level.of_not_continues follows).2) fun left plainLeft le => ?_
  exact .comp (ih.joined level left plainLeft (by omega)) fun i : Nat × Expr => (i.2, i.1)

theorem decided_operand (level : Level) :
    DecidedWithin (size + 1) (level.height - 1) (Read.operand level) Kind.IsNil
      fun kind => level.continuesOperand kind = false := by
  intro tokens plain enough
  have high := level.two_lt_height
  refine .succ (production (.operand level)) rfl ?_
  cases next : level.tighter? with
  | none =>
    have same : (fun fuel => Read.operand level (fuel + 1)) = Read.unary := by
      funext fuel
      rw [Read.operand, next]
    rw [same]
    refine (ih.unary tokens plain (by omega)).mono (fun _ => id) fun kind follows => ?_
    rw [Level.continuesOperand_of_tightest next] at follows
    exact of_decide_eq_false follows
  | some tighter =>
    have same : (fun fuel => Read.operand level (fuel + 1)) = Read.binary tighter := by
      funext fuel
      rw [Read.operand, next]
    rw [Level.height_of_tighter next] at enough
    rw [same, Level.continuesOperand_of_tighter next]
    exact ih.binary tighter tokens plain (by omega)

theorem decided_joined (level : Level) :
    DecidedWithin (size + 1) 0 (fun i : Expr × Nat => Read.joined level i.1 i.2)
      (fun kind => level.continues kind = false) fun kind => level.continues kind = false := by
  intro tokens plain enough
  have low : level.height ≤ 13 := by cases level <;> decide
  refine .succOf (fun left => production (.joined level left)) (fun left => rfl) ?_
  refine .takeIf plain (fun i operator => ?_) (fun operator rest plainRest less => ?_)
    (.pure fun _ => id) fun kind follows => (Level.of_not_continues follows).1
  · refine .bind (production (.operand level) _) fun right => ?_
    exact production (.joined level (level.join i.1 operator right)) _
  · refine .any (.bind (.comp (ih.operand level rest plainRest (by omega)) _) plainRest
      (fun kind follows => (Level.of_not_continues follows).2) fun left plainLeft le => ?_)
    exact .comp (ih.joined level left plainLeft (by omega)) fun i : (Expr × Nat) × Expr =>
      (level.join i.1.1 operator i.2, i.1.2)

theorem decided_unary :
    DecidedWithin (size + 1) 1 Read.unary Kind.IsNil (· ≠ .symbol .leftParen) := by
  intro tokens plain enough
  have compatible : ∀ kind : Kind, kind ≠ .symbol .leftParen → kind.Any := fun _ _ => trivial
  refine .succ (production .unary) rfl ?_
  refine .takeIf plain (fun i operator => ?_) (fun operator rest plainRest less => ?_) ?_
    (by rintro kind rfl; decide)
  · exact .bind (production .unary _) fun _ => .pure _
  · exact .any (.map (.comp (ih.unary rest plainRest (by omega)) _) plainRest)
  · refine .bind (ih.primary tokens plain (by omega)) plain compatible fun left plainLeft le => ?_
    exact .comp (ih.calls left plainLeft (by omega)) fun i : Nat × Expr => (i.2, i.1)

theorem decided_calls :
    DecidedWithin (size + 1) 0 (fun i : Expr × Nat => Read.calls i.1 i.2) (· ≠ .symbol .leftParen)
      (· ≠ .symbol .leftParen) := by
  intro tokens plain enough
  refine .succOf (fun callee => production (.calls callee)) (fun callee => rfl) ?_
  refine .takes plain (fun i => ?_) (fun rest plainRest less => ?_) (.pure fun _ => id) fun _ => id
  · refine .bind (production .arguments _) fun arguments => .bind (expect _ _) fun closing => ?_
    exact production (.calls (.call i.1 arguments closing)) _
  · refine .any (.upTo (.comp (ih.arguments rest plainRest (by omega)) _) plainRest nofun rfl
      fun closing left plainLeft le => ?_)
    exact .any (.comp (ih.calls left plainLeft (by omega)) fun i : (Expr × Nat) × List Expr =>
      (.call i.1.1 i.2 closing, i.1.2))

theorem decided_arguments :
    DecidedWithin (size + 1) 17 Read.arguments (· = .symbol .rightParen)
      (· = .symbol .rightParen) := by
  intro tokens plain enough
  refine .succ (production .arguments) rfl ?_
  refine .sees (fun fuel => production (.argumentsAfter 0) fuel) (by rintro kind rfl; decide)
    (.pure fun _ => id) fun _ _ _ => ?_
  exact .any (.comp (ih.argumentsAfter tokens plain (by omega)) fun fuel => (0, fuel))

theorem decided_argumentsAfter :
    DecidedWithin (size + 1) 16 (fun i : Nat × Nat => Read.argumentsAfter i.1 i.2) Kind.IsNil
      (· = .symbol .rightParen) := by
  intro tokens plain enough
  have compatible : ∀ kind : Kind, kind = .symbol .rightParen →
      kind.continuesExpression = false := by
    rintro _ rfl
    rfl
  have others : ∀ count fuel, (Read.argumentsAfter count fuel).Forward := fun count fuel =>
    production (.argumentsAfter count) fuel
  refine .succOf others (fun count => rfl) ?_
  refine .mayReport rfl (fun i => others i.1 (i.2 + 1)) ?_
  refine .bind (.comp (ih.expression tokens plain (by omega)) _) plain compatible
    fun left plainLeft le => ?_
  refine .takes plainLeft (fun i => ?_) (fun rest plainRest less => ?_)
    (.pure fun _ => id) (by rintro kind rfl; decide)
  · exact .bind (others (i.1.1 + 1) i.1.2) fun _ => .pure _
  · exact .any (.map (.comp (ih.argumentsAfter rest plainRest (by omega))
        fun i : (Nat × Nat) × Expr =>
      (i.1.1 + 1, i.1.2)) plainRest)

theorem decided_primary : DecidedWithin (size + 1) 0 Read.primary Kind.IsNil Kind.Any := by
  intro tokens plain enough
  refine .succ (production .primary) rfl ?_
  refine .peek plain (fun fuel => production .primary (fuel + 1)) ?completion
    fun token rest isTokens plainRest noEnd => ?_
  case completion =>
    have noEnd : NoEnd [⟨.keyword .nil, "nil", 0⟩] := by
      intro token isToken
      rw [List.mem_singleton.mp isToken]
      decide
    refine ⟨_, noEnd, fun fuel reader rest hasEnd isRest _ => .inr ?_, fun rest _ => rfl⟩
    refine ⟨.literal .nil, reader.forward, ?_, Reader.forward_rest isRest, .refl reader⟩
    beta_reduce
    rw [Step.bind_done (Read.peek_next isRest)]
    exact Step.bind_done (Read.advance_next isRest (by decide)) _
  subst isTokens
  rw [List.length_cons] at enough
  have taken : ∀ value, Fate (fun _ : Nat => Read.taken value) Kind.Any
      (token :: rest) := fun value =>
    .advance noEnd (.pure fun _ => id)
  have missing : Fate (fun _ : Nat => (Read.missing .expression : Read Expr)) Kind.Any
    (token :: rest) := .missing
  generalize token.kind = kind
  cases kind with
  | number value => exact taken _
  | string contents => exact taken _
  | identifier =>
    refine .advance noEnd (.quiet ?_ (fun _ reader _ => ?_) fun _ => id)
    · exact fun _ => .bind ⟨_, .freshNode⟩ fun _ => .pure _
    · exact ⟨_, { reader with nextNode := _ }, rfl, rfl, [], (List.append_nil _).symm, rfl⟩
  | eof => exact missing
  | symbol mark =>
    cases mark with
    | leftParen =>
      exact .advance noEnd (.upTo (ih.expression rest plainRest (by omega)) plainRest nofun rfl
        fun _ _ _ _ => .pure fun _ => id)
    | _ => exact missing
  | keyword word =>
    cases word with
    | «false» => exact taken _
    | «true» => exact taken _
    | nil => exact taken _
    | «fun» =>
      exact .advance noEnd (.map
        (ih.functionBody .lambdaParameters .lambdaBody rest plainRest (by omega)) plainRest)
    | _ => exact missing

theorem decided_functionBody (beforeParameters beforeBody : Expected) :
    DecidedWithin (size + 1) 21 (Read.functionBody beforeParameters beforeBody)
      Kind.Any Kind.Any := by
  intro tokens plain enough
  refine .succ (production (.functionBody beforeParameters beforeBody)) rfl ?_
  refine .any (.expect plain nofun fun opening left plainLeft le => ?_)
  refine .any (.upTo (decided_parameters plainLeft) plainLeft nofun trivial
    fun brace last plainLast less => ?_)
  exact .map (.comp (ih.block last plainLast (by omega)) _) plainLast

theorem decided_block : DecidedWithin (size + 1) 20 Read.block Kind.Any Kind.Any := by
  intro tokens plain enough
  refine .succ (production .block) rfl ?_
  refine .any (.upTo (ih.declarations _ rfl tokens plain (by omega)) plain nofun (.inr rfl)
    fun _ _ _ _ => ?_)
  exact .pure fun _ => id

theorem decided_declarations (stop : Kind → Bool) (goesOn : stop (.keyword .else) = false) :
    DecidedWithin (size + 1) 19 (Read.declarations stop) (fun kind => kind = .eof ∨
      stop kind = true) fun kind => kind = .eof ∨ stop kind = true := by
  intro tokens plain enough
  have compatible : ∀ kind : Kind, kind = .eof ∨ stop kind = true → kind ≠ .keyword .else := by
    rintro _ stops rfl
    rw [goesOn] at stops
    simp at stops
  refine .succ (production (.declarations stop)) rfl ?_
  refine .stops (fun fuel => ?_) (fun _ => id) (.pure fun _ => id) fun token rest isTokens => ?_
  · exact .bind (production .declaration fuel) fun _ => .bind (production (.declarations stop) fuel)
      fun _ => .pure _
  · have nonempty : 0 < tokens.length := by
      rw [isTokens]
      exact Nat.succ_pos _
    refine .any (.bindStrictly (ih.declaration tokens plain (by omega)) plain compatible
      (fun _ _ => declaration_takes) fun left plainLeft le => ?_)
    exact .map (.comp (ih.declarations stop goesOn left plainLeft (by omega)) _) plainLeft

theorem decided_declaration :
    DecidedWithin (size + 1) 18 Read.declaration Kind.Any (· ≠ .keyword .else) := by
  intro tokens plain enough
  have other : Decided (fun fuel => do
      if ← Read.takes (.keyword .var) then Read.varDeclaration fuel else Read.statement fuel)
        Kind.IsNil
      (· ≠ .keyword .else) tokens := by
    refine .takes plain (production .varDeclaration) (fun rest plainRest less => ?_)
      (ih.statement tokens plain (by omega)) fun kind isNil => isNil.ne (by decide)
    exact .anyAfter (ih.varDeclaration rest plainRest (by omega))
  refine .succ (production .declaration) rfl (.any (.recover (.seesFunction plain (fun fuel => ?_)
    (fun keyword rest isTokens plainRest => ?_) other (fun kind isNil => isNil.ne (by decide))
    fun keyword isTokens isFun => ?_)))
  · refine .bind (expect _ _) fun _ => .bind ?_ fun _ => .pure _
    exact production (.functionBody .functionParameters .functionBody) fuel
  · rw [isTokens, List.length_cons] at enough
    refine .expect plainRest nofun fun name left plainLeft le => ?_
    exact .map (.anyAfter (ih.functionBody _ _ left plainLeft (by omega))) plainLeft
  · -- read as a statement, `fun` is the start of a lambda
    have hasEnd : (Reader.start (keyword :: lambdaRest) 0).HasEnd :=
      ⟨.finish 0, List.mem_cons_of_mem keyword (by simp [lambdaRest]), rfl⟩
    subst isTokens
    obtain ⟨kind, lexeme, line⟩ := keyword
    cases isFun
    exact other.fate.survives_of_run (i := 30) (other.forward 30) hasEnd rfl rfl
      ⟨[], rfl, rfl⟩ (Nat.le_add_left 1 5)

theorem decided_varDeclaration :
    DecidedWithin (size + 1) 1 Read.varDeclaration Kind.Any Kind.Any := by
  intro tokens plain enough
  refine .succ (production .varDeclaration) rfl ?_
  refine .any (.expect plain nofun fun name left plainLeft le => ?_)
  exact .any (.upTo (.comp (ih.initializer left plainLeft (by omega)) _) plainLeft nofun rfl
    fun _ _ _ _ => .pure fun _ => id)

theorem decided_initializer :
    DecidedWithin (size + 1) 0 Read.initializer (· = .symbol .semicolon)
      (· = .symbol .semicolon) := by
  intro tokens plain enough
  have compatible : ∀ kind : Kind, kind = .symbol .semicolon →
      kind.continuesExpression = false := by
    rintro _ rfl
    rfl
  refine .succ (production .initializer) rfl ?_
  refine .takes plain (fun fuel => .bind (production .expression fuel) fun _ => .pure _)
    (fun rest plainRest less => ?_) (.pure fun _ => id) (by rintro _ rfl; decide)
  exact .map ((ih.expression rest plainRest (by omega)).mono (fun _ _ => trivial) compatible)
    plainRest

theorem decided_statement :
    DecidedWithin (size + 1) 17 Read.statement Kind.IsNil (· ≠ .keyword .else) := by
  intro tokens plain enough
  have weaker : DecidedWithin size 16 Read.expressionStatement Kind.IsNil (· ≠ .keyword .else) :=
    fun tokens plain enough => .anyAfter (ih.expressionStatement tokens plain enough)
  refine .succ (production .statement) rfl ?_
  refine .peek plain (fun fuel => production .statement (fuel + 1)) ?completion
    fun token rest isTokens plainRest noEnd => ?_
  case completion =>
    have shorter : 32 * ([] : List Token).length + 16 < size := by
      rw [List.length_nil]
      omega
    obtain ⟨completion, plainCompletion, consumes, starts⟩ := (weaker [] nofun shorter).completion
    refine ⟨completion, plainCompletion, ?_, starts⟩
    refine consumes.lead (.stays fun fuel reader rest token others follows isFirst isRest => ?_)
    have isNil : (firstToken (completion ++ rest)).kind = .keyword .nil := starts rest follows
    rw [isFirst, firstToken_cons] at isNil
    rw [Step.bind_done (Read.peek_next isRest), isNil]
  have otherwise := (weaker tokens plain (by omega)).fate
  subst isTokens
  rw [List.length_cons] at enough
  generalize token.kind = kind
  cases kind with
  | symbol mark =>
    cases mark with
    | leftBrace =>
      exact .advance noEnd (.map (.anyAfter (ih.block rest plainRest (by omega))) plainRest)
    | _ => exact otherwise
  | keyword word =>
    cases word with
    | «for» => exact .advance noEnd (ih.forStatement rest plainRest (by omega))
    | «if» => exact .advance noEnd (ih.ifStatement rest plainRest (by omega))
    | «while» =>
      refine .advance noEnd (.expect plainRest nofun fun opening left plainLeft le => ?_)
      refine .any (.upTo (.comp (ih.expression left plainLeft (by omega)) _) plainLeft nofun rfl
        fun closing left plainLeft le => ?_)
      exact .any (.map (.comp (ih.statement left plainLeft (by omega)) _) plainLeft)
    | «return» =>
      have value := ih.unlessSeen (.symbol .semicolon) nofun rfl rest plainRest (by omega)
      exact .advance noEnd (.upTo value plainRest nofun rfl fun _ _ _ _ => .any (.pure fun _ => id))
    | «print» =>
      have value := ih.expression rest plainRest (by omega)
      exact .advance noEnd (.upTo value plainRest nofun rfl fun _ _ _ _ => .any (.pure fun _ => id))
    | _ => exact otherwise
  | _ => exact otherwise

theorem decided_expressionStatement :
    DecidedWithin (size + 1) 16 Read.expressionStatement Kind.IsNil Kind.Any := by
  intro tokens plain enough
  refine .succ (production .expressionStatement) rfl ?_
  exact .upTo (ih.expression tokens plain (by omega)) plain nofun rfl
    fun _ _ _ _ => .pure fun _ => id

theorem decided_unlessSeen (kind : Kind) (noEnd : kind ≠ .eof)
    (follows : kind.continuesExpression = false) :
    DecidedWithin (size + 1) 16 (Read.unlessSeen kind) (· = kind) (· = kind) := by
  intro tokens plain enough
  have compatible : ∀ other : Kind, other = kind → other.continuesExpression = false := by
    rintro _ rfl
    exact follows
  refine .succ (production (.unlessSeen kind)) rfl ?_
  refine .sees (fun fuel => .bind (production .expression fuel) fun _ => .pure _) ?_
    (.pure fun _ => id) fun _ _ _ => ?_
  · exact fun other isKind => ⟨isKind ▸ noEnd, decide_eq_true isKind⟩
  · exact .map ((ih.expression tokens plain (by omega)).mono (fun _ _ => trivial) compatible) plain

theorem decided_ifStatement :
    DecidedWithin (size + 1) 18 Read.ifStatement Kind.Any (· ≠ .keyword .else) := by
  intro tokens plain enough
  refine .succ (production .ifStatement) rfl ?_
  refine .any (.expect plain nofun fun opening left plainLeft le => ?_)
  refine .any (.upTo (.comp (ih.expression left plainLeft (by omega)) _) plainLeft nofun rfl
    fun closing left plainLeft le => ?_)
  refine .any (.bind (.comp (ih.statement left plainLeft (by omega)) _) plainLeft (fun _ => id)
    fun left plainLeft le => ?_)
  refine .takes plainLeft (fun i => ?_) (fun rest plainRest less => ?_) (.pure fun _ => id)
    fun _ => id
  · exact .bind (production .statement _) fun _ => .pure _
  · exact .any (.map (.comp (ih.statement rest plainRest (by omega)) _) plainRest)

theorem decided_forStatement :
    DecidedWithin (size + 1) 18 Read.forStatement Kind.Any (· ≠ .keyword .else) := by
  intro tokens plain enough
  have compatible : ∀ kind : Kind, kind = .symbol .semicolon → kind.Any := fun _ _ => trivial
  refine .succ (production .forStatement) rfl ?_
  refine .any (.expect plain nofun fun opening left plainLeft le => ?_)
  refine .any (.bind (.comp (ih.forInitializer left plainLeft (by omega)) _) plainLeft compatible
    fun left plainLeft le => ?_)
  refine .upTo (.comp (ih.unlessSeen (.symbol .semicolon) nofun rfl left plainLeft (by omega)) _)
    plainLeft nofun rfl fun semicolon left plainLeft le => ?_
  refine .any (.upTo (.comp
    (ih.unlessSeen (.symbol .rightParen) nofun rfl left plainLeft (by omega)) _) plainLeft nofun
    rfl fun closing left plainLeft le => ?_)
  exact .any (.map (.comp (ih.statement left plainLeft (by omega)) _) plainLeft)

theorem decided_forInitializer :
    DecidedWithin (size + 1) 17 Read.forInitializer Kind.Any Kind.Any := by
  intro tokens plain enough
  refine .succ (production .forInitializer) rfl ?_
  refine .any (.takes plain (fun _ => .pure _) (fun _ _ _ => .pure fun _ => id) ?_
    fun kind (isNil : kind.IsNil) => isNil.ne (by decide))
  refine .takes plain (fun fuel => .bind (production .varDeclaration fuel) fun _ => .pure _)
    (fun rest plainRest less => ?_) ?_ fun kind isNil => isNil.ne (by decide)
  · exact .map (ih.varDeclaration rest plainRest (by omega)) plainRest
  · exact .map (ih.expressionStatement tokens plain (by omega)) plain

end

/-- **All productions are decided by the tokens that they have come to.** -/
theorem allDecided (size : Nat) : AllDecided size := by
  induction size with
  | zero =>
    constructor
    all_goals
      intros
      intro tokens plain enough
      exact absurd enough (Nat.not_lt_zero _)
  | succ size ih =>
    exact {
      expression := decided_expression ih
      ternary := decided_ternary ih
      binary := decided_binary ih
      operand := decided_operand ih
      joined := decided_joined ih
      unary := decided_unary ih
      calls := decided_calls ih
      arguments := decided_arguments ih
      argumentsAfter := decided_argumentsAfter ih
      primary := decided_primary ih
      functionBody := decided_functionBody ih
      block := decided_block ih
      declarations := decided_declarations ih
      declaration := decided_declaration ih
      varDeclaration := decided_varDeclaration ih
      initializer := decided_initializer ih
      statement := decided_statement ih
      expressionStatement := decided_expressionStatement ih
      unlessSeen := decided_unlessSeen ih
      ifStatement := decided_ifStatement ih
      forStatement := decided_forStatement ih
      forInitializer := decided_forInitializer ih }

/-! ### Programs -/

/-- A program is decided by any tokens that it starts with. -/
theorem decided_program {tokens : List Token} (plain : NoEnd tokens) :
    Decided Read.program (· = .eof) (· = .eof) tokens := by
  have enough : 32 * tokens.length + 19 < 32 * tokens.length + 20 := Nat.lt_succ_self _
  refine ((allDecided _).declarations (fun _ => false) rfl tokens plain enough).mono ?_
    fun _ => .inl
  exact fun kind ends => ends.resolve_right Bool.false_ne_true

/-- The diagnostics of a program, each next to the index of the token that it is about. -/
def indexedErrors (tokens : List Token) (nextNode : Nat) : List (Nat × Diagnostic) :=
  (Read.program (Parse.fuelFor tokens) (.start tokens nextNode)).entries

/-- There are tokens after these with which nothing fatal is found. -/
def Completable (tokens : List Token) : Prop :=
  ∃ completion, NoEnd completion ∧ ∀ (finish : Terminal .eof) (nextNode : Nat),
    ∀ diagnostic ∈ syntaxErrors (tokens ++ completion ++ [finish.1]) nextNode,
      diagnostic.defect.isFatal = false

/-- Something fatal is found whatever comes after these tokens. -/
def Hopeless (tokens : List Token) : Prop :=
  ∀ (completion : List Token) (finish : Terminal .eof) (nextNode : Nat),
    ∃ diagnostic ∈ syntaxErrors (tokens ++ completion ++ [finish.1]) nextNode,
      diagnostic.defect.isFatal = true

section

variable {tokens : List Token}

theorem indexedErrors_eq (segment : Segment .finish tokens) (nextNode : Nat) :
    (indexedErrors tokens nextNode).map Prod.snd = syntaxErrors tokens nextNode := by
  obtain ⟨forms, later, ran, -, same⟩ := program_done segment nextNode (Nat.le_refl _)
  rw [indexedErrors, ran]
  exact same

theorem completable_of_consumes {completion : List Token} (plain : NoEnd completion)
    (consumes : Consumes Read.program (tokens ++ completion) (Leading (· = .eof))) :
    Completable tokens := by
  refine ⟨completion, plain, fun finish nextNode diagnostic isFound => ?_⟩
  have segment : Segment .finish (tokens ++ completion ++ [finish.1]) :=
    .append (.singleton finish.2) _
  obtain ⟨forms, later, ran, -, same⟩ := program_done segment nextNode (Nat.le_refl _)
  rcases consumes _ _ [finish.1] (segment.hasEnd nextNode) rfl finish.2 with
    out | ⟨value, last, ranClean, -, found, isFoundAll, quiet⟩
  · rw [ran] at out
    cases out
  · rw [ran] at ranClean
    cases ranClean
    rw [← same, isFoundAll] at isFound
    obtain ⟨entry, isEntry, rfl⟩ := List.mem_map.mp isFound
    exact firstFatal_eq_none.mp quiet entry isEntry

theorem hopeless_of_breaks {before others : List Token} {other : Token}
    (breaks : BreaksAfter Read.program before (other :: others <+: ·)) :
    Hopeless (before ++ other :: others) := by
  intro completion finish nextNode
  have segment : Segment .finish (before ++ other :: others ++ completion ++ [finish.1]) :=
    .append (.singleton finish.2) _
  have isPrefix : other :: others <+: other :: others ++ (completion ++ [finish.1]) :=
    List.prefix_append _ _
  have isRest : before ++ other :: others ++ completion ++ [finish.1] =
      before ++ (other :: others ++ (completion ++ [finish.1])) := by
    simp only [List.append_assoc]
  obtain ⟨forms, later, ran, -, same⟩ := program_done segment nextNode (Nat.le_refl _)
  rcases breaks _ _ _ (segment.hasEnd nextNode) isRest isPrefix
    with out | ⟨found, diagnostic, isFound, fatal⟩
  · rw [ran] at out
    cases out
  · obtain ⟨isEntry, isFatal⟩ := mem_of_firstFatal fatal
    rw [ran] at isFound
    refine ⟨diagnostic, ?_, isFatal⟩
    rw [← same, show later.diagnostics = _ from isFound]
    exact List.mem_map_of_mem isEntry

/-- Where the first fatal diagnostic stands, it is decided: up to there, the tokens can be
completed, and further on they cannot. -/
theorem decided_by_first {before rest : List Token} (plain : NoEnd before)
    (isTokens : before ++ rest = tokens) (segment : Segment .finish tokens) {nextNode index : Nat}
    {diagnostic : Diagnostic}
    (first : firstFatal (indexedErrors tokens nextNode) = some (index, diagnostic)) :
    (before.length ≤ index → Completable before) ∧ (index < before.length → Hopeless before) := by
  subst isTokens
  have hasEnd := segment.hasEnd nextNode
  obtain ⟨forms, later, ran, -⟩ := program_done segment nextNode (Nat.le_refl _)
  have broken : (Reader.start (before ++ rest) nextNode).Breaks index _ :=
    ⟨_, diagnostic, rfl, first⟩
  cases (decided_program plain).fate with
  | passes taken other others split consumes =>
    have isRest : before ++ rest = taken ++ (other :: others ++ rest) := by
      rw [split, List.append_assoc]
    rcases consumes _ _ _ hasEnd isRest (List.prefix_append _ _)
      with out | ⟨value, last, ranClean, -, clean⟩
    · rw [ran] at out
      cases out
    · rw [ranClean] at broken
      exact absurd clean broken.not_clean
  | breaks taken other others split breaks =>
    have isRest : before ++ rest = taken ++ (other :: others ++ rest) := by
      rw [split, List.append_assoc]
    refine ⟨fun le => ?_, fun _ => split ▸ hopeless_of_breaks breaks⟩
    rcases breaks _ _ _ hasEnd isRest (List.prefix_append _ _) with out | brokenHere
    · rw [ran] at out
      cases out
    · have same : index = 0 + taken.length := broken.unique brokenHere
      rw [split, List.length_append, List.length_cons] at le
      omega
  | survives completion plainCompletion consumes survives =>
    refine ⟨fun _ => completable_of_consumes plainCompletion consumes, fun less => ?_⟩
    rcases survives _ _ _ hasEnd rfl
      with out | ⟨value, last, ranClean, clean, -⟩ | ⟨other, further, brokenHere⟩
    · rw [ran] at out
      cases out
    · rw [ranClean] at broken
      exact absurd clean broken.not_clean
    · have same : index = other := broken.unique brokenHere
      have further : 0 + before.length ≤ other := further
      omega

end

/-- What is to be said of the first fatal diagnostic of some tokens and an end token, which is about
the token with this index. -/
structure FoundEarliest (tokens : List Token) (finish : Token) (nextNode index : Nat)
    (diagnostic : Diagnostic) :
    Prop where
  /-- The diagnostics with indices are those of the program. -/
  indexed : (indexedErrors (tokens ++ [finish]) nextNode).map Prod.snd =
    syntaxErrors (tokens ++ [finish]) nextNode
  first : firstFatal (indexedErrors (tokens ++ [finish]) nextNode) = some (index, diagnostic)
  anchored : Anchored (tokens ++ [finish]) index diagnostic
  /-- The tokens before it have a completion. -/
  completable : Completable (tokens.take index)
  /-- With it, unless it is the end token, they have none. -/
  hopeless : index < tokens.length → Hopeless (tokens.take (index + 1))

/-- **The first syntax error is found at the earliest possible token.** -/
theorem first_error_is_earliest {tokens : List Token} (plain : NoEnd tokens)
    (finish : Terminal .eof) (nextNode : Nat) {diagnostic : Diagnostic}
    (first : (syntaxErrors (tokens ++ [finish.1]) nextNode).find? (·.defect.isFatal) =
      some diagnostic) :
    ∃ index, FoundEarliest tokens finish.1 nextNode index diagnostic := by
  have segment : Segment .finish (tokens ++ [finish.1]) := .append (.singleton finish.2) tokens
  have indexed := indexedErrors_eq segment nextNode
  rw [← indexed, List.find?_map] at first
  obtain ⟨⟨index, found⟩, isFirst, rfl⟩ := Option.map_eq_some_iff.mp first
  have decided (length : Nat) : ((tokens.take length).length ≤ index →
      Completable (tokens.take length)) ∧
      (index < (tokens.take length).length → Hopeless (tokens.take length)) := by
    have isTokens : tokens.take length ++ (tokens.drop length ++ [finish.1]) =
        tokens ++ [finish.1] := by
      rw [← List.append_assoc, List.take_append_drop]
    exact decided_by_first (fun token isToken => plain token (List.mem_of_mem_take isToken))
      isTokens segment isFirst
  refine ⟨index, indexed, isFirst, ?_, (decided index).1 (List.length_take_le _ _),
    fun inside => ?_⟩
  · obtain ⟨forms, later, ran, -⟩ := program_done segment nextNode (Nat.le_refl _)
    have goes := Read.Forward.goes ⟨_, follows_program _⟩ (segment.hasEnd nextNode) ran
    obtain ⟨isEntry, fatal⟩ := mem_of_firstFatal isFirst
    obtain ⟨all, isAll, anchored⟩ := goes.found
    have same : later.diagnostics = all := isAll
    rw [indexedErrors, ran, Outcome.entries, same] at isEntry
    exact (anchored _ isEntry fatal).2.2
  · refine (decided (index + 1)).2 ?_
    rw [List.length_take]
    omega

/-- The tokens of `fun nil`. -/
def lambdaWithoutParameters : List Token :=
  [⟨.keyword .fun, "fun", 1⟩, ⟨.keyword .nil, "nil", 1⟩]

/-- A parenthesis or a name could have come after `fun`. -/
theorem found_after_fun :
    FoundEarliest lambdaWithoutParameters (.finish 1) 0 1
      ⟨1, .atToken "nil", .missing .lambdaParameters⟩ := by
  have plain : NoEnd lambdaWithoutParameters := by
    simp [NoEnd, lambdaWithoutParameters]
  obtain ⟨index, found⟩ := first_error_is_earliest plain ⟨.finish 1, rfl⟩ 0 rfl
  have isFirst : firstFatal (indexedErrors (lambdaWithoutParameters ++ [.finish 1]) 0) =
    some (1, _) := rfl
  cases isFirst.symm.trans found.first
  exact found

end Lox
