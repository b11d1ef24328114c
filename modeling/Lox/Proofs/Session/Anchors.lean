/-
**Runtime errors belong to tokens of the text, of a kind that fits what went wrong.**

* `Fault.Fits` — the tokens that a fault may belong to. None may be an operator that there is not.
* `applyUnary_fits`, `applyBinary_fits` — what operators raise fits them.
* `Part.Apt` — all tokens in a part fit their roles. This holds of what a session reads
  (`After.apt`).
* `Past.Anchors` — an error is that of a token which the texts of the past use in a role
  that makes the fault fit.
* `Moment.Stands.anchors` — where a moment stands, the errors that it raises are anchored.
* `errors_are_anchored` — so are all errors that a session raises, and no operator
  is ever found to be none.
-/

import Lox.Proofs.Grammar.Roles
import Lox.Proofs.Session.Natives

namespace Lox

/-! ### Faults of operators -/

/-- The token is of a kind that the fault may belong to. -/
def Fault.Fits (token : Token) : Fault → Prop
  | .operandNotNumber => token.kind = .symbol .minus
  | .operandsNotNumbers =>
    ∃ symbol ∈ [Symbol.minus, .star, .slash, .greater, .greaterEqual, .less, .lessEqual],
      token.kind = .symbol symbol
  | .operandsNotAddable => token.kind = .symbol .plus
  | .divisionByZero => token.kind = .symbol .slash
  | .notUnaryOperator | .notBinaryOperator => False
  | .undefinedVariable name => token.kind = .identifier ∧ token.lexeme = name
  | .notCallable | .wrongArity _ _ | .stackOverflow | .native _ =>
    token.kind = .symbol .rightParen
  | .outputFailed _ => token.kind = .keyword .print

/-- What an operator raises on its only operand fits it. -/
theorem applyUnary_fits {operator : Token} {operand : Value} {fault : Fault}
    (isUnary : Role.unary.Fits operator.kind)
    (raised : applyUnary operator.kind operand = .error fault) :
    fault.Fits operator := by
  rcases isUnary with isBang | isMinus
  · rw [isBang] at raised
    unfold applyUnary at raised
    cases operand <;> cases raised
  · rw [isMinus] at raised
    unfold applyUnary at raised
    cases operand <;> cases raised <;> exact isMinus

/-- Operations on numbers raise their own faults, or that the operands are no numbers. -/
theorem Value.onNumbers_error {operation : Float → Float → Except Fault Value} {left right : Value}
    {fault : Fault} (raised : Value.onNumbers operation left right = .error fault) :
    fault = .operandsNotNumbers ∨ ∃ first second, operation first second = .error fault := by
  unfold Value.onNumbers at raised
  split at raised
  · exact .inr ⟨_, _, raised⟩
  · cases raised
    exact .inl rfl

/-- What an operator raises on two operands fits it. -/
theorem applyBinary_fits {operator : Token} {left right : Value} {fault : Fault}
    (isBinary : Role.binary.Fits operator.kind)
    (raised : applyBinary operator.kind left right = .error fault) :
    fault.Fits operator := by
  obtain ⟨symbol, isSymbol, isKind⟩ := isBinary
  rw [isKind] at raised
  -- an operation that never fails by itself
  have total : ∀ {operation : Float → Float → Except Fault Value},
      (∀ first second, operation first second ≠ .error fault) →
      Value.onNumbers operation left right = .error fault →
      symbol ∈ [Symbol.minus, .star, .slash, .greater, .greaterEqual, .less, .lessEqual] →
      fault.Fits operator := by
    intro operation never raised isArithmetic
    rcases Value.onNumbers_error raised with rfl | ⟨first, second, failed⟩
    · exact ⟨symbol, isArithmetic, isKind⟩
    · exact absurd failed (never first second)
  cases symbol with
  | bangEqual | equalEqual => cases raised
  | plus =>
    unfold applyBinary Value.add at raised
    dsimp only at raised
    split at raised <;> cases raised
    exact isKind
  | slash =>
    rcases Value.onNumbers_error raised with rfl | ⟨first, second, failed⟩
    · exact ⟨.slash, by simp, isKind⟩
    · unfold Value.quotient at failed
      split at failed <;> cases failed
      exact isKind
  | minus | star | greater | greaterEqual | less | lessEqual =>
    exact total (fun _ _ never => by cases never) raised (by simp)
  | _ => simp [binarySymbols] at isSymbol

/-! ### What a session reads -/

/-- All tokens in the part fit their roles. -/
def Part.Apt (part : Part) : Prop :=
  ∀ role token, .token role token ∈ part.uses → role.Fits token.kind

namespace Session

variable {session later : Session} {request : Request} {root : Site} {start : Moment} {next : Nat}

/-- In what is read, all tokens fit their roles. -/
theorem Begins.apt (begins : session.Begins request root start next) : root.part.Apt := by
  intro role token isUse
  cases begins with
  | run read =>
    obtain ⟨tree, derives, same⟩ := derives_of_readProgram read
    have fit := derives.uses_fit session.nextNode
    rw [same] at fit
    exact (fit _ isUse).2
  | evaluate read =>
    obtain ⟨tree, derives, same⟩ := derives_of_readExpression read
    have fit := derives.uses_fit session.nextNode
    rw [same] at fit
    exact (fit _ isUse).2

theorem After.apt {clock : Nat → Float} {past : Past} (after : After clock past session) :
    ∀ root ∈ past.roots, root.part.Apt := by
  induction after with
  | start => exact nofun
  | request _ begins _ ih =>
    exact List.forall_mem_append.mpr ⟨ih, List.forall_mem_singleton.mpr begins.apt⟩
  | refused _ _ ih | global _ _ _ ih | sink _ _ ih | output _ ih => exact ih

/-- A request that raises an error has been read and resolved. -/
theorem Raises.begins {error : RuntimeError} (raises : session.Raises request error later) :
    ∃ root start next, session.Begins request root start next := by
  have accepted : ∀ {α β : Type} {reader : Nat → Except (List Diagnostic) α × Nat}
      {resolver : α → Except (List Diagnostic) (List Reference)} {body : α → Run β},
      (do
        let value ← Session.read reader
        learn (resolver value)
        onMachine (body value) : Step Session Failure β) session = .failed (.runtime error) later →
      ∃ value next references, reader session.nextNode = (.ok value, next) ∧
        resolver value = .ok references := by
    intro α β reader resolver body failed
    rw [Step.bind_apply] at failed
    unfold Session.read at failed
    generalize isRead : reader session.nextNode = found at failed
    obtain ⟨result, next⟩ := found
    cases result with
    | error => cases failed
    | ok value =>
      dsimp only at failed
      rw [Step.bind_apply] at failed
      unfold learn at failed
      cases resolved : resolver value with
      | error =>
        rw [resolved] at failed
        cases failed
      | ok references => exact ⟨value, next, references, rfl, resolved⟩
  cases raises with
  | run failed =>
    obtain ⟨program, next, references, read, resolved⟩ := accepted failed
    exact ⟨_, _, _, .run read resolved⟩
  | evaluate failed =>
    obtain ⟨value, next, references, read, resolved⟩ := accepted failed
    exact ⟨_, _, _, .evaluate read resolved⟩

end Session

/-! ### Where errors are anchored -/

/-- The error belongs to a token that a text of the past uses in a role in which it fits the
fault. -/
def Past.Anchors (past : Past) (error : RuntimeError) : Prop :=
  ∃ site role, past.Holds site ∧ .token role error.token ∈ site.part.uses ∧
    (role.Fits error.token.kind → error.fault.Fits error.token)

/-- What stands at a part anchors the errors of a token in it. -/
theorem Machine.At.anchors {past : Past} {machine : Machine} {part : Part}
    (isAt : machine.At past part) {role : Role} {error : RuntimeError}
    (isUse : .token role error.token ∈ part.uses)
    (fits : role.Fits error.token.kind → error.fault.Fits error.token) : past.Anchors error := by
  obtain ⟨frames, walk, holds, -⟩ := isAt
  exact ⟨_, role, holds, isUse, fits⟩

/-- Except at the very beginning, a call comes out of an expression that ends with
its closing parenthesis. -/
theorem Reaches.call_expression {start : Moment} {fuel : Nat} {function : Value} {closing : Token}
    {values : List Value} {machine : Machine}
    (reaches : Reaches start ⟨fuel, .call function closing values, machine⟩) :
    start.errand = .call function closing values ∨ ∃ before fuel callee arguments,
      Reaches start ⟨fuel, .expression (.call callee arguments closing), before⟩ := by
  cases reaches with
  | refl => exact .inl rfl
  | tail toCall enters =>
    cases enters with
    | call => exact .inr ⟨_, _, _, _, toCall⟩

/-- The fault of a call that is checked fits its closing parenthesis. -/
theorem Run.checkCall_fits {closing : Token} {arity count : Nat} {machine later : Machine}
    {error : RuntimeError}
    (failed : Run.checkCall closing arity count machine = .failed error later) :
    error.token = closing ∧ (Role.closing.Fits closing.kind → error.fault.Fits closing) := by
  unfold Run.checkCall at failed
  split at failed
  · cases failed
    exact ⟨rfl, id⟩
  · split at failed <;> cases failed
    exact ⟨rfl, id⟩

/-- **Where a moment stands, the errors that it raises are anchored in the texts of the past.** -/
theorem Moment.Stands.anchors {past : Past} (proper : past.Proper) {start : Moment}
    (stands : start.Stands past) (reached : past.moments start)
    (notCall : ∀ function closing values, start.errand ≠ .call function closing values)
    {error : RuntimeError} (raises : start.Raises error) : past.Anchors error := by
  obtain ⟨last, reaches, faults⟩ := raises
  have lastStands := stands_of_reaches proper reaches reached stands
  -- the closing parenthesis of a call stands in the expression that the call comes out of
  have closes : ∀ {fuel : Nat} {function : Value} {closing : Token} {values : List Value}
      {machine : Machine}, Reaches start ⟨fuel, .call function closing values, machine⟩ →
      error.token = closing →
      (Role.closing.Fits closing.kind → error.fault.Fits closing) → past.Anchors error := by
    rintro fuel function _ values machine reaches rfl fits
    rcases reaches.call_expression with isStart | ⟨before, fuel, callee, arguments, toExpression⟩
    · exact absurd isStart (notCall _ _ _)
    · have isAt := (stands_of_reaches proper toExpression reached stands).errand
      exact Machine.At.anchors isAt (List.mem_append_right _ (List.mem_singleton_self _)) fits
  cases faults with
  | read =>
    exact Machine.At.anchors lastStands.errand (List.mem_singleton_self (Use.token .name _))
      fun fits => ⟨fits, rfl⟩
  | write =>
    exact Machine.At.anchors lastStands.errand.1 (List.mem_singleton_self (Use.token .name _))
      fun fits => ⟨fits, rfl⟩
  | unary raised =>
    exact Machine.At.anchors lastStands.errand List.mem_cons_self
      fun fits => applyUnary_fits fits raised
  | binary raised =>
    exact Machine.At.anchors lastStands.errand (List.mem_append_right _ List.mem_cons_self)
        fun fits =>
      applyBinary_fits fits raised
  | notCallable => exact closes reaches rfl id
  | checked failed =>
    obtain ⟨isClosing, fits⟩ := Run.checkCall_fits failed
    exact closes reaches isClosing fits
  | native => exact closes reaches rfl id
  | print => exact Machine.At.anchors lastStands.errand List.mem_cons_self id

/-- **Runtime errors are anchored where they belong.** Whatever a session has been asked before, if
a request raises a runtime error, then its text was accepted. The token of the error stands in the
tree of this text or of one that was accepted before, and it is of a kind that fits what went wrong.
No operator is found to be none, and no native function reports that something is wrong. -/
theorem errors_are_anchored {clock : Nat → Float} {past : Past} {session later : Session}
    {request : Request} {error : RuntimeError} (after : Session.After clock past session)
    (raises : session.Raises request error later) :
    ∃ root start next, session.Begins request root start next ∧
      (∃ text ∈ past.roots ++ [root], error.token ∈ text.part.tokens) ∧
      error.fault.Fits error.token ∧ error.fault ≠ .notUnaryOperator ∧
      error.fault ≠ .notBinaryOperator ∧ ∀ message, error.fault ≠ .native message := by
  obtain ⟨root, start, next, begins⟩ := raises.begins
  obtain ⟨proper, stands⟩ := after.upheld.begins begins
  have notCall : ∀ function closing values, start.errand ≠ .call function closing values := by
    intro function closing values
    cases begins <;> exact Errand.noConfusion
  obtain ⟨site, role, ⟨text, isText, within⟩, isUse, fits⟩ :=
    stands.anchors proper (.inr .refl) notCall (begins.raises raises)
  have apt : ∀ text ∈ past.roots ++ [root], text.part.Apt :=
    List.forall_mem_append.mpr ⟨after.apt, List.forall_mem_singleton.mpr begins.apt⟩
  have isUsed := within.uses_subset isUse
  have faultFits := fits (apt text isText role error.token isUsed)
  refine ⟨root, start, next, begins, ⟨text, isText, Part.mem_tokens isUsed⟩, faultFits, ?_, ?_,
    begins.ne_native after (begins.raises raises)⟩
  · intro same
    rw [same] at faultFits
    exact faultFits
  · intro same
    rw [same] at faultFits
    exact faultFits

/-- An error in a function that is called, at the operator in its body. -/
theorem error_at_operator_in_body :
    ∃ later, Session.run 12 "(fun() \x7b -nil; \x7d)();" (.start fun _ => 0) =
        .failed (.runtime ⟨⟨.symbol .minus, "-", 1⟩, .operandNotNumber⟩) later ∧
      ∃ root start next, Session.Begins (.start fun _ => 0)
        (.run 12 "(fun() \x7b -nil; \x7d)();") root start next ∧
        ⟨.symbol .minus, "-", 1⟩ ∈ root.part.tokens := by
  obtain ⟨later, failed⟩ : ∃ later,
      Session.run 12 "(fun() \x7b -nil; \x7d)();" (.start fun _ => 0) =
      .failed (.runtime ⟨⟨.symbol .minus, "-", 1⟩, .operandNotNumber⟩) later := ⟨_, rfl⟩
  obtain ⟨root, start, next, begins, ⟨text, isText, isToken⟩, -⟩ :=
    errors_are_anchored (@Session.After.start fun _ => 0) (.run failed)
  obtain rfl := List.mem_singleton.mp isText
  exact ⟨later, failed, text, start, next, begins, isToken⟩

end Lox
