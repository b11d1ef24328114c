/-
**Reading never takes a node identity back.**

* `Outcome.state?` — the state that an outcome leaves, be it a value or an error that it ends with.
* `Advances parse` — however `parse` ends, the next unused node identity is not a lesser one than
  before.
* `advances` — all productions advance, with any fuel. `readProgram_le` and `readExpression_le`: so
  does reading a source text, whether something is wrong with it or not.
-/

import Lox.Source

namespace Lox

/-- The state that is left at the end. -/
def Outcome.state? {σ ε α : Type} : Outcome σ ε α → Option σ
  | .done _ state => some state
  | .failed _ state => some state
  | .outOfFuel => none

/-- However the reading ends, the next unused node identity is not a lesser one. -/
def Advances {α : Type} (parse : Parse α) : Prop :=
  ∀ cursor later, (parse cursor).state? = some later → cursor.nextNode ≤ later.nextNode

/-! ### Taking tokens -/

namespace Advances

variable {α β : Type}

/-- What leaves the next identity as it is. -/
theorem of_same {parse : Parse α}
    (same : ∀ cursor later, (parse cursor).state? = some later → later.nextNode = cursor.nextNode) :
    Advances parse :=
  fun cursor later ended => Nat.le_of_eq (same cursor later ended).symm

theorem exhausted : Advances (Step.exhausted : Parse α) :=
  fun _ _ => nofun

theorem pure (value : α) : Advances (pure value : Parse α) := by
  refine of_same fun cursor later ended => ?_
  cases ended
  rfl

theorem bind {first : Parse α} {next : α → Parse β} (advances : Advances first)
    (rest : ∀ value, Advances (next value)) : Advances (first >>= next) := by
  intro cursor later ended
  rw [Step.bind_apply] at ended
  have before := advances cursor
  cases ran : first cursor with
  | done value between =>
    rw [ran] at ended before
    exact Nat.le_trans (before between rfl) (rest value between later ended)
  | failed error between =>
    rw [ran] at ended before
    cases ended
    exact before _ rfl
  | outOfFuel =>
    rw [ran] at ended
    cases ended

theorem view (look : Cursor → α) : Advances (Step.view look : Parse α) := by
  refine of_same fun cursor later ended => ?_
  cases ended
  rfl

theorem advance : Advances (Step.update Cursor.advance) := by
  refine of_same fun cursor later ended => ?_
  cases ended
  rfl

theorem report (token : Token) (defect : Defect) : Advances (Parse.report token defect) := by
  refine of_same fun cursor later ended => ?_
  cases ended
  rfl

theorem missing (expected : Expected) : Advances (Parse.missing expected : Parse α) := by
  refine of_same fun cursor later ended => ?_
  cases ended
  rfl

theorem takeIf (test : Kind → Bool) : Advances (Parse.takeIf test) := by
  refine of_same fun cursor later ended => ?_
  unfold Parse.takeIf at ended
  by_cases sees : cursor.sees test = true
  · rw [if_pos sees] at ended
    cases ended
    rfl
  · rw [if_neg sees] at ended
    cases ended
    rfl

theorem takes (kind : Kind) : Advances (Parse.takes kind) :=
  bind (takeIf _) fun _ => pure _

theorem expect (kind : Kind) (expected : Expected) : Advances (Parse.expect kind expected) := by
  refine bind (takeIf _) fun found => ?_
  cases found with
  | none => exact missing expected
  | some token => exact pure token

theorem freshNode : Advances Parse.freshNode := by
  intro cursor later ended
  cases ended
  exact Nat.le_succ cursor.nextNode

theorem taken (value : Expr) : Advances (Parse.taken value) :=
  bind advance fun _ => pure value

theorem recover {parse : Parse α} (advances : Advances parse) : Advances (Parse.recover parse) := by
  intro cursor later ended
  unfold Parse.recover at ended
  have before := advances cursor
  cases ran : parse cursor with
  | done value between =>
    rw [ran] at ended before
    cases ended
    exact before _ rfl
  | failed diagnostic between =>
    rw [ran] at ended before
    cases ended
    exact before between rfl
  | outOfFuel =>
    rw [ran] at ended
    cases ended

theorem ite {condition : Prop} [Decidable condition] {yes no : Parse α} (advances : Advances yes)
    (otherwise : Advances no) : Advances (if condition then yes else no) := by
  split
  · exact advances
  · exact otherwise

theorem parametersAfter (count fuel : Nat) : Advances (Parse.parametersAfter count fuel) := by
  induction fuel generalizing count with
  | zero => exact exhausted
  | succ fuel ih =>
    have rest : Advances (do
        let name ← Parse.expect .identifier .parameterName
        if ← Parse.takes (.symbol .comma) then
          return name :: (← Parse.parametersAfter (count + 1) fuel)
        let _ ← Parse.expect (.symbol .rightParen) .parametersEnd
        return [name]) := by
      refine bind (expect _ _) fun name => bind (takes _) fun more => ite ?_ ?_
      · exact bind (ih _) fun _ => pure _
      · exact bind (expect _ _) fun _ => pure _
    refine ite ?_ rest
    exact bind (view _) fun token => bind (report _ _) fun _ => rest

theorem parameters (fuel : Nat) : Advances (Parse.parameters fuel) := by
  refine bind (view _) fun closed => ite ?_ (parametersAfter 0 fuel)
  exact bind (expect _ _) fun _ => pure _

end Advances

/-! ### Productions -/

/-- All productions advance with this fuel. -/
structure AllAdvance (fuel : Nat) : Prop where
  expression : Advances (Parse.expression fuel)
  ternary : Advances (Parse.ternary fuel)
  binary : ∀ level, Advances (Parse.binary level fuel)
  operand : ∀ level, Advances (Parse.operand level fuel)
  joined : ∀ level left, Advances (Parse.joined level left fuel)
  unary : Advances (Parse.unary fuel)
  calls : ∀ callee, Advances (Parse.calls callee fuel)
  arguments : Advances (Parse.arguments fuel)
  argumentsAfter : ∀ count, Advances (Parse.argumentsAfter count fuel)
  primary : Advances (Parse.primary fuel)
  functionBody : ∀ beforeParameters beforeBody,
    Advances (Parse.functionBody beforeParameters beforeBody fuel)
  block : Advances (Parse.block fuel)
  declarations : ∀ stop, Advances (Parse.declarations stop fuel)
  declaration : Advances (Parse.declaration fuel)
  varDeclaration : Advances (Parse.varDeclaration fuel)
  initializer : Advances (Parse.initializer fuel)
  statement : Advances (Parse.statement fuel)
  expressionStatement : Advances (Parse.expressionStatement fuel)
  unlessSeen : ∀ kind, Advances (Parse.unlessSeen kind fuel)
  ifStatement : Advances (Parse.ifStatement fuel)
  forStatement : Advances (Parse.forStatement fuel)
  forInitializer : Advances (Parse.forInitializer fuel)

section

open Advances

variable {fuel : Nat} (ih : AllAdvance fuel)

include ih

theorem advances_expression : Advances (Parse.expression (fuel + 1)) := by
  refine bind ih.ternary fun target => bind (takeIf _) fun found => ?_
  cases found with
  | none => exact pure target
  | some equals =>
    refine bind ih.expression fun value => ?_
    cases target with
    | «variable» node name => exact bind freshNode fun _ => pure _
    | _ => exact bind (report _ _) fun _ => pure _

theorem advances_ternary : Advances (Parse.ternary (fuel + 1)) := by
  refine bind (ih.binary .or) fun condition => bind (takeIf _) fun found => ?_
  cases found with
  | none => exact pure condition
  | some question =>
    refine bind ih.expression fun yes => bind (expect _ _) fun _ => ?_
    exact bind ih.ternary fun no => pure _

theorem advances_operand (level : Level) : Advances (Parse.operand level (fuel + 1)) := by
  unfold Parse.operand
  cases level.tighter? with
  | none => exact ih.unary
  | some tighter => exact ih.binary tighter

theorem advances_joined (level : Level) (left : Expr) :
    Advances (Parse.joined level left (fuel + 1)) := by
  refine bind (takeIf _) fun found => ?_
  cases found with
  | none => exact pure left
  | some operator => exact bind (ih.operand level) fun right => ih.joined level _

theorem advances_unary : Advances (Parse.unary (fuel + 1)) := by
  refine bind (takeIf _) fun found => ?_
  cases found with
  | none => exact bind ih.primary fun callee => ih.calls callee
  | some operator => exact bind ih.unary fun _ => pure _

theorem advances_calls (callee : Expr) : Advances (Parse.calls callee (fuel + 1)) := by
  refine bind (takes _) fun called => ite ?_ (pure callee)
  exact bind ih.arguments fun arguments => bind (expect _ _) fun closing => ih.calls _

theorem advances_arguments : Advances (Parse.arguments (fuel + 1)) :=
  bind (view _) fun _ => ite (pure []) (ih.argumentsAfter 0)

theorem advances_argumentsAfter (count : Nat) :
    Advances (Parse.argumentsAfter count (fuel + 1)) := by
  have rest : Advances (do
      let argument ← Parse.expression fuel
      if ← Parse.takes (.symbol .comma) then
        return argument :: (← Parse.argumentsAfter (count + 1) fuel)
      return [argument]) := by
    refine bind ih.expression fun argument => bind (takes _) fun more => ite ?_ (pure _)
    exact bind (ih.argumentsAfter _) fun _ => pure _
  refine ite ?_ rest
  exact bind (view _) fun token => bind (report _ _) fun _ => rest

theorem advances_primary : Advances (Parse.primary (fuel + 1)) := by
  unfold Parse.primary
  refine bind (view _) fun token => ?_
  split
  case h_6 => exact bind advance fun _ => bind freshNode fun _ => pure _
  case h_7 =>
    exact bind advance fun _ => bind ih.expression fun _ => bind (expect _ _) fun _ => pure _
  case h_8 => exact bind advance fun _ => bind (ih.functionBody _ _) fun _ => pure _
  case h_9 => exact missing _
  all_goals exact taken _

theorem advances_functionBody (beforeParameters beforeBody : Expected) :
    Advances (Parse.functionBody beforeParameters beforeBody (fuel + 1)) := by
  refine bind (expect _ _) fun _ => bind (parameters fuel)
    fun names => bind (expect _ _) fun _ => ?_
  exact bind ih.block fun _ => pure _

theorem advances_block : Advances (Parse.block (fuel + 1)) :=
  bind (ih.declarations _) fun _ => bind (expect _ _) fun _ => pure _

theorem advances_declarations (stop : Kind → Bool) :
    Advances (Parse.declarations stop (fuel + 1)) := by
  refine bind (view _) fun _ => ite (pure []) ?_
  exact bind ih.declaration fun _ => bind (ih.declarations stop) fun _ => pure _

theorem advances_declaration : Advances (Parse.declaration (fuel + 1)) := by
  refine recover (bind (view _)
    fun _ => ite ?_ (bind (takes _) fun _ => ite ih.varDeclaration ih.statement))
  exact bind advance fun _ => bind (expect _ _) fun _ => bind (ih.functionBody _ _) fun _ => pure _

theorem advances_varDeclaration : Advances (Parse.varDeclaration (fuel + 1)) :=
  bind (expect _ _) fun _ => bind ih.initializer fun _ => bind (expect _ _) fun _ => pure _

theorem advances_initializer : Advances (Parse.initializer (fuel + 1)) :=
  bind (takes _) fun _ => ite (bind ih.expression fun _ => pure _) (pure none)

theorem advances_statement : Advances (Parse.statement (fuel + 1)) := by
  unfold Parse.statement
  refine bind (view _) fun token => ?_
  split
  · exact bind advance fun _ => ih.forStatement
  · exact bind advance fun _ => ih.ifStatement
  · refine bind advance fun _ => bind (expect _ _) fun _ => bind ih.expression fun _ => ?_
    exact bind (expect _ _) fun _ => bind ih.statement fun _ => pure _
  · exact bind advance fun _ => bind (ih.unlessSeen _) fun _ => bind (expect _ _) fun _ => pure _
  · exact bind advance fun _ => bind ih.block fun _ => pure _
  · exact bind advance fun _ => bind ih.expression fun _ => bind (expect _ _) fun _ => pure _
  · exact ih.expressionStatement

theorem advances_ifStatement : Advances (Parse.ifStatement (fuel + 1)) := by
  refine bind (expect _ _) fun _ => bind ih.expression fun _ => bind (expect _ _) fun _ => ?_
  refine bind ih.statement fun _ => bind (takes _) fun _ => ite ?_ (pure _)
  exact bind ih.statement fun _ => pure _

theorem advances_forStatement : Advances (Parse.forStatement (fuel + 1)) := by
  refine bind (expect _ _) fun _ => bind ih.forInitializer
    fun _ => bind (ih.unlessSeen _) fun _ => ?_
  refine bind (expect _ _) fun _ => bind (ih.unlessSeen _) fun _ => bind (expect _ _) fun _ => ?_
  exact bind ih.statement fun _ => pure _

theorem advances_forInitializer : Advances (Parse.forInitializer (fuel + 1)) := by
  refine bind (takes _) fun _ => ite (pure none) (bind (takes _) fun _ => ite ?_ ?_)
  · exact bind ih.varDeclaration fun _ => pure _
  · exact bind ih.expressionStatement fun _ => pure _

end

/-- **Reading never takes a node identity back.** -/
theorem advances (fuel : Nat) : AllAdvance fuel := by
  induction fuel with
  | zero =>
    constructor
    all_goals
      intros
      exact .exhausted
  | succ fuel ih =>
    exact {
      expression := advances_expression ih
      ternary := advances_ternary ih
      binary := fun level => .bind (ih.operand level) fun left => ih.joined level left
      operand := advances_operand ih
      joined := advances_joined ih
      unary := advances_unary ih
      calls := advances_calls ih
      arguments := advances_arguments ih
      argumentsAfter := advances_argumentsAfter ih
      primary := advances_primary ih
      functionBody := advances_functionBody ih
      block := advances_block ih
      declarations := advances_declarations ih
      declaration := advances_declaration ih
      varDeclaration := advances_varDeclaration ih
      initializer := advances_initializer ih
      statement := advances_statement ih
      expressionStatement := .bind ih.expression fun _ => .bind (.expect _ _) fun _ => .pure _
      unlessSeen := fun _ => .bind (.view _)
        fun _ => .ite (.pure none) (.bind ih.expression fun _ => .pure _)
      ifStatement := advances_ifStatement ih
      forStatement := advances_forStatement ih
      forInitializer := advances_forInitializer ih }

/-! ### Source texts -/

/-- Whatever is found in a token list, identities go on. -/
theorem Advances.run {α : Type} {parse : Nat → Parse α} (advances : ∀ fuel, Advances (parse fuel))
    (tokens : List Token) (nextNode : Nat) : nextNode ≤ (Parse.run parse tokens nextNode).2 := by
  have before := advances (Parse.fuelFor tokens) ⟨tokens, [], nextNode⟩
  unfold Parse.run
  cases ran : parse (Parse.fuelFor tokens) ⟨tokens, [], nextNode⟩ with
  | done value cursor =>
    rw [ran] at before
    exact before cursor rfl
  | failed diagnostic cursor =>
    rw [ran] at before
    exact before cursor rfl
  | outOfFuel => exact Nat.le_refl nextNode

theorem readProgram_le (source : String) (nextNode : Nat) :
    nextNode ≤ (readProgram source nextNode).2 :=
  Advances.run (fun fuel => (advances fuel).declarations _) _ nextNode

theorem readExpression_le (source : String) (nextNode : Nat) :
    nextNode ≤ (readExpression source nextNode).2 := by
  refine Advances.run (fun fuel => ?_) _ nextNode
  exact .bind (advances fuel).expression fun value => .bind (.view _)
    fun _ => .ite (.pure value) (.missing _)

end Lox
