/-
**Reading with later node identities reads the same.**

* `Relabelling.shift` — every node identity is used so much later; tokens stay.
* `Shifts shift change parse other` — where identities start so much later, `other` does what
  `parse` does: it ends in the same way, at the same token, with the same diagnostics. Its value is
  the changed one, and the next unused identity comes so much later.
* `shifts` — all productions shift, with any fuel. `readProgram_shift`, `readExpression_shift`: so
  does reading a source text, whether something is wrong with it or not.
-/

import Lox.Proofs.Relabelling
import Lox.Source

namespace Lox

/-- Every node identity is used so much later. -/
def Relabelling.shift (shift : Nat) : Relabelling :=
  ⟨fun node => ⟨node.index + shift⟩, id⟩

/-- The same place in a token list, where node identities are used so much later. -/
def Cursor.shift (shift : Nat) (cursor : Cursor) : Cursor :=
  { cursor with nextNode := cursor.nextNode + shift }

/-- The same way to end, where node identities are used so much later. -/
def Outcome.shift {α : Type} (shift : Nat) (change : α → α) :
    Outcome Cursor Diagnostic α → Outcome Cursor Diagnostic α
  | .done value cursor => .done (change value) (cursor.shift shift)
  | .failed diagnostic cursor => .failed diagnostic (cursor.shift shift)
  | .outOfFuel => .outOfFuel

/-- Where node identities start so much later, the other reading does the same. -/
def Shifts (shift : Nat) {α : Type} (change : α → α) (parse other : Parse α) : Prop :=
  ∀ cursor, other (cursor.shift shift) = (parse cursor).shift shift change

/-! ### Taking tokens -/

namespace Shifts

variable {shift : Nat} {α β : Type} {change : α → α}

theorem exhausted : Shifts shift change Step.exhausted Step.exhausted :=
  fun _ => rfl

theorem pure {value other : α} (changed : other = change value) :
    Shifts shift change (pure value) (pure other) := by
  subst changed
  exact fun _ => rfl

theorem bind {first second : Parse α} {next following : α → Parse β} {after : β → β}
    (shifts : Shifts shift change first second)
    (rest : ∀ value, Shifts shift after (next value) (following (change value))) :
    Shifts shift after (first >>= next) (second >>= following) := by
  intro cursor
  rw [Step.bind_apply, Step.bind_apply, shifts cursor]
  cases first cursor with
  | done value later => exact rest value later
  | failed | outOfFuel => rfl

theorem ite {condition : Prop} [Decidable condition] {yes no yes' no' : Parse α}
    (shifts : Shifts shift change yes yes') (otherwise : Shifts shift change no no') :
    Shifts shift change (if condition then yes else no) (if condition then yes' else no') := by
  split
  · exact shifts
  · exact otherwise

/-- What is looked at does not depend on the next identity. -/
theorem view {look : Cursor → α}
    (same : ∀ cursor : Cursor, look (cursor.shift shift) = look cursor) :
    Shifts shift id (Step.view look) (Step.view look) :=
  fun cursor => congrArg (Outcome.done · (cursor.shift shift)) (same cursor)

theorem peek : Shifts shift id Parse.peek Parse.peek :=
  view fun _ => rfl

theorem sees (test : Kind → Bool) : Shifts shift id (Parse.sees test) (Parse.sees test) :=
  view fun _ => rfl

theorem advance : Shifts shift id (Step.update Cursor.advance) (Step.update Cursor.advance) :=
  fun _ => rfl

theorem report (token : Token) (defect : Defect) :
    Shifts shift id (Parse.report token defect) (Parse.report token defect) :=
  fun _ => rfl

theorem missing (expected : Expected) :
    Shifts shift change (Parse.missing expected) (Parse.missing expected) :=
  fun _ => rfl

theorem takeIf (test : Kind → Bool) : Shifts shift id (Parse.takeIf test) (Parse.takeIf test) := by
  intro cursor
  unfold Parse.takeIf
  have same : (cursor.shift shift).sees test = cursor.sees test := rfl
  rw [same]
  by_cases sees : cursor.sees test = true
  · rw [if_pos sees, if_pos sees]
    rfl
  · rw [if_neg sees, if_neg sees]
    rfl

theorem takes (kind : Kind) : Shifts shift id (Parse.takes kind) (Parse.takes kind) :=
  bind (takeIf _) fun _ => pure rfl

theorem expect (kind : Kind) (expected : Expected) :
    Shifts shift id (Parse.expect kind expected) (Parse.expect kind expected) := by
  refine bind (takeIf _) fun found => ?_
  cases found with
  | none => exact missing expected
  | some token => exact pure rfl

theorem freshNode :
    Shifts shift (Relabelling.shift shift).node Parse.freshNode Parse.freshNode := by
  intro cursor
  have next : cursor.nextNode + shift + 1 = cursor.nextNode + 1 + shift := Nat.add_right_comm _ _ _
  exact congrArg (fun next => Outcome.done _ { cursor with nextNode := next }) next

theorem taken {value : Expr} {change : Expr → Expr} (changed : value = change value) :
    Shifts shift change (Parse.taken value) (Parse.taken value) :=
  bind advance fun _ => pure changed

theorem recover {parse other : Parse α} (shifts : Shifts shift change parse other) :
    Shifts shift (Option.map change) (Parse.recover parse) (Parse.recover other) := by
  intro cursor
  unfold Parse.recover
  rw [shifts cursor]
  cases parse cursor with
  | done | failed | outOfFuel => rfl

theorem parametersAfter (count fuel : Nat) :
    Shifts shift id (Parse.parametersAfter count fuel) (Parse.parametersAfter count fuel) := by
  induction fuel generalizing count with
  | zero => exact exhausted
  | succ fuel ih =>
    have rest : Shifts shift id (do
        let name ← Parse.expect .identifier .parameterName
        if ← Parse.takes (.symbol .comma) then
          return name :: (← Parse.parametersAfter (count + 1) fuel)
        let _ ← Parse.expect (.symbol .rightParen) .parametersEnd
        return [name]) (do
        let name ← Parse.expect .identifier .parameterName
        if ← Parse.takes (.symbol .comma) then
          return name :: (← Parse.parametersAfter (count + 1) fuel)
        let _ ← Parse.expect (.symbol .rightParen) .parametersEnd
        return [name]) := by
      refine bind (expect _ _) fun name => bind (takes _) fun more => ite ?_ ?_
      · exact bind (ih _) fun _ => pure rfl
      · exact bind (expect _ _) fun _ => pure rfl
    refine ite ?_ rest
    exact bind peek fun token => bind (report _ _) fun _ => rest

theorem parameters (fuel : Nat) :
    Shifts shift id (Parse.parameters fuel) (Parse.parameters fuel) := by
  refine bind (sees _) fun closed => ite ?_ (parametersAfter 0 fuel)
  exact bind (expect _ _) fun _ => pure rfl

end Shifts

/-! ### Productions -/

theorem Level.relabel_join (change : Relabelling) (level : Level) (left right : Expr)
    (operator : Token) :
    (level.join left operator right).relabel change =
      level.join (left.relabel change) (change.token operator) (right.relabel change) := by
  cases level <;> rfl

theorem relabelStatements_append (change : Relabelling) (first second : List Stmt) :
    relabelStatements change (first ++ second) =
      relabelStatements change first ++ relabelStatements change second := by
  induction first with
  | nil => rfl
  | cons form rest ih => exact congrArg (form.relabel change :: ·) ih

/-- Every production shifts by `shift` with this fuel. -/
structure AllShift (shift fuel : Nat) : Prop where
  expression : Shifts shift (Expr.relabel (.shift shift)) (Parse.expression fuel)
    (Parse.expression fuel)
  ternary : Shifts shift (Expr.relabel (.shift shift)) (Parse.ternary fuel) (Parse.ternary fuel)
  binary : ∀ level, Shifts shift (Expr.relabel (.shift shift)) (Parse.binary level fuel)
    (Parse.binary level fuel)
  operand : ∀ level,
    Shifts shift (Expr.relabel (.shift shift)) (Parse.operand level fuel) (Parse.operand level fuel)
  joined : ∀ level left, Shifts shift (Expr.relabel (.shift shift)) (Parse.joined level left fuel)
    (Parse.joined level (left.relabel (.shift shift)) fuel)
  unary : Shifts shift (Expr.relabel (.shift shift)) (Parse.unary fuel) (Parse.unary fuel)
  calls : ∀ callee, Shifts shift (Expr.relabel (.shift shift)) (Parse.calls callee fuel)
    (Parse.calls (callee.relabel (.shift shift)) fuel)
  arguments : Shifts shift (relabelArguments (.shift shift)) (Parse.arguments fuel)
    (Parse.arguments fuel)
  argumentsAfter : ∀ count, Shifts shift (relabelArguments (.shift shift))
    (Parse.argumentsAfter count fuel) (Parse.argumentsAfter count fuel)
  primary : Shifts shift (Expr.relabel (.shift shift)) (Parse.primary fuel) (Parse.primary fuel)
  functionBody : ∀ beforeParameters beforeBody, Shifts shift (FunctionBody.relabel (.shift shift))
    (Parse.functionBody beforeParameters beforeBody fuel)
      (Parse.functionBody beforeParameters beforeBody fuel)
  block : Shifts shift (relabelStatements (.shift shift)) (Parse.block fuel) (Parse.block fuel)
  declarations : ∀ stop, Shifts shift (relabelStatements (.shift shift))
    (Parse.declarations stop fuel) (Parse.declarations stop fuel)
  declaration : Shifts shift (Option.map (Stmt.relabel (.shift shift))) (Parse.declaration fuel)
    (Parse.declaration fuel)
  varDeclaration : Shifts shift (Stmt.relabel (.shift shift)) (Parse.varDeclaration fuel)
    (Parse.varDeclaration fuel)
  initializer : Shifts shift (Option.map (Expr.relabel (.shift shift))) (Parse.initializer fuel)
    (Parse.initializer fuel)
  statement : Shifts shift (Stmt.relabel (.shift shift)) (Parse.statement fuel)
    (Parse.statement fuel)
  expressionStatement : Shifts shift (Stmt.relabel (.shift shift)) (Parse.expressionStatement fuel)
    (Parse.expressionStatement fuel)
  unlessSeen : ∀ kind, Shifts shift (Option.map (Expr.relabel (.shift shift)))
    (Parse.unlessSeen kind fuel) (Parse.unlessSeen kind fuel)
  ifStatement : Shifts shift (Stmt.relabel (.shift shift)) (Parse.ifStatement fuel)
    (Parse.ifStatement fuel)
  forStatement : Shifts shift (Stmt.relabel (.shift shift)) (Parse.forStatement fuel)
    (Parse.forStatement fuel)
  forInitializer : Shifts shift (Option.map (Stmt.relabel (.shift shift)))
    (Parse.forInitializer fuel) (Parse.forInitializer fuel)

section

open Shifts

variable {shift fuel : Nat} (ih : AllShift shift fuel)

include ih

theorem shifts_expression :
    Shifts shift (Expr.relabel (.shift shift)) (Parse.expression (fuel + 1))
      (Parse.expression (fuel + 1)) := by
  refine bind ih.ternary fun target => bind (takeIf _) fun found => ?_
  cases found with
  | none => exact pure rfl
  | some equals =>
    refine bind ih.expression fun value => ?_
    cases target with
    | «variable» node name => exact bind freshNode fun _ => pure rfl
    | _ => exact bind (report _ _) fun _ => pure rfl

theorem shifts_ternary :
    Shifts shift (Expr.relabel (.shift shift)) (Parse.ternary (fuel + 1))
      (Parse.ternary (fuel + 1)) := by
  refine bind (ih.binary .or) fun condition => bind (takeIf _) fun found => ?_
  cases found with
  | none => exact pure rfl
  | some question =>
    refine bind ih.expression fun yes => bind (expect _ _) fun _ => ?_
    exact bind ih.ternary fun no => pure rfl

theorem shifts_operand (level : Level) : Shifts shift (Expr.relabel (.shift shift))
    (Parse.operand level (fuel + 1)) (Parse.operand level (fuel + 1)) := by
  unfold Parse.operand
  cases level.tighter? with
  | none => exact ih.unary
  | some tighter => exact ih.binary tighter

theorem shifts_joined (level : Level) (left : Expr) : Shifts shift (Expr.relabel (.shift shift))
    (Parse.joined level left (fuel + 1))
      (Parse.joined level (left.relabel (.shift shift)) (fuel + 1)) := by
  refine bind (takeIf _) fun found => ?_
  cases found with
  | none => exact pure rfl
  | some operator =>
    refine bind (ih.operand level) fun right => ?_
    have rest := ih.joined level (level.join left operator right)
    rw [Level.relabel_join] at rest
    exact rest

theorem shifts_unary :
    Shifts shift (Expr.relabel (.shift shift)) (Parse.unary (fuel + 1))
      (Parse.unary (fuel + 1)) := by
  refine bind (takeIf _) fun found => ?_
  cases found with
  | none => exact bind ih.primary fun callee => ih.calls callee
  | some operator => exact bind ih.unary fun _ => pure rfl

theorem shifts_calls (callee : Expr) : Shifts shift (Expr.relabel (.shift shift))
    (Parse.calls callee (fuel + 1)) (Parse.calls (callee.relabel (.shift shift)) (fuel + 1)) := by
  refine bind (takes _) fun called => ite ?_ (pure rfl)
  exact bind ih.arguments fun arguments => bind (expect _ _) fun closing =>
    ih.calls (.call callee arguments closing)

theorem shifts_arguments : Shifts shift (relabelArguments (.shift shift))
    (Parse.arguments (fuel + 1)) (Parse.arguments (fuel + 1)) :=
  bind (sees _) fun _ => ite (pure rfl) (ih.argumentsAfter 0)

theorem shifts_argumentsAfter (count : Nat) : Shifts shift (relabelArguments (.shift shift))
    (Parse.argumentsAfter count (fuel + 1)) (Parse.argumentsAfter count (fuel + 1)) := by
  have rest : Shifts shift (relabelArguments (.shift shift)) (do
      let argument ← Parse.expression fuel
      if ← Parse.takes (.symbol .comma) then
        return argument :: (← Parse.argumentsAfter (count + 1) fuel)
      return [argument]) (do
      let argument ← Parse.expression fuel
      if ← Parse.takes (.symbol .comma) then
        return argument :: (← Parse.argumentsAfter (count + 1) fuel)
      return [argument]) := by
    refine bind ih.expression fun argument => bind (takes _) fun more => ite ?_ (pure rfl)
    exact bind (ih.argumentsAfter _) fun _ => pure rfl
  refine ite ?_ rest
  exact bind peek fun token => bind (report _ _) fun _ => rest

theorem shifts_primary :
    Shifts shift (Expr.relabel (.shift shift)) (Parse.primary (fuel + 1))
      (Parse.primary (fuel + 1)) := by
  unfold Parse.primary
  refine bind peek fun token => ?_
  dsimp only [id]
  split
  case h_6 => exact bind advance fun _ => bind freshNode fun _ => pure rfl
  case h_7 =>
    exact bind advance fun _ => bind ih.expression fun _ => bind (expect _ _) fun _ => pure rfl
  case h_8 => exact bind advance fun _ => bind (ih.functionBody _ _) fun _ => pure rfl
  case h_9 => exact missing _
  all_goals exact taken rfl

theorem shifts_functionBody (beforeParameters beforeBody : Expected) :
    Shifts shift (FunctionBody.relabel (.shift shift))
      (Parse.functionBody beforeParameters beforeBody (fuel + 1))
      (Parse.functionBody beforeParameters beforeBody (fuel + 1)) := by
  refine bind (expect _ _) fun _ => bind (parameters fuel)
    fun names => bind (expect _ _) fun _ => ?_
  refine bind ih.block fun forms => pure ?_
  exact congrArg (FunctionBody.mk · _) (List.map_id names).symm

theorem shifts_block :
    Shifts shift (relabelStatements (.shift shift)) (Parse.block (fuel + 1))
      (Parse.block (fuel + 1)) :=
  bind (ih.declarations _) fun _ => bind (expect _ _) fun _ => pure rfl

theorem shifts_declarations (stop : Kind → Bool) : Shifts shift (relabelStatements (.shift shift))
    (Parse.declarations stop (fuel + 1)) (Parse.declarations stop (fuel + 1)) := by
  refine bind (view fun _ => rfl) fun _ => ite (pure rfl) ?_
  refine bind ih.declaration fun first => bind (ih.declarations stop) fun others => pure ?_
  rw [relabelStatements_append]
  cases first <;> rfl

theorem shifts_declaration : Shifts shift (Option.map (Stmt.relabel (.shift shift)))
    (Parse.declaration (fuel + 1)) (Parse.declaration (fuel + 1)) := by
  refine recover (bind (view fun _ => rfl) fun _ => ite ?_ (bind (takes _) fun _ => ite ?_ ?_))
  · exact bind advance fun _ => bind (expect _ _) fun _ => bind (ih.functionBody _ _)
      fun _ => pure rfl
  · exact ih.varDeclaration
  · exact ih.statement

theorem shifts_varDeclaration : Shifts shift (Stmt.relabel (.shift shift))
    (Parse.varDeclaration (fuel + 1)) (Parse.varDeclaration (fuel + 1)) :=
  bind (expect _ _) fun name => bind ih.initializer fun value => bind (expect _ _) fun _ =>
    pure (Stmt.relabel_var (.shift shift) name value).symm

theorem shifts_initializer : Shifts shift (Option.map (Expr.relabel (.shift shift)))
    (Parse.initializer (fuel + 1)) (Parse.initializer (fuel + 1)) :=
  bind (takes _) fun _ => ite (bind ih.expression fun _ => pure rfl) (pure rfl)

theorem shifts_statement :
    Shifts shift (Stmt.relabel (.shift shift)) (Parse.statement (fuel + 1))
      (Parse.statement (fuel + 1)) := by
  unfold Parse.statement
  refine bind peek fun token => ?_
  dsimp only [id]
  split
  · exact bind advance fun _ => ih.forStatement
  · exact bind advance fun _ => ih.ifStatement
  · refine bind advance fun _ => bind (expect _ _) fun _ => bind ih.expression fun _ => ?_
    exact bind (expect _ _) fun _ => bind ih.statement fun _ => pure rfl
  · refine bind advance fun _ => bind (ih.unlessSeen _) fun value => bind (expect _ _) fun _ => ?_
    exact pure (Stmt.relabel_return (.shift shift) token value).symm
  · exact bind advance fun _ => bind ih.block fun _ => pure rfl
  · exact bind advance fun _ => bind ih.expression fun _ => bind (expect _ _) fun _ => pure rfl
  · exact ih.expressionStatement

theorem shifts_ifStatement :
    Shifts shift (Stmt.relabel (.shift shift)) (Parse.ifStatement (fuel + 1))
      (Parse.ifStatement (fuel + 1)) := by
  refine bind (expect _ _) fun _ => bind ih.expression fun _ => bind (expect _ _) fun _ => ?_
  refine bind ih.statement fun _ => bind (takes _) fun _ => ite ?_ (pure rfl)
  exact bind ih.statement fun _ => pure rfl

theorem shifts_forStatement : Shifts shift (Stmt.relabel (.shift shift))
    (Parse.forStatement (fuel + 1)) (Parse.forStatement (fuel + 1)) := by
  refine bind (expect _ _) fun _ => bind ih.forInitializer
    fun _ => bind (ih.unlessSeen _) fun _ => ?_
  refine bind (expect _ _) fun _ => bind (ih.unlessSeen _) fun _ => bind (expect _ _) fun _ => ?_
  exact bind ih.statement fun _ => pure (Stmt.relabel_forLoop _ _ _ _ _).symm

theorem shifts_forInitializer : Shifts shift (Option.map (Stmt.relabel (.shift shift)))
    (Parse.forInitializer (fuel + 1)) (Parse.forInitializer (fuel + 1)) := by
  refine bind (takes _) fun _ => ite (pure rfl) (bind (takes _) fun _ => ite ?_ ?_)
  · exact bind ih.varDeclaration fun _ => pure rfl
  · exact bind ih.expressionStatement fun _ => pure rfl

end

/-- **All productions read the same with later node identities.** -/
theorem shifts (shift fuel : Nat) : AllShift shift fuel := by
  induction fuel with
  | zero =>
    constructor
    all_goals
      intros
      exact .exhausted
  | succ fuel ih =>
    exact {
      expression := shifts_expression ih
      ternary := shifts_ternary ih
      binary := fun level => .bind (ih.operand level) fun left => ih.joined level left
      operand := shifts_operand ih
      joined := shifts_joined ih
      unary := shifts_unary ih
      calls := shifts_calls ih
      arguments := shifts_arguments ih
      argumentsAfter := shifts_argumentsAfter ih
      primary := shifts_primary ih
      functionBody := shifts_functionBody ih
      block := shifts_block ih
      declarations := shifts_declarations ih
      declaration := shifts_declaration ih
      varDeclaration := shifts_varDeclaration ih
      initializer := shifts_initializer ih
      statement := shifts_statement ih
      expressionStatement := .bind ih.expression fun _ => .bind (.expect _ _) fun _ => .pure rfl
      unlessSeen := fun _ =>
        .bind (.sees _) fun _ => .ite (.pure rfl) (.bind ih.expression fun _ => .pure rfl)
      ifStatement := shifts_ifStatement ih
      forStatement := shifts_forStatement ih
      forInitializer := shifts_forInitializer ih }

/-! ### Source texts -/

/-- What was read, where node identities are used so much later. -/
def shiftRead {α : Type} (shift : Nat) (change : α → α) (read : Except (List Diagnostic) α × Nat) :
    Except (List Diagnostic) α × Nat :=
  (read.1.map change, read.2 + shift)

theorem Shifts.run {shift : Nat} {α : Type} {change : α → α} {parse : Nat → Parse α}
    (shifts : ∀ fuel, Shifts shift change (parse fuel) (parse fuel)) (tokens : List Token)
    (nextNode : Nat) :
    Parse.run parse tokens (nextNode + shift) =
      shiftRead shift change (Parse.run parse tokens nextNode) := by
  have same := shifts (Parse.fuelFor tokens) ⟨tokens, [], nextNode⟩
  unfold Parse.run
  rw [show Cursor.mk tokens [] (nextNode + shift) =
    Cursor.shift shift ⟨tokens, [], nextNode⟩ from rfl, same]
  cases parse (Parse.fuelFor tokens) ⟨tokens, [], nextNode⟩ with
  | done value cursor =>
    refine Prod.ext ?_ rfl
    dsimp only [Outcome.shift, shiftRead, Cursor.shift]
    split <;> rfl
  | failed | outOfFuel => rfl

theorem readWith_shift {shift : Nat} {α : Type} {change : α → α}
    {parse : List Token → Nat → Except (List Diagnostic) α × Nat}
    (shifts : ∀ tokens nextNode, parse tokens (nextNode + shift) =
      shiftRead shift change (parse tokens nextNode))
    (source : String) (nextNode : Nat) :
    readWith parse source (nextNode + shift) =
      shiftRead shift change (readWith parse source nextNode) := by
  unfold readWith
  dsimp only
  rw [shifts]
  refine Prod.ext ?_ rfl
  generalize parse (tokensOf (Utf8.encode source)) nextNode = found
  obtain ⟨result, next⟩ := found
  cases result with
  | error => rfl
  | ok value =>
    dsimp only [shiftRead, Except.map, withCharacters]
    split <;> rfl

/-- **A program is read the same with later node identities.** -/
theorem readProgram_shift (source : String) (nextNode shift : Nat) :
    readProgram source (nextNode + shift) =
      shiftRead shift (relabelStatements (.shift shift)) (readProgram source nextNode) :=
  readWith_shift (Shifts.run fun fuel => (shifts shift fuel).declarations _) source nextNode

/-- **An expression is read the same with later node identities.** -/
theorem readExpression_shift (source : String) (nextNode shift : Nat) :
    readExpression source (nextNode + shift) =
      shiftRead shift (Expr.relabel (.shift shift)) (readExpression source nextNode) := by
  refine readWith_shift (Shifts.run fun fuel => ?_) source nextNode
  exact .bind (shifts shift fuel).expression fun value =>
    .bind (.view fun _ => rfl) fun _ => .ite (.pure rfl) (.missing _)

end Lox
