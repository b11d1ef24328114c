/-
**What a `for` loop does, told without the tree that it is read as.**

* `ForLoop` — the parts of a `for` loop. `ForLoop.lowered` — the tree that it is read as.
* `ForLoop.ReadFrom` — the tokens are a `for` statement with these parts. Every statement that
  starts with `for` is read as the tree of such a loop (`ForLoop.exists_of_derives`).
* `ForLoop.references` — the references of a loop that has one scope if it has an
  initializer, and no other.
* `ForLoop.run` — the loop as such: one scope for all of it, in which the initializer is
  run once; then rounds of the condition, the body and the increment, until the condition
  fails or the body returns.
* `ForLoop.runInBlocks` — the same with a scope around the body and the increment in each round.
  Given enough fuel, the tree does just this (`lowered_continued`, `continued_lowered`).
-/

import Lox.Proofs.Evaluation.Charting
import Lox.Proofs.Evaluation.Congruence
import Lox.Proofs.Grammar.Opening
import Lox.Proofs.Relabelling

namespace Lox

/-- A `for` loop. As in every program that is read, its body declares nothing right
in the scope it stands in. -/
structure ForLoop where
  initializer : Option Stmt
  condition : Option Expr
  increment : Option Expr
  body : Stmt
  declaresNothing : body.declared? = none

/-- Another token does not change whether a statement declares something. -/
theorem Stmt.declared?_relabel (change : Relabelling) (form : Stmt) :
    (form.relabel change).declared? = form.declared?.map change.token := by
  cases form with
  | var _ initializer => cases initializer <;> rfl
  | «if» _ _ no => cases no <;> rfl
  | «return» _ value => cases value <;> rfl
  | _ => rfl

/-- The second computation after the first one, unless that returns. -/
def Run.andThen (first second : Run Flow) : Run Flow := do
  match ← first with
  | .returned value => return .returned value
  | .normal => second

/-- A walk in the same scopes that has found nothing yet. -/
def Walk.anew (walk : Walk) : Walk :=
  { walk with references := [], diagnostics := [] }

namespace ForLoop

/-- The tree that the loop is read as. -/
def lowered (loop : ForLoop) : Stmt :=
  .forLoop loop.initializer loop.condition loop.increment loop.body

/-- The tokens are a `for` statement that says this loop: each part is what the tokens between the
keyword, the parentheses and the semicolons derive, with nodes from the index on. -/
inductive ReadFrom (nearest dangling : Bool) (index : Nat) (loop : ForLoop) : List Token → Prop
  | intro (keyword : Terminal (.keyword .for)) (opening : Terminal (.symbol .leftParen))
      (semicolon : Terminal (.symbol .semicolon)) (closing : Terminal (.symbol .rightParen))
      {is cs us ts : List Token} {initializer : Numbered (Option Stmt)}
      {condition increment : Numbered (Option Expr)} {body : Numbered Stmt} :
      Derives nearest .forInitializer is initializer → Derives nearest .optional cs condition →
      Derives nearest .optional us increment → Derives nearest (.statement dangling) ts body →
      ((do return (← initializer, ← condition, ← increment, ← body) :
        Numbered (Option Stmt × Option Expr × Option Expr × Stmt)) index).1 =
          (loop.initializer, loop.condition, loop.increment, loop.body) →
      ReadFrom nearest dangling index loop
        (keyword.1 :: opening.1 :: is ++ cs ++ semicolon.1 :: us ++ closing.1 :: ts)

/-- **Every statement that starts with `for` is read as the tree of the loop that its tokens
say.** -/
theorem exists_of_derives {nearest dangling : Bool} {first : Token} {rest : List Token}
    {tree : Numbered Stmt} (derives : Derives nearest (.statement dangling) (first :: rest) tree)
    (isFor : first.kind = .keyword .for) (index : Nat) :
    ∃ loop : ForLoop, loop.ReadFrom nearest dangling index (first :: rest) ∧
      loop.lowered = (tree index).1 := by
  generalize same : first :: rest = tokens at derives
  cases derives with
  | @forLoop keyword opening semicolon closing _ _ _ _ _ initializer condition
      increment body clause test step inner =>
    let start := initializer index
    let decision := condition start.2
    let advance := increment decision.2
    exact ⟨⟨start.1, decision.1, advance.1, (body advance.2).1, (inner.wellFormed advance.2).2⟩,
      .intro keyword opening semicolon closing clause test step inner rfl, rfl⟩
  | ofExpression derives =>
    -- no expression starts with this keyword
    obtain ⟨other, others, shape, opens, -⟩ := derives.starts
    obtain ⟨rfl, -⟩ := List.cons.inj (same.trans shape)
    rw [isFor] at opens
    cases opens
  | print keyword | returning keyword | block keyword | ifThen keyword
  | ifElse keyword | whileLoop keyword =>
    obtain ⟨rfl, -⟩ := List.cons.inj same
    cases keyword.2.symm.trans isFor

/-- The condition, the body and the increment. -/
def parts (loop : ForLoop) : List Stmt :=
  loop.condition.toList.map .expression ++ loop.body :: loop.increment.toList.map .expression

/-- Everything in the loop, in the order of the walk. -/
def text (loop : ForLoop) : List Stmt :=
  loop.initializer.toList ++ loop.parts

/-- What the walk knows when it comes to what is in the loop. Everything stands in the one scope of
the loop if there is an initializer, and otherwise in the scopes around the loop. -/
def entry (loop : ForLoop) (walk : Walk) : Walk :=
  match loop.initializer with
  | none => walk.anew
  | some _ => walk.openScope.anew

/-- The references in the loop, when the walk comes to it. -/
def references (loop : ForLoop) (walk : Walk) : List Reference :=
  (walkStatements loop.text (loop.entry walk)).references

/-- The loop with other nodes. -/
def relabel (change : NodeId → NodeId) (loop : ForLoop) : ForLoop where
  initializer := loop.initializer.map (Stmt.relabel ⟨change, id⟩)
  condition := loop.condition.map (Expr.relabel ⟨change, id⟩)
  increment := loop.increment.map (Expr.relabel ⟨change, id⟩)
  body := loop.body.relabel ⟨change, id⟩
  declaresNothing := by rw [Stmt.declared?_relabel, loop.declaresNothing, Option.map_none]

/-! ### Running a loop -/

/-- The value of the condition; without one it is true. -/
def decide (loop : ForLoop) (fuel : Nat) : Run Value :=
  match loop.condition with
  | none => pure (.boolean true)
  | some condition => evaluate fuel condition

/-- Evaluates the increment, if there is one. -/
def advance (loop : ForLoop) (fuel : Nat) : Run Flow :=
  match loop.increment with
  | none => pure .normal
  | some increment => do
    let _ ← evaluate fuel increment
    return .normal

/-- Rounds of the condition, the body and the increment, until the condition
fails or the body returns. -/
def rounds (loop : ForLoop) : (fuel : Nat) → Run Flow
  | 0 => Step.exhausted
  | fuel + 1 => do
    let decision ← loop.decide fuel
    if decision.truthy then
      (execute fuel loop.body).andThen ((loop.advance fuel).andThen (loop.rounds fuel))
    else
      return .normal

/-- The loop: with an initializer, one scope is opened for all of it, and the
initializer is run there once. -/
def run (loop : ForLoop) (fuel : Nat) : Run Flow :=
  match loop.initializer with
  | none => loop.rounds fuel
  | some initializer => Run.inNewScope ((execute fuel initializer).andThen (loop.rounds fuel))

/-- One round after the condition, with a scope of its own if there is an increment. -/
def roundInBlock (loop : ForLoop) (fuel : Nat) : Run Flow :=
  match loop.increment with
  | none => execute fuel loop.body
  | some _ => Run.inNewScope ((execute fuel loop.body).andThen (loop.advance fuel))

/-- Rounds, each of which may have a scope of its own. -/
def roundsInBlocks (loop : ForLoop) : (fuel : Nat) → Run Flow
  | 0 => Step.exhausted
  | fuel + 1 => do
    let decision ← loop.decide fuel
    if decision.truthy then (loop.roundInBlock fuel).andThen (loop.roundsInBlocks fuel)
      else return .normal

/-- The loop, where each round may have a scope of its own. -/
def runInBlocks (loop : ForLoop) (fuel : Nat) : Run Flow :=
  match loop.initializer with
  | none => loop.roundsInBlocks fuel
  | some initializer => Run.inNewScope ((execute fuel initializer).andThen
      (loop.roundsInBlocks fuel))

end ForLoop

/-! ### One after the other -/

namespace Run

theorem andThen_normal (first : Run Flow) : first.andThen (pure .normal) = first := by
  funext machine
  unfold andThen
  rw [Step.bind_apply]
  cases first machine with
  | done flow later => cases flow <;> rfl
  | failed | outOfFuel => rfl

theorem andThen_assoc (first second third : Run Flow) :
    (first.andThen second).andThen third = first.andThen (second.andThen third) := by
  funext machine
  unfold andThen
  rw [Step.bind_apply, Step.bind_apply, Step.bind_apply]
  cases first machine with
  | done flow later => cases flow <;> rfl
  | failed | outOfFuel => rfl

namespace Continued

variable {α : Type} {first first' second second' third : Run α}

theorem refl (first : Run α) : first.Continued first :=
  fun _ _ => rfl

theorem exhausted (longer : Run α) : Continued Step.exhausted longer :=
  fun _ ends => absurd rfl ends

theorem trans (before : first.Continued second) (after : second.Continued third) :
    first.Continued third := by
  intro machine ends
  have same := before machine ends
  rw [after machine (same ▸ ends), same]

theorem inNewScope (continued : first.Continued first') :
    (inNewScope first).Continued (inNewScope first') :=
  continued_congruence.bind (.refl _) fun _ => continued_congruence.bind (.refl _) fun scope =>
    continued_congruence.inScope scope continued

theorem andThen {first first' second second' : Run Flow} (continued : first.Continued first')
    (rest : second.Continued second') :
    (first.andThen second).Continued (first'.andThen second') := by
  refine continued_congruence.bind continued fun flow => ?_
  cases flow with
  | normal => exact rest
  | returned => exact .refl _

/-- With more fuel, a statement ends alike. -/
theorem execute {fuel other : Nat} (enough : fuel ≤ other) (form : Stmt) :
    (execute fuel form).Continued (Lox.execute other form) :=
  (evaluation_continued enough).execute form

end Continued

/-- Two statements in a list are one after the other. -/
theorem executeAll_continued (fuel : Nat) (first second : Stmt) :
    (executeAll fuel [first, second]).Continued
      ((execute fuel first).andThen (execute fuel second)) := by
  have last : ∀ fuel, (executeAll fuel [second]).Continued (execute (fuel + 1) second) := by
    intro fuel
    cases fuel with
    | zero => exact .exhausted _
    | succ fuel =>
      have nothing : (executeAll fuel []).Continued (pure .normal) := by
        cases fuel with
        | zero => exact .exhausted _
        | succ => exact .refl _
      have both := Continued.andThen (.execute (Nat.le_add_right fuel 2) second) nothing
      rwa [andThen_normal] at both
  cases fuel with
  | zero => exact .exhausted _
  | succ fuel => exact .andThen (.execute (Nat.le_succ fuel) first) (last fuel)

theorem continued_executeAll (fuel : Nat) (first second : Stmt) :
    ((execute fuel first).andThen (execute fuel second)).Continued
      (executeAll (fuel + 3) [first, second]) := by
  have last : (execute fuel second).Continued (executeAll (fuel + 2) [second]) := by
    have single : executeAll (fuel + 2) [second] = execute (fuel + 1) second := andThen_normal _
    rw [single]
    exact .execute (Nat.le_succ fuel) second
  exact .andThen (.execute (Nat.le_add_right fuel 2) first) last

end Run

/-! ### The tree of a loop -/

namespace ForLoop

variable (loop : ForLoop)

/-- The condition of the tree. -/
theorem condition_continued (fuel : Nat) :
    (evaluate fuel (loop.condition.getD (.literal .true))).Continued (loop.decide fuel) := by
  unfold decide
  cases loop.condition with
  | some condition => exact .refl _
  | none =>
    cases fuel with
    | zero => exact .exhausted _
    | succ => exact .refl _

theorem continued_condition (fuel : Nat) :
    (loop.decide fuel).Continued (evaluate (fuel + 1) (loop.condition.getD (.literal .true))) := by
  unfold decide
  cases loop.condition with
  | some condition => exact (evaluation_continued (Nat.le_succ fuel)).evaluate condition
  | none => exact .refl _

/-- What the tree does in each round. -/
theorem round_continued (fuel : Nat) :
    (execute fuel (.withIncrement loop.body loop.increment)).Continued
      (loop.roundInBlock fuel) := by
  unfold roundInBlock advance
  cases loop.increment with
  | none => exact .refl _
  | some increment =>
    have last : (execute fuel (.expression increment)).Continued
        (do let _ ← evaluate fuel increment; return .normal) := by
      cases fuel with
      | zero => exact .exhausted _
      | succ fuel =>
        exact Run.continued_congruence.bind
          ((evaluation_continued (Nat.le_succ fuel)).evaluate increment) fun _ => .refl _
    cases fuel with
    | zero => exact .exhausted _
    | succ fuel =>
      exact .inNewScope (.trans (Run.executeAll_continued fuel loop.body (.expression increment))
        (.andThen (.execute (Nat.le_succ fuel) loop.body)
          (.trans (.execute (Nat.le_succ fuel) _) last)))

theorem continued_round (fuel : Nat) :
    (loop.roundInBlock fuel).Continued
      (execute (fuel + 5) (.withIncrement loop.body loop.increment)) := by
  unfold roundInBlock advance
  cases loop.increment with
  | none => exact .execute (Nat.le_add_right fuel 5) loop.body
  | some increment =>
    exact .inNewScope (.trans (.andThen (.execute (Nat.le_succ fuel) loop.body) (.refl _))
      (Run.continued_executeAll (fuel + 1) loop.body (.expression increment)))

/-- The rounds, by induction on the fuel. -/
theorem rounds_continued (fuel : Nat) :
    (repeatWhile fuel (loop.condition.getD (.literal .true))
      (.withIncrement loop.body loop.increment)).Continued (loop.roundsInBlocks fuel) := by
  induction fuel with
  | zero => exact .exhausted _
  | succ fuel ih =>
    exact Run.continued_congruence.bind (loop.condition_continued fuel) fun decision =>
      Run.Congruence.ite (.andThen (loop.round_continued fuel) ih) (.refl _)

theorem continued_rounds (fuel : Nat) :
    (loop.roundsInBlocks fuel).Continued
      (repeatWhile (fuel + 5) (loop.condition.getD (.literal .true))
        (.withIncrement loop.body loop.increment)) := by
  induction fuel with
  | zero => exact .exhausted _
  | succ fuel ih =>
    have decided := (loop.continued_condition fuel).trans
      ((evaluation_continued (Nat.le_add_right (fuel + 1) 4)).evaluate _)
    exact Run.continued_congruence.bind decided fun decision =>
      Run.Congruence.ite (.andThen (loop.continued_round fuel) ih) (.refl _)

/-- The statement that the rounds are read as. -/
theorem while_continued (fuel : Nat) :
    (execute fuel (.while (loop.condition.getD (.literal .true))
      (.withIncrement loop.body loop.increment))).Continued (loop.roundsInBlocks fuel) := by
  cases fuel with
  | zero => exact .exhausted _
  | succ fuel =>
    exact .trans ((evaluation_continued (Nat.le_succ fuel)).repeatWhile _ _)
      (loop.rounds_continued _)

/-- **What the tree does, the loop with a scope in each round does.** -/
theorem lowered_continued (fuel : Nat) :
    (execute fuel loop.lowered).Continued (loop.runInBlocks fuel) := by
  unfold lowered Stmt.forLoop runInBlocks
  cases loop.initializer with
  | none => exact loop.while_continued fuel
  | some initializer =>
    cases fuel with
    | zero => exact .exhausted _
    | succ fuel =>
      exact .inNewScope (.trans (Run.executeAll_continued fuel initializer _)
        (.andThen (.execute (Nat.le_succ fuel) initializer)
          (.trans (.execute (Nat.le_succ fuel) _) (loop.while_continued (fuel + 1)))))

/-- **What the loop with a scope in each round does, the tree does,** with a little more fuel. -/
theorem continued_lowered (fuel : Nat) :
    (loop.runInBlocks fuel).Continued (execute (fuel + 10) loop.lowered) := by
  have again : (loop.roundsInBlocks fuel).Continued (execute (fuel + 6)
      (.while (loop.condition.getD (.literal .true)) (.withIncrement loop.body loop.increment))) :=
    loop.continued_rounds fuel
  unfold lowered Stmt.forLoop runInBlocks
  cases loop.initializer with
  | none => exact .trans again (.execute (Nat.le_add_right (fuel + 6) 4) _)
  | some initializer =>
    exact .inNewScope (.trans (.andThen (.execute (Nat.le_add_right fuel 6) initializer) again)
      (Run.continued_executeAll (fuel + 6) initializer _))

end ForLoop

end Lox
