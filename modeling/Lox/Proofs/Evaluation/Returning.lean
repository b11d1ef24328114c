/-
**Programs that are resolved do not return.**

* `Stmt.returns` — a `return` stands in a statement, outside of the functions in it. The
  walk finds a defect there (`Site.diagnostics_of_returns`), so that there is none in a
  program that is resolved.
* `EndsNormally` — where no `return` stands, nothing returns. The proof is by induction on the fuel.
* `interpret_append` — a program without a `return` and another one after it run one after the
  other.
-/

import Lox.Evaluation
import Lox.Proofs.Scoping.Relabelled

namespace Lox

/-! ### Returning from outside of functions -/

mutual

/-- A `return` stands in the statement, outside of the functions in it. -/
def Stmt.returns : Stmt → Bool
  | .block forms => returnsAmong forms
  | .if _ yes none => yes.returns
  | .if _ yes (some no) => yes.returns || no.returns
  | .while _ body => body.returns
  | .return _ _ => true
  | _ => false

/-- A `return` stands in one of the statements, outside of the functions in them. -/
def returnsAmong : List Stmt → Bool
  | [] => false
  | first :: rest => first.returns || returnsAmong rest

end

/-- The part is one from which there is a `return`. -/
def Part.returns : Part → Bool
  | .statement form => form.returns
  | .statements forms => returnsAmong forms
  | _ => false

/-- **The walk finds a defect where a `return` stands outside of every function.** -/
theorem Site.diagnostics_of_returns (site : Site) (returns : site.part.returns = true)
    (outside : site.walk.currentFunction = none) : site.after.diagnostics ≠ [] := by
  induction site using Site.induction with
  | step site ih =>
    -- a defect that is found in a part is still there after the whole
    have inner : ∀ child ∈ site.children, child.part.returns = true →
        child.walk.currentFunction = none →
        site.after.diagnostics ≠ [] := by
      intro child isChild returns outside clean
      have before := (before_of_child isChild).diagnostics
      rw [clean, List.prefix_nil] at before
      exact ih child isChild returns outside before
    obtain ⟨part, frames, walk⟩ := site
    cases part with
    | statement form =>
      cases form with
      | block forms =>
        exact inner ⟨.statements forms, .block forms :: frames, walk.openScope⟩
          (by simp [children, Stmt.sites]) returns outside
      | «if» condition yes no =>
        have decided : (condition.walk walk).currentFunction = none :=
          (currentFunction_after ⟨.expression condition, frames, walk⟩).trans outside
        cases no with
        | none =>
          exact inner ⟨.statement yes, frames, condition.walk walk⟩ (by simp [children, Stmt.sites])
            returns decided
        | some no =>
          rcases Bool.or_eq_true_iff.mp returns with inYes | inNo
          · exact inner ⟨.statement yes, frames, condition.walk walk⟩
              (by simp [children, Stmt.sites]) inYes decided
          · exact inner ⟨.statement no, frames, yes.walk (condition.walk walk)⟩
              (by simp [children, Stmt.sites]) inNo
              ((currentFunction_after ⟨.statement yes, frames, condition.walk walk⟩).trans decided)
      | «while» condition body =>
        exact inner ⟨.statement body, frames, condition.walk walk⟩
          (by simp [children, Stmt.sites]) returns
          ((currentFunction_after ⟨.expression condition, frames, walk⟩).trans outside)
      | «return» keyword value =>
        have checked : (walk.checkReturn keyword).diagnostics ≠ [] := by
          unfold Walk.checkReturn
          rw [if_pos outside]
          exact List.append_ne_nil_of_right_ne_nil _ (List.cons_ne_nil _ _)
        cases value with
        | none => exact checked
        | some value =>
          intro clean
          have before :=
            (walk_before ⟨.expression value, frames, walk.checkReturn keyword⟩).diagnostics
          rw [show Site.after ⟨.expression value, frames, walk.checkReturn keyword⟩ =
            Site.after ⟨.statement (.return keyword (some value)), frames, walk⟩ from rfl, clean,
            List.prefix_nil] at before
          exact checked before
      | _ => cases returns
    | statements forms =>
      cases forms with
      | nil => cases returns
      | cons first rest =>
        rcases Bool.or_eq_true_iff.mp returns with inFirst | inRest
        · exact inner ⟨.statement first, frames, walk⟩ (by simp [children]) inFirst outside
        · exact inner ⟨.statements rest, frames, first.walk walk⟩ (by simp [children]) inRest
            ((currentFunction_after ⟨.statement first, frames, walk⟩).trans outside)
    | _ => cases returns

/-- Nothing returns from a program that is resolved. -/
theorem returnsAmong_of_resolved (resolved : resolve first = .ok references) :
    returnsAmong first = false := by
  by_contra returns
  rw [Bool.not_eq_false] at returns
  have defects := Site.diagnostics_of_returns ⟨.statements first, [], .start⟩ returns rfl
  exact defects (Walk.result_eq_ok.mp resolved).1

/-! ### Ending normally -/

/-- Whenever the computation ends with a value, it is one of these. -/
def Run.Yields {α : Type} (values : α → Prop) (body : Run α) : Prop :=
  ∀ machine value later, body machine = .done value later → values value

namespace Run.Yields

variable {α β : Type} {values : α → Prop}

theorem pure {value : α} (isOne : values value) : Run.Yields values (pure value) := by
  intro machine result later done
  cases done
  exact isOne

theorem bind {first : Run β} {results : β → Prop} {next : β → Run α}
    (yields : Run.Yields results first)
    (rest : ∀ value, results value → Run.Yields values (next value)) :
    Run.Yields values (first >>= next) := by
  intro machine value later done
  rw [Step.bind_apply] at done
  cases ran : first machine with
  | done result between =>
    rw [ran] at done
    exact rest result (yields machine result between ran) between value later done
  | failed =>
    rw [ran] at done
    cases done
  | outOfFuel =>
    rw [ran] at done
    cases done

/-- Whatever comes first, what comes after it yields the value. -/
theorem after {first : Run β} {next : β → Run α} (rest : ∀ value, Run.Yields values (next value)) :
    Run.Yields values (first >>= next) :=
  bind (fun _ _ _ _ => trivial) fun value _ => rest value

theorem inScope {body : Run α} (scope : ScopeId) (yields : Run.Yields values body) :
    Run.Yields values (Run.inScope scope body) := by
  intro machine value later done
  unfold Run.inScope at done
  cases ran : body { machine with scope := scope } with
  | done result between =>
    simp only [ran] at done
    cases done
    exact yields _ value between ran
  | failed => simp only [ran, reduceCtorEq] at done
  | outOfFuel => simp only [ran, reduceCtorEq] at done

theorem ite {condition : Prop} [Decidable condition] {yes no : Run α}
    (yields : Run.Yields values yes) (otherwise : Run.Yields values no) :
    Run.Yields values (if condition then yes else no) := by
  split
  · exact yields
  · exact otherwise

end Run.Yields

/-- With this fuel, nothing returns where no `return` stands. -/
structure EndsNormally (fuel : Nat) : Prop where
  execute : ∀ form, form.returns = false → Run.Yields (· = .normal) (Lox.execute fuel form)
  executeAll : ∀ forms, returnsAmong forms = false →
    Run.Yields (· = .normal) (Lox.executeAll fuel forms)
  repeatWhile : ∀ condition body, body.returns = false →
    Run.Yields (· = .normal) (Lox.repeatWhile fuel condition body)

section

variable {fuel : Nat}

theorem endsNormally_statement (ih : EndsNormally fuel) (form : Stmt)
    (noReturn : form.returns = false) :
    Run.Yields (· = .normal) (execute (fuel + 1) form) := by
  rw [execute.eq_def]
  cases form with
  | expression value => exact .after fun _ => .pure rfl
  | print keyword value => exact .after fun _ => .after fun _ => .pure rfl
  | var name initializer => exact .after fun _ => .after fun _ => .pure rfl
  | block forms =>
    exact .after fun _ => .after fun scope => .inScope scope (ih.executeAll forms noReturn)
  | «if» condition yes no =>
    refine .after fun decision => ?_
    cases no with
    | none => exact .ite (ih.execute yes noReturn) (.pure rfl)
    | some no =>
      obtain ⟨inYes, inNo⟩ := Bool.or_eq_false_iff.mp noReturn
      exact .ite (ih.execute yes inYes) (ih.execute no inNo)
  | «while» condition body => exact ih.repeatWhile condition body noReturn
  | function name body => exact .after fun _ => .after fun _ => .pure rfl
  | «return» => cases noReturn

theorem endsNormally_statements (ih : EndsNormally fuel) (forms : List Stmt)
    (noReturn : returnsAmong forms = false) :
    Run.Yields (· = .normal) (executeAll (fuel + 1) forms) := by
  cases forms with
  | nil => exact .pure rfl
  | cons first rest =>
    obtain ⟨inFirst, inRest⟩ := Bool.or_eq_false_iff.mp noReturn
    refine .bind (ih.execute first inFirst) ?_
    rintro _ rfl
    exact ih.executeAll rest inRest

theorem endsNormally_loop (ih : EndsNormally fuel) (condition : Expr) (body : Stmt)
    (noReturn : body.returns = false) :
    Run.Yields (· = .normal) (repeatWhile (fuel + 1) condition body) := by
  refine .after fun decision => .ite ?_ (.pure rfl)
  refine .bind (ih.execute body noReturn) ?_
  rintro _ rfl
  exact ih.repeatWhile condition body noReturn

end

/-- **Nothing returns where no `return` stands.** -/
theorem endsNormally (fuel : Nat) : EndsNormally fuel := by
  induction fuel with
  | zero =>
    constructor
    all_goals
      intros
      intro machine value later done
      cases done
  | succ fuel ih => exact ⟨endsNormally_statement ih, endsNormally_statements ih,
      endsNormally_loop ih⟩

/-- **Two programs, of which the first has no `return`, run one after the other.** -/
theorem interpret_append (fuel : Nat) {first : List Stmt} (noReturn : returnsAmong first = false)
    (second : List Stmt) :
    interpret fuel (first ++ second) = (do interpret fuel first; interpret fuel second) := by
  induction first with
  | nil => rfl
  | cons form rest ih =>
    obtain ⟨inForm, inRest⟩ := Bool.or_eq_false_iff.mp noReturn
    funext machine
    rw [List.cons_append, interpret, interpret, Step.bind_apply, Step.bind_apply, Step.bind_apply]
    cases ran : execute fuel form machine with
    | done flow later =>
      obtain rfl := (endsNormally fuel).execute form inForm machine flow later ran
      exact congrFun (ih inRest) later
    | failed | outOfFuel => rfl

end Lox
