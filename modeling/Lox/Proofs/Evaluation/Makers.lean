/-
**Each function is made only once.**

* `Machine.CountsUp` — the next function identity never goes down. It is a frame, so that it holds
  along a whole run (`Reaches.countsUp`).
* `Outcome.EndsWithin outcome around` — if the one outcome leaves a machine, so does
  the other, and no later.
* `Enters.eq_or_precedes` — of two moments that come right out of the same one, the one has ended
  before the other begins.
* `Path start path last` — the moments that are entered, one out of the other, on the way from one
  moment to another.
* `Path.eq_of_identity` — only one path leads to a moment where a function with a given identity is
  made.
-/

import Lox.Proofs.Evaluation.Framing
import Lox.Proofs.Evaluation.Mirrors
import Lox.Proofs.Evaluation.Unwinding

namespace Lox

/-! ### Counting up -/

/-- The next function identity of a later machine is none of those that were used before. -/
def Machine.CountsUp (machine later : Machine) : Prop :=
  machine.nextFunction ≤ later.nextFunction

instance : Machine.Frame Machine.CountsUp where
  refl _ := Nat.le_refl _
  trans _ _ _ := Nat.le_trans
  store _ _ := Nat.le_refl _
  line _ _ := Nat.le_refl _
  ticks _ _ := Nat.le_refl _
  nextFunction _ := Nat.le_succ _
  scope _ _ _ counts := counts
  depth _ _ counts := counts

/-- **Identities are counted up along the whole run.** -/
theorem Reaches.countsUp {start moment : Moment} (reaches : Reaches start moment) :
    start.machine.CountsUp moment.machine :=
  reaches.framed Machine.CountsUp (fun _ => Nat.le_refl _) fun _ _ _ => Nat.le_refl _

/-- With this fuel, all that evaluation sets about counts up. -/
theorem counting (fuel : Nat) : Framed Machine.CountsUp fuel :=
  framed Machine.CountsUp fuel

/-! ### Outcomes within other outcomes -/

/-- If the other outcome leaves a machine, so does this one, and identities are counted up from
there. -/
def Outcome.EndsWithin {α β : Type} (outcome : Outcome Machine RuntimeError α)
    (around : Outcome Machine RuntimeError β) : Prop :=
  ∀ later, around.state? = some later → ∃ between, outcome.state? = some between ∧
    between.CountsUp later

namespace Outcome.EndsWithin

variable {α β γ : Type} {outcome : Outcome Machine RuntimeError α}

theorem refl (outcome : Outcome Machine RuntimeError α) : outcome.EndsWithin outcome :=
  fun later left => ⟨later, left, Nat.le_refl _⟩

theorem trans {around : Outcome Machine RuntimeError β} {outside : Outcome Machine RuntimeError γ}
    (inner : outcome.EndsWithin around) (outer : around.EndsWithin outside) :
    outcome.EndsWithin outside := by
  intro later left
  obtain ⟨last, leftAround, fromAround⟩ := outer later left
  obtain ⟨between, leftInside, fromInside⟩ := inner last leftAround
  exact ⟨between, leftInside, Nat.le_trans fromInside fromAround⟩

/-- What is made of the values does not matter. -/
theorem map_iff {around : Outcome Machine RuntimeError β} {δ : Type} {change : α → γ}
    {other : β → δ} :
    (outcome.map change).EndsWithin (around.map other) ↔ outcome.EndsWithin around := by
  unfold EndsWithin
  rw [state?_map, state?_map]

/-- A sequence goes on after its first part. -/
theorem bind {first : Run α} {next : α → Run β} {machine : Machine}
    (rest : ∀ value, Step.Stays Machine.CountsUp (next value)) :
    (first machine).EndsWithin ((first >>= next) machine) := by
  intro later left
  rw [Step.bind_apply] at left
  cases ran : first machine with
  | done value between =>
    rw [ran] at left
    exact ⟨between, rfl, rest value between later left⟩
  | failed error between =>
    rw [ran] at left
    cases left
    exact ⟨later, rfl, Nat.le_refl _⟩
  | outOfFuel =>
    rw [ran] at left
    cases left

/-- Coming back does not count. -/
theorem onState {change : Machine → Machine}
    (same : ∀ machine, (change machine).nextFunction = machine.nextFunction) :
    outcome.EndsWithin (outcome.onState change) := by
  intro later left
  rw [state?_onState] at left
  obtain ⟨last, isLast, rfl⟩ := Option.map_eq_some_iff.mp left
  exact ⟨last, isLast, Nat.le_of_eq (same last).symm⟩

/-- A call comes back with the value of the body. -/
theorem ofBody {outcome : Outcome Machine RuntimeError Flow} :
    outcome.EndsWithin outcome.ofBody := by
  intro later left
  cases outcome with
  | done | failed => exact ⟨later, left, Nat.le_refl _⟩
  | outOfFuel => cases left

end Outcome.EndsWithin

/-- **A moment ends before the one that enters it does.** -/
theorem Enters.endsWithin {outer inner : Moment} (enters : Enters outer inner) :
    inner.outcome.EndsWithin outer.outcome := by
  have counting := Lox.counting
  cases enters with
  | grouping | whileLoop | optional =>
    simp only [Moment.outcome, evaluate, execute, evaluateOr, Outcome.EndsWithin.map_iff]
    exact .refl _
  -- the whole is a sequence, and this is its first part
  | unary => exact Outcome.EndsWithin.map_iff.mpr (.bind fun _ => .orRaise _ _)
  | binaryLeft =>
    exact Outcome.EndsWithin.map_iff.mpr
      (.bind fun _ => .bind ((counting _).evaluate _) fun _ => .orRaise _ _)
  | logicalLeft =>
    refine Outcome.EndsWithin.map_iff.mpr (.bind fun _ => .ite (.pure _) ?_)
    exact .bind ((counting _).evaluate _) fun _ => .pure _
  | ternaryCondition =>
    exact Outcome.EndsWithin.map_iff.mpr
      (.bind fun _ => .ite ((counting _).evaluate _) ((counting _).evaluate _))
  | assigned =>
    exact Outcome.EndsWithin.map_iff.mpr
      (.bind fun _ => .bind (.assignVariable _ _ _) fun _ => .pure _)
  | callee =>
    refine Outcome.EndsWithin.map_iff.mpr
      (.bind fun _ => .bind ((counting _).evaluateAll _) fun _ => ?_)
    exact (counting _).callValue _ _ _
  | firstArgument =>
    exact Outcome.EndsWithin.map_iff.mpr
      (.bind fun _ => .bind ((counting _).evaluateAll _) fun _ => .pure _)
  | expressionStatement | returning => exact Outcome.EndsWithin.map_iff.mpr (.bind fun _ => .pure _)
  | print => exact Outcome.EndsWithin.map_iff.mpr (.bind fun _ => .bind (.print _ _)
      fun _ => .pure _)
  | «variable» => exact Outcome.EndsWithin.map_iff.mpr (.bind fun _ => .bind (.declare _ _)
      fun _ => .pure _)
  | @ifCondition _ _ _ no =>
    refine Outcome.EndsWithin.map_iff.mpr (.bind fun _ => .ite ((counting _).execute _) ?_)
    cases no with
    | none => exact .pure _
    | some no => exact (counting _).execute no
  | firstStatement =>
    refine Outcome.EndsWithin.map_iff.mpr (.bind fun flow => ?_)
    cases flow with
    | normal => exact (counting _).executeAll _
    | returned value => exact .pure _
  | loopCondition =>
    refine Outcome.EndsWithin.map_iff.mpr (.bind fun _ => .ite ?_ (.pure _))
    refine .bind ((counting _).execute _) fun flow => ?_
    cases flow with
    | normal => exact (counting _).repeatWhile _ _
    | returned value => exact .pure _
  | programStatement =>
    refine Outcome.EndsWithin.map_iff.mpr (.bind fun flow => ?_)
    cases flow with
    | normal => exact framed_interpret _ _
    | returned value => exact .pure _
  -- what was evaluated before has ended with a value, so that the sequence comes down to the rest
  -- of it
  | binaryRight ran =>
    simp only [Moment.outcome, evaluate, Step.bind_apply, ran, Outcome.EndsWithin.map_iff]
    exact .bind fun _ => .orRaise _ _
  | logicalRight ran decides =>
    simp only [Moment.outcome, evaluate, Step.bind_apply, ran, decides, Outcome.EndsWithin.map_iff]
    exact .bind fun _ => .pure _
  | assignment ran =>
    simp only [Moment.outcome, evaluate, Step.bind_apply, ran, Outcome.EndsWithin.map_iff]
    exact .bind fun _ => .pure _
  | arguments ran =>
    simp only [Moment.outcome, evaluate, Step.bind_apply, ran, Outcome.EndsWithin.map_iff]
    exact .bind fun _ => (counting _).callValue _ _ _
  | otherArguments ran =>
    simp only [Moment.outcome, evaluateAll, Step.bind_apply, ran, Outcome.EndsWithin.map_iff]
    exact .bind fun _ => .pure _
  | loopBody ran decides =>
    simp only [Moment.outcome, repeatWhile, Step.bind_apply, ran, decides,
      Outcome.EndsWithin.map_iff]
    refine .bind fun flow => ?_
    cases flow with
    | normal => exact (counting _).repeatWhile _ _
    | returned value => exact .pure _
  | ternaryYes ran decides | ternaryNo ran decides | ifYes ran decides | ifNo ran decides =>
    simp only [Moment.outcome, evaluate, execute, Step.bind_apply, ran,
      decides, Outcome.EndsWithin.map_iff]
    exact .refl _
  | call ran ranAll =>
    simp only [Moment.outcome, evaluate, Step.bind_apply, ran, ranAll, Outcome.EndsWithin.map_iff]
    exact .refl _
  | otherStatements ran | restOfProgram ran =>
    simp only [Moment.outcome, executeAll, interpret, Step.bind_apply,
      ran, Outcome.EndsWithin.map_iff]
    exact .refl _
  | loopAgain ran decides ranBody =>
    simp only [Moment.outcome, repeatWhile, Step.bind_apply, ran, decides, ↓reduceIte, ranBody,
      Outcome.EndsWithin.map_iff]
    exact .refl _
  | block =>
    simp only [Moment.outcome, execute_block, Outcome.EndsWithin.map_iff]
    exact .onState fun _ => rfl
  | body checked =>
    simp only [Moment.outcome, callValue_function, checked, Outcome.EndsWithin.map_iff]
    refine .trans ?_ .ofBody
    exact .onState fun _ => rfl

/-- Whatever a moment reaches ends before it does. -/
theorem Reaches.endsWithin {start moment : Moment} (reaches : Reaches start moment) :
    moment.outcome.EndsWithin start.outcome := by
  induction reaches with
  | refl => exact .refl _
  | tail _ enters ih => exact enters.endsWithin.trans ih

/-! ### One moment after the other -/

/-- The moment has ended when the other one begins, and identities are counted up
from the one to the other. -/
def Moment.Precedes (moment other : Moment) : Prop :=
  ∃ later, moment.outcome.state? = some later ∧ later.CountsUp other.machine

namespace Moment.Precedes

variable {fuel : Nat} {machine between : Machine} {other : Moment}

theorem of_evaluate {value : Expr} {result : Value}
    (done : evaluate fuel value machine = .done result between)
    (counts : between.CountsUp other.machine) : Precedes ⟨fuel, .expression value, machine⟩ other :=
  ⟨between, by rw [Moment.outcome, done]; rfl, counts⟩

theorem of_evaluateAll {values : List Expr} {results : List Value}
    (done : evaluateAll fuel values machine = .done results between)
    (counts : between.CountsUp other.machine) :
    Precedes ⟨fuel, .arguments values, machine⟩ other :=
  ⟨between, by rw [Moment.outcome, done]; rfl, counts⟩

theorem of_execute {form : Stmt} {flow : Flow}
    (done : execute fuel form machine = .done flow between)
    (counts : between.CountsUp other.machine) : Precedes ⟨fuel, .statement form, machine⟩ other :=
  ⟨between, by rw [Moment.outcome, done]; rfl, counts⟩

end Moment.Precedes

/-- **Moments that come right out of the same one come one after the other.** -/
theorem Enters.eq_or_precedes {outer one other : Moment} (enters : Enters outer one)
    (entersOther : Enters outer other) : one = other ∨ one.Precedes other ∨ other.Precedes one := by
  have here : ∀ machine : Machine, machine.CountsUp machine :=
    fun machine => Nat.le_refl machine.nextFunction
  cases enters with
  -- nothing else comes out of such a moment
  | grouping | unary | expressionStatement | print | «variable» | block
  | whileLoop | returning | optional | body =>
    cases entersOther
    exact .inl rfl
  -- nothing comes before this
  | binaryLeft | logicalLeft | assigned | firstArgument =>
    cases entersOther
    · exact .inl rfl
    · exact .inr (.inl (.of_evaluate ‹_› (here _)))
  | firstStatement | programStatement =>
    cases entersOther
    · exact .inl rfl
    · exact .inr (.inl (.of_execute ‹_› (here _)))
  | ternaryCondition | ifCondition =>
    cases entersOther
    · exact .inl rfl
    all_goals exact .inr (.inl (.of_evaluate ‹_› (here _)))
  | callee =>
    cases entersOther with
    | callee => exact .inl rfl
    | arguments ran => exact .inr (.inl (.of_evaluate ran (here _)))
    | call ran ranAll =>
      exact .inr (.inl (.of_evaluate ran (((counting _).evaluateAll _).of_done ranAll)))
  | loopCondition =>
    cases entersOther with
    | loopCondition => exact .inl rfl
    | loopBody ran => exact .inr (.inl (.of_evaluate ran (here _)))
    | loopAgain ran _ ranBody =>
      exact .inr (.inl (.of_evaluate ran (((counting _).execute _).of_done ranBody)))
  -- what comes before this has ended in the one way that it can end
  | binaryRight ran | assignment ran | otherArguments ran =>
    cases entersOther
    · exact .inr (.inr (.of_evaluate ran (here _)))
    next again =>
      cases ran.symm.trans again
      exact .inl rfl
  | logicalRight ran =>
    cases entersOther with
    | logicalLeft => exact .inr (.inr (.of_evaluate ran (here _)))
    | logicalRight again =>
      cases ran.symm.trans again
      exact .inl rfl
  | otherStatements ran | restOfProgram ran =>
    cases entersOther
    · exact .inr (.inr (.of_execute ran (here _)))
    next again =>
      cases ran.symm.trans again
      exact .inl rfl
  | ternaryYes ran truthy | ifYes ran truthy =>
    cases entersOther
    · exact .inr (.inr (.of_evaluate ran (here _)))
    next again =>
      cases ran.symm.trans again
      exact .inl rfl
    next falsy again =>
      cases ran.symm.trans again
      cases truthy.symm.trans falsy
  | ternaryNo ran falsy | ifNo ran falsy =>
    cases entersOther
    · exact .inr (.inr (.of_evaluate ran (here _)))
    next truthy again =>
      cases ran.symm.trans again
      cases truthy.symm.trans falsy
    next again =>
      cases ran.symm.trans again
      exact .inl rfl
  | arguments ran =>
    cases entersOther with
    | callee => exact .inr (.inr (.of_evaluate ran (here _)))
    | arguments again =>
      cases ran.symm.trans again
      exact .inl rfl
    | call again ranAll =>
      cases ran.symm.trans again
      exact .inr (.inl (.of_evaluateAll ranAll (here _)))
  | call ran ranAll =>
    cases entersOther with
    | callee => exact .inr (.inr (.of_evaluate ran (((counting _).evaluateAll _).of_done ranAll)))
    | arguments again =>
      cases ran.symm.trans again
      exact .inr (.inr (.of_evaluateAll ranAll (here _)))
    | call again allAgain =>
      cases ran.symm.trans again
      cases ranAll.symm.trans allAgain
      exact .inl rfl
  | loopBody ran =>
    cases entersOther with
    | loopCondition => exact .inr (.inr (.of_evaluate ran (here _)))
    | loopBody again =>
      cases ran.symm.trans again
      exact .inl rfl
    | loopAgain again _ ranBody =>
      cases ran.symm.trans again
      exact .inr (.inl (.of_execute ranBody (here _)))
  | loopAgain ran _ ranBody =>
    cases entersOther with
    | loopCondition =>
      exact .inr (.inr (.of_evaluate ran (((counting _).execute _).of_done ranBody)))
    | loopBody again =>
      cases ran.symm.trans again
      exact .inr (.inr (.of_execute ranBody (here _)))
    | loopAgain again _ bodyAgain =>
      cases ran.symm.trans again
      cases ranBody.symm.trans bodyAgain
      exact .inl rfl

/-! ### Where functions are made -/

/-- The identity of a function is the next one of the machine that it is made in. -/
theorem Makes.identity_eq {maker : Moment} {closure : Closure} (makes : Makes maker closure) :
    closure.identity = maker.machine.nextFunction := by
  cases makes <;> rfl

/-- The function that is made at a moment. -/
theorem Makes.eq {maker : Moment} {closure other : Closure} (makes : Makes maker closure)
    (makesOther : Makes maker other) : closure = other := by
  cases makes <;> cases makesOther <;> rfl

/-- Nothing comes out of a moment where a function is made. -/
theorem Makes.not_enters {maker inner : Moment} {closure : Closure} (makes : Makes maker closure) :
    ¬ Enters maker inner := by
  intro enters
  cases makes <;> cases enters

/-- The identity of a function that is made is used up. -/
theorem Makes.lt_of_ended {maker : Moment} {closure : Closure} {later : Machine}
    (makes : Makes maker closure) (ended : maker.outcome.state? = some later) :
    closure.identity < later.nextFunction := by
  cases makes with
  | lambda | declaration =>
    cases ended
    exact Nat.lt_succ_self _

/-- A function that is made on the way has an identity that is not used after the end. -/
theorem Makes.lt_of_reaches {start maker : Moment} {closure : Closure} {later : Machine}
    (makes : Makes maker closure) (reaches : Reaches start maker)
    (ended : start.outcome.state? = some later) :
    closure.identity < later.nextFunction := by
  obtain ⟨between, left, counts⟩ := reaches.endsWithin later ended
  exact Nat.lt_of_lt_of_le (makes.lt_of_ended left) counts

/-- The moments on the way from one moment to another, each of which comes right out of the one
before. -/
inductive Path : Moment → List Moment → Moment → Prop
  | here {moment : Moment} : Path moment [] moment
  | enter {moment inner last : Moment} {rest : List Moment} :
      Enters moment inner → Path inner rest last → Path moment (inner :: rest) last

namespace Path

variable {start last : Moment} {path : List Moment}

theorem reaches (toLast : Path start path last) : Reaches start last := by
  induction toLast with
  | here => exact .refl
  | enter enters _ ih => exact .head enters ih

theorem exists_of_reaches (reaches : Reaches start last) : ∃ path, Path start path last := by
  induction reaches using Relation.ReflTransGen.head_induction_on with
  | refl => exact ⟨[], .here⟩
  | head enters _ ih =>
    obtain ⟨path, toLast⟩ := ih
    exact ⟨_ :: path, .enter enters toLast⟩

theorem last_eq {other : Moment} (toLast : Path start path last) (toOther : Path start path other) :
    last = other := by
  induction toLast with
  | here =>
    cases toOther
    rfl
  | enter _ _ ih =>
    cases toOther with
    | enter _ rest => exact ih rest

/-- **Only one path leads to a moment where a function with a given identity is made.** -/
theorem eq_of_identity {maker other : Moment} {otherPath : List Moment} {first second : Closure}
    (toMaker : Path start path maker) (toOther : Path start otherPath other)
    (makes : Makes maker first) (makesOther : Makes other second)
    (same : first.identity = second.identity) : path = otherPath := by
  -- a function that is made in a moment that precedes another one has an identity that was used up
  -- before the other
  have apart : ∀ {one two maker other : Moment} {first second : Closure}, one.Precedes two →
      Reaches one maker →
      Reaches two other → Makes maker first → Makes other second →
      first.identity < second.identity := by
    rintro one two maker other first second ⟨later, ended, counts⟩ toMaker toOther makes makesOther
    rw [makesOther.identity_eq]
    exact Nat.lt_of_lt_of_le (makes.lt_of_reaches toMaker ended)
      (Nat.le_trans counts toOther.countsUp)
  induction toMaker generalizing otherPath with
  | here =>
    cases toOther with
    | here => rfl
    | enter enters => exact absurd enters makes.not_enters
  | @enter moment inner last rest enters toMaker ih =>
    cases toOther with
    | here => exact absurd enters makesOther.not_enters
    | enter entersOther toOther =>
      rcases enters.eq_or_precedes entersOther with rfl | precedes | precedes
      · rw [ih toOther makes]
      · exact absurd same (Nat.ne_of_lt
          (apart precedes toMaker.reaches toOther.reaches makes makesOther))
      · exact absurd same.symm (Nat.ne_of_lt
          (apart precedes toOther.reaches toMaker.reaches makesOther makes))

end Path

/-- **A function that comes out of a moment is made at one moment only.** -/
theorem Makes.eq_of_identity {start maker other : Moment} {first second : Closure}
    (makes : Makes maker first) (makesOther : Makes other second) (toMaker : Reaches start maker)
    (toOther : Reaches start other) (same : first.identity = second.identity) : maker = other := by
  obtain ⟨path, onPath⟩ := Path.exists_of_reaches toMaker
  obtain ⟨otherPath, onOtherPath⟩ := Path.exists_of_reaches toOther
  obtain rfl := onPath.eq_of_identity onOtherPath makes makesOther same
  exact onPath.last_eq onOtherPath

end Lox
