/-
**Names of local variables carry no meaning.**

* `Session.Reached` — a session after any turns, with the values that those have given. It echoes
  itself (`Session.Reached.echoes`).
* `Session.runProgram` — runs a program that has been read.
* `Outcome.EndsAlike` — two runs print the same and end in the same way, but for the name of a
  variable in an error.
* `Renaming.of` — a declaration under another name, with the distances that were found for the
  program.
* `renamed_runs_alike` — a program where a local variable has another name is resolved, with the
  same distances, and run alike.
-/

import Lox.Proofs.Evaluation.Renamed
import Lox.Proofs.Session.Rejection

namespace Lox

/-! ### Sessions after turns -/

namespace Session

/-- A session after some turns, with the values that those have given. In between, what was printed
may have been taken away. -/
inductive Reached (clock : Nat → Float) : List Value → Session → Prop
  | start : Reached clock [] (.start clock)
  | done {earlier : List Value} {session later : Session} {value : Option Value} (turn : Turn) :
      Reached clock earlier session → turn.step earlier session = .done value later →
      Reached clock (earlier ++ value.toList) later
  | failed {earlier : List Value} {session later : Session} {failure : Failure} (turn : Turn) :
      Reached clock earlier session → turn.step earlier session = .failed failure later →
      Reached clock earlier later
  | withoutOutput {earlier : List Value} {session : Session} :
      Reached clock earlier session → Reached clock earlier session.withoutOutput

/-- **A session echoes itself after any turns.** -/
theorem Reached.echoes {clock : Nat → Float} {earlier : List Value} {session : Session}
    (reached : Reached clock earlier session) : session.Echoes earlier earlier session := by
  induction reached with
  | start => exact echoes_start clock
  | done turn _ stepped ih =>
    have alike := turn.echoes ih
    rw [stepped] at alike
    cases alike with
    | nothing after => exact (List.append_nil _).symm ▸ after
    | value after accords => exact ⟨_, after.give accords⟩
  | failed turn _ stepped ih =>
    have alike := turn.echoes ih
    rw [stepped] at alike
    cases alike with
    | failed after => exact after
  | withoutOutput _ ih =>
    obtain ⟨world, echoes⟩ := ih
    exact ⟨world, echoes.withoutOutput⟩

/-- Runs a program that has been read. -/
def runProgram (fuel : Nat) (program : List Stmt) : Step Session Failure Unit := do
  learn (resolve program)
  onMachine (interpret fuel program)

theorem runProgram_of_resolved {fuel : Nat} {program : List Stmt} {session : Session}
    {references : List Reference} (resolved : resolve program = .ok references) :
    runProgram fuel program session =
      onMachine (interpret fuel program)
        { session with machine := session.machine.learn references } := by
  unfold runProgram
  rw [Step.bind_apply]
  unfold Session.learn
  rw [resolved]

end Session

/-- The two runs print the same and end in the same way, but the error of the second
may name the variable anew. -/
inductive Outcome.EndsAlike (old new : String) :
    Outcome Session Failure Unit → Outcome Session Failure Unit → Prop
  | done {session other : Session} : other.machine.output = session.machine.output →
      EndsAlike old new (.done () session) (.done () other)
  | failed {error error' : RuntimeError} {session other : Session} :
      error.Renames old new error' → other.machine.output = session.machine.output →
      EndsAlike old new (.failed (.runtime error) session) (.failed (.runtime error') other)
  | outOfFuel : EndsAlike old new .outOfFuel .outOfFuel

/-- Machines that accord end alike, and so do their sessions. -/
theorem Run.Accords.endsAlike {accord : Accord} {world : World} {old new : String}
    {first second : Run Unit} (accords : Run.Accords accord world [] Accord.Same first second)
    (names : accord.error = RuntimeError.Renames old new) {machine other : Machine}
    (alike : machine.Accords accord world [] other) (next next' : Nat) :
    Outcome.EndsAlike old new (Session.onMachine first ⟨machine, next⟩)
      (Session.onMachine second ⟨other, next'⟩) := by
  have ran := accords world List.prefix_rfl _ _ alike
  unfold Session.onMachine
  dsimp only
  generalize first machine = outcome at ran
  generalize second other = outcome' at ran
  cases ran with
  | done _ _ later => exact .done later.output
  | failed _ error later => exact .failed (names ▸ error) later.output
  | outOfFuel => exact .outOfFuel

/-! ### The renaming of a program -/

/-- References that match have the same distances. -/
theorem Distances.ofReferences_matches {references others : List Reference}
    (same : List.Forall₂ Reference.Matches references others) :
    ofReferences others = ofReferences references := by
  unfold ofReferences
  induction same with
  | nil => rfl
  | cons first _ ih =>
    obtain ⟨node, -, distance⟩ := first
    rw [List.filterMap_cons, List.filterMap_cons, ih, node, distance]

/-- The declaration of a variable in a scope of a program, and another name for it. Which variables
belong to it is known by the references of the program. -/
def Renaming.of (references : List Reference) (scope : List Nat) (old new : String) : Renaming :=
  ⟨scope, old, new, (Distances.ofReferences references).get?⟩

section

variable {session : Session} {source : String} {program : List Stmt}
  {references : List Reference} {next : Nat} {scope : List Nat} {old new : String}

/-- A text that was read and resolved has been accepted. -/
theorem Session.accepts_of_read (read : readProgram source session.nextNode = (.ok program, next))
    (resolved : resolve program = .ok references) :
    session.Accepts (.outermost (.statements program)) next ∧
      (Site.outermost (.statements program)).after.references = references := by
  have begins : session.Begins (.run 0 source) _ _ next := .run read resolved
  obtain ⟨-, rfl⟩ := Walk.result_eq_ok.mp resolved
  exact ⟨begins.accepts.1, rfl⟩

/-- What two sessions know of nodes when both have learnt these references. -/
def Session.tablesAfter (session : Session) (references : List Reference) : Tables :=
  ⟨(session.machine.learn references).distances, (session.machine.learn references).distances,
    session.nextNode, session.nextNode⟩

namespace Session.Accepts

variable {root : Site}

/-- **A renaming suits an accepted text where the new name occurs nowhere.** -/
theorem suits (accepted : session.Accepts root next) (scope : List Nat) (old : String)
    (unused : ∀ token ∈ root.part.tokens, token.lexeme ≠ new) :
    (Renaming.of root.after.references scope old new).Suits root where
  wellFormed := accepted.wellFormed
  clean := accepted.clean
  unused := unused
  distance node access name frames walk within := by
    have nodup := accepted.fresh.nodup
    rw [← accepted.nodes] at nodup
    exact Distances.get?_ofReferences nodup within.reference

/-- For the nodes of the text, the machine knows what the renaming knows. -/
theorem knows (accepted : session.Accepts root next) (scope : List Nat) (old : String)
    (known : session.KnowsUsed) (unused : ∀ token ∈ root.part.tokens, token.lexeme ≠ new) :
    (Renaming.of root.after.references scope old new).Known root
      (session.tablesAfter root.after.references) := by
  have learnt (node : NodeId) (isNode : node ∈ root.part.nodes) :
      (session.machine.learn root.after.references).distances.get? node =
        (Distances.ofReferences root.after.references).get? node := by
    refine (Distances.get?_append _ _ node).trans ?_
    cases before : session.machine.distances.get? node with
    | none => exact Option.or_none
    | some distance =>
      exact absurd (known node distance before)
        (Nat.not_lt.mpr (accepted.fresh.bounds node isNode).1)
  exact ⟨accepted.suits scope old unused, learnt, learnt⟩

/-- Of the nodes before the text, the machine knows as much as before. -/
theorem grows (accepted : session.Accepts root next) :
    (session.tables session).Grows (session.tablesAfter root.after.references) := by
  have same (node : NodeId) (before : node.index < session.nextNode) :
      (session.machine.learn root.after.references).distances.get? node =
        session.machine.distances.get? node := by
    refine (Distances.get?_append _ _ node).trans ?_
    rw [Distances.get?_ofReferences_none, Option.none_or]
    rw [accepted.nodes]
    exact fun isNode => Nat.not_lt.mpr (accepted.fresh.bounds node isNode).1 before
  exact ⟨Nat.le_refl _, Nat.le_refl _, same, same⟩

end Session.Accepts

/-- **A program and the same program under a new name are run alike** by a
session that echoes itself. -/
theorem Session.Echoes.renamed {earlier : List Value}
    (echoes : session.Echoes earlier earlier session)
    (read : readProgram source session.nextNode = (.ok program, next))
    (resolved : resolve program = .ok references)
    (unused : ∀ token ∈ tokensOfStatements program, token.lexeme ≠ new) (fuel next' : Nat) :
    Outcome.EndsAlike old new
      (onMachine (interpret fuel program) ⟨session.machine.learn references, next⟩)
      (onMachine (interpret fuel (renameStatements (.of references scope old new) program .start))
        ⟨session.machine.learn references, next'⟩) := by
  obtain ⟨world, echoes⟩ := echoes
  obtain ⟨accepted, rfl⟩ := accepts_of_read read resolved
  have known := accepted.knows scope old echoes.known unused
  have accords : Machine.Accords (Renaming.accord known) world [] (session.machine.learn _)
      (session.machine.learn _) :=
        echoes.machine.relearn fun code => .inl (accepted.grows.code code)
  have code : (Renaming.accord known).code [] (.statements program)
      (.statements (renameStatements _ program .start)) :=
    .inr (.intro _ .start (.refl _) (fun isChosen => absurd isChosen Bool.false_ne_true) trivial)
  exact (interpretsAccordingly _ fuel code).endsAlike rfl accords next next'

end

/-- **Names of local variables carry no meaning.** Whatever a session was asked before: let a
program be read and resolved in which the new name occurs nowhere. Where a local variable or a
parameter has the new name, wherever it is declared, the program is resolved and each of its nodes
has the same distance; and it prints the same and ends in the same way, but for the name of the
variable in an error. -/
theorem renamed_runs_alike {clock : Nat → Float} {earlier : List Value} {session : Session}
    {source : String} {program : List Stmt} {next : Nat} {references : List Reference}
    (reached : Session.Reached clock earlier session)
    (read : readProgram source session.nextNode = (.ok program, next))
    (resolved : resolve program = .ok references) (scope : List Nat) (old new : String)
    (unused : ∀ token ∈ tokensOfStatements program, token.lexeme ≠ new) :
    ∃ others, resolve (renameStatements (.of references scope old new) program .start) =
      .ok others ∧
      List.Forall₂ Reference.Matches references others ∧
      (∀ fuel next', Outcome.EndsAlike old new (Session.run fuel source session)
        (Session.runProgram fuel (renameStatements (.of references scope old new) program .start)
          ⟨session.machine, next'⟩)) ∧
      ∀ fuel source' next', readProgram source' session.nextNode =
          (.ok (renameStatements (.of references scope old new) program .start), next') →
        Outcome.EndsAlike old new (Session.run fuel source session)
          (Session.run fuel source' session) := by
  have echoes := reached.echoes
  have suits : (Renaming.of references scope old new).Suits (.outermost (.statements program)) := by
    obtain ⟨accepted, rfl⟩ := Session.accepts_of_read read resolved
    exact accepted.suits scope old unused
  obtain ⟨others, resolved', same⟩ := resolve_rename suits resolved
  have learnt : session.machine.learn others = session.machine.learn references := by
    unfold Machine.learn
    rw [Distances.ofReferences_matches same]
  refine ⟨others, resolved', same, fun fuel next' => ?_, fun fuel source' next' read' => ?_⟩
  · rw [Session.run_of_read read resolved, Session.runProgram_of_resolved resolved', learnt]
    exact echoes.renamed read resolved unused fuel next'
  · rw [Session.run_of_read read resolved, Session.run_of_read read' resolved', learnt]
    exact echoes.renamed read resolved unused fuel next'

/-- The failure that a run ended with. -/
def Outcome.failure? {α : Type} : Outcome Session Failure α → Option Failure
  | .failed failure _ => some failure
  | _ => none

/-- A program in which a function is called in the initializer of the variable that it reads. -/
def callInInitializer (name : String) : List Stmt :=
  let body : FunctionBody := ⟨[], [.expression (.variable ⟨0⟩ ⟨.identifier, name, 1⟩)]⟩
  let call := .call (.lambda ⟨.keyword .fun, "fun", 1⟩ body) [] ⟨.symbol .rightParen, ")", 1⟩
  [.block [.var ⟨.identifier, name, 1⟩ (some call)]]

/-- The function does not find the variable, and the error names it as it is called. -/
theorem missed_under_new_name :
    (Session.run 20 "\x7b var a = fun () \x7b a; \x7d(); \x7d" (.start fun _ => 0)).failure? =
        some (.runtime ⟨⟨.identifier, "a", 1⟩, .undefinedVariable "a"⟩) ∧
      (Session.run 20 "\x7b var b = fun () \x7b b; \x7d(); \x7d" (.start fun _ => 0)).failure? =
        some (.runtime ⟨⟨.identifier, "b", 1⟩, .undefinedVariable "b"⟩) ∧
      (Session.run 20 "\x7b var a = fun () \x7b a; \x7d(); \x7d" (.start fun _ => 0)).EndsAlike
        "a" "b"
        (Session.run 20 "\x7b var b = fun () \x7b b; \x7d(); \x7d" (.start fun _ => 0)) := by
  have read : readProgram "\x7b var a = fun () \x7b a; \x7d(); \x7d" 0 =
    (.ok (callInInitializer "a"), 1) := rfl
  have read' : readProgram "\x7b var b = fun () \x7b b; \x7d(); \x7d" 0 =
    (.ok (callInInitializer "b"), 1) := rfl
  have resolved : resolve (callInInitializer "a") =
    .ok [⟨⟨0⟩, .read, ⟨.identifier, "a", 1⟩, some 1⟩] := rfl
  have reached : Session.Reached (fun _ => 0) [] (.start fun _ => 0) := .start
  obtain ⟨_, -, -, -, texts⟩ := renamed_runs_alike reached read resolved [0] "a" "b" (by decide)
  exact ⟨by decide +kernel, by decide +kernel, texts 20 _ 1 read'⟩

end Lox
