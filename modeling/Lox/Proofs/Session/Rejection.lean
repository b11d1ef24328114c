/-
**Source texts that are rejected leave no trace.**

* `Turn` — what a session is asked to do: to run or to evaluate a source text, to set or to look at
  a global variable, or to open or close its output. A variable may be set to a value that an
  earlier turn gave.
* `Answer` — what is seen of a turn: what it printed, and how it ended. Of a value, all but the node
  identities in its function is seen, also its text and to which earlier values it is equal.
* `Session.transcript` — all turns with their answers. A turn that does not end is the last one.
* `Thinned` — some turns are left out that were answered by a static failure.
* `Session.Echoes` — two sessions that answer in the same way from now on. Both have read the same
  texts, one of them perhaps more, which were rejected. `Turn.echoes`: one turn keeps this so.
* `rejected_leave_no_trace` — without the rejected turns, all others are answered in the same way.
-/

import Lox.Proofs.Evaluation.Renumbered
import Lox.Proofs.Scoping.Relabelled
import Lox.Proofs.Session.History

namespace Lox

/-! ### Turns and answers -/

/-- A value to set a variable to. -/
inductive Given where
  /-- No function that a program made. -/
  | plain (value : Value) (notFunction : ∀ closure, value ≠ .function closure)
  /-- A value that was given earlier, counted from the first; nil if there are not so many. -/
  | earlier (index : Nat)

/-- The value itself, after the values that were given earlier. -/
def Given.value (earlier : List Value) : Given → Value
  | .plain value _ => value
  | .earlier index => earlier.getD index .nil

/-- What a session is asked to do. -/
inductive Turn where
  | run (fuel : Nat) (source : String)
  | evaluate (fuel : Nat) (source : String)
  | define (name : String) (given : Given)
  | look (name : Token)
  | setSink (sink : Sink)

/-- What a session does when it is asked. Some turns give a value. -/
def Turn.step (earlier : List Value) : Turn → Step Session Failure (Option Value)
  | .run fuel source => do
    Session.run fuel source
    return none
  | .evaluate fuel source => do return some (← Session.evaluate fuel source)
  | .define name given => fun session => .done none (session.defineGlobal name
      (given.value earlier))
  | .look name => fun session =>
    match session.global? name with
    | .ok value => .done (some value) session
    | .error error => .failed (.runtime error) session
  | .setSink sink => fun session => .done none (session.setSink sink)

/-- What is seen of a value. -/
structure Sight where
  /-- The value, with all node identities in its function forgotten. -/
  value : Value
  text : String
  /-- To which of the earlier values it is equal. -/
  equal : List Bool

/-- What is seen of a value after earlier ones. -/
def Value.sight (earlier : List Value) (value : Value) : Sight :=
  ⟨value.bare, value.text, earlier.map value.equals⟩

/-- How a turn ended. -/
inductive Ending where
  | done (value : Option Sight)
  | failed (failure : Failure)
  | unfinished

/-- What is seen of a turn. -/
structure Answer where
  printed : String
  ending : Ending

/-- The turns and their answers. If a turn does not end, no other comes after it. -/
def Session.transcript : List Turn → Session → (earlier : List Value) → List (Turn × Answer)
  | [], _, _ => []
  | turn :: rest, session, earlier =>
    match turn.step earlier session.withoutOutput with
    | .done value later =>
      (turn, ⟨later.machine.output, .done (value.map (Value.sight earlier))⟩) ::
        transcript rest later (earlier ++ value.toList)
    | .failed failure later =>
      (turn, ⟨later.machine.output, .failed failure⟩) :: transcript rest later earlier
    | .outOfFuel => [(turn, ⟨"", .unfinished⟩)]

/-- Some turns are left out that were answered by a static failure. -/
inductive Thinned : List (Turn × Answer) → List (Turn × Answer) → Prop
  | nil : Thinned [] []
  | keep (entry : Turn × Answer) {full left : List (Turn × Answer)} :
      Thinned full left → Thinned (entry :: full) (entry :: left)
  | reject (turn : Turn) (printed : String) (diagnostics : List Diagnostic)
      {full left : List (Turn × Answer)} :
      Thinned full left → Thinned ((turn, ⟨printed, .failed (.static diagnostics)⟩) :: full) left

/-! ### Distances of what was read -/

namespace Distances

variable {references : List Reference} {shift : Nat}

/-- The distances of references are known for their nodes, wherever those are numbered from. -/
theorem get?_ofReferences_shift (references : List Reference) (shift : Nat) (node : NodeId) :
    get? (ofReferences (references.map (Reference.relabel (.shift shift)))) ⟨node.index + shift⟩ =
      get? (ofReferences references) node := by
  induction references with
  | nil => rfl
  | cons reference rest ih =>
    have same : (⟨node.index + shift⟩ : NodeId) = (reference.relabel (.shift shift)).node ↔
        node = reference.node := by
      constructor
      · intro equal
        have indices : node.index + shift = reference.node.index + shift :=
          congrArg NodeId.index equal
        exact congrArg NodeId.mk (Nat.add_right_cancel indices)
      · rintro rfl
        rfl
    rw [List.map_cons, get?_ofReferences_cons, get?_ofReferences_cons, ih]
    exact congrArg (Option.or _) (if_congr same rfl rfl)

/-- No distance is known for nodes before the references. -/
theorem get?_ofReferences_shift_lt (references : List Reference) {node : NodeId}
    (before : node.index < shift) :
    get? (ofReferences (references.map (Reference.relabel (.shift shift)))) node = none := by
  refine get?_ofReferences_none fun isNode => ?_
  obtain ⟨_, isReference, rfl⟩ := List.mem_map.mp isNode
  obtain ⟨reference, -, rfl⟩ := List.mem_map.mp isReference
  exact absurd before (Nat.not_lt.mpr (Nat.le_add_left _ _))

end Distances

/-! ### Sessions that answer in the same way -/

namespace Session

/-- What two sessions know of nodes. -/
def tables (session other : Session) : Tables :=
  ⟨session.machine.distances, other.machine.distances, session.nextNode, other.nextNode⟩

/-- Distances are known for used nodes only. -/
def KnowsUsed (session : Session) : Prop :=
  ∀ node distance, session.machine.distances.get? node = some distance →
    node.index < session.nextNode

/-- The machines of the sessions do the same, though they know different node identities. The values
that they have given accord. -/
structure EchoesIn (world : World) (earlier earlier' : List Value) (session other : Session) :
    Prop where
  machine : session.machine.Accords (session.tables other).accord world [] other.machine
  earlier : List.Forall₂ (Value.Accords (session.tables other).accord world) earlier earlier'
  known : session.KnowsUsed
  known' : other.KnowsUsed

/-- The two sessions answer in the same way from now on. -/
def Echoes (earlier earlier' : List Value) (session other : Session) : Prop :=
  ∃ world, EchoesIn world earlier earlier' session other

end Session

/-- Two turns end in the same way, and the sessions answer in the same way from then on. -/
inductive Outcome.Echoes (earlier earlier' : List Value) :
    Outcome Session Failure (Option Value) → Outcome Session Failure (Option Value) → Prop
  | nothing {session other : Session} : session.Echoes earlier earlier' other →
      Echoes earlier earlier' (.done none session) (.done none other)
  | value {world : World} {value value' : Value} {session other : Session} :
      Session.EchoesIn world earlier earlier' session other →
      value.Accords (session.tables other).accord world value' →
      Echoes earlier earlier' (.done (some value) session) (.done (some value') other)
  | failed {failure : Failure} {session other : Session} : session.Echoes earlier earlier' other →
      Echoes earlier earlier' (.failed failure session) (.failed failure other)
  | outOfFuel : Echoes earlier earlier' .outOfFuel .outOfFuel

namespace Session

variable {world : World} {earlier earlier' : List Value} {session other : Session}

namespace EchoesIn

/-- More node identities may have been used since. -/
theorem skip (echoes : EchoesIn world earlier earlier' session other) {next next' : Nat}
    (le : session.nextNode ≤ next) (le' : other.nextNode ≤ next') :
    EchoesIn world earlier earlier' ⟨session.machine, next⟩ ⟨other.machine, next'⟩ := by
  have grows : (session.tables other).Grows
      (tables ⟨session.machine, next⟩ ⟨other.machine, next'⟩) :=
    ⟨le, le', fun _ _ => rfl, fun _ _ => rfl⟩
  exact ⟨echoes.machine.relearn grows.code, echoes.earlier.imp
    fun _ _ accords => accords.imp grows.code,
    fun node distance found => Nat.lt_of_lt_of_le (echoes.known node distance found) le,
    fun node distance found => Nat.lt_of_lt_of_le (echoes.known' node distance found) le'⟩

/-- Machines that accord know of nodes what they are said to know. -/
theorem tables_eq {later : World} {machine machine' : Machine}
    (accords : machine.Accords (session.tables other).accord later [] machine') :
    tables ⟨machine, session.nextNode⟩ ⟨machine', other.nextNode⟩ = session.tables other := by
  unfold tables
  rw [accords.distances, accords.distances']
  rfl

/-- The machines may have changed otherwise, but not in what they know of nodes. -/
theorem ofMachine (echoes : EchoesIn world earlier earlier' session other) {later : World}
    {machine machine' : Machine} (extension : world <+: later)
    (accords : machine.Accords (session.tables other).accord later [] machine') :
    EchoesIn later earlier earlier' ⟨machine, session.nextNode⟩ ⟨machine', other.nextNode⟩ := by
  refine ⟨(tables_eq accords).symm ▸ accords, ?_, ?_, ?_⟩
  · rw [tables_eq accords]
    exact echoes.earlier.imp fun _ _ alike => alike.mono extension
  · intro node distance found
    rw [accords.distances] at found
    exact echoes.known node distance found
  · intro node distance found
    rw [accords.distances'] at found
    exact echoes.known' node distance found

/-- One more value has been given. -/
theorem give (echoes : EchoesIn world earlier earlier' session other) {value value' : Value}
    (accords : value.Accords (session.tables other).accord world value') :
    EchoesIn world (earlier ++ [value]) (earlier' ++ [value']) session other :=
  { echoes with earlier := List.rel_append echoes.earlier (.cons accords .nil) }

end EchoesIn

/-! ### Reading and resolving -/

section

variable {references : List Reference} {next : Nat}

/-- The session after it has read a text whose nodes are numbered from its next node on, and has
learnt its references. -/
def learnt (session : Session) (references : List Reference) (next : Nat) : Session :=
  ⟨session.machine.learn (references.map (Reference.relabel (.shift session.nextNode))),
    next + session.nextNode⟩

/-- Of the nodes before, no more is known. -/
theorem learnt_old (session : Session) (references : List Reference) (next : Nat) {node : NodeId}
    (before : node.index < session.nextNode) :
    (session.learnt references next).machine.distances.get? node =
      session.machine.distances.get? node := by
  refine (Distances.get?_append _ _ node).trans ?_
  rw [Distances.get?_ofReferences_shift_lt references before, Option.none_or]

/-- Of the new nodes, as much is known as of the nodes of the references. -/
theorem KnowsUsed.learnt_new (known : session.KnowsUsed) (references : List Reference) (next : Nat)
    (node : NodeId) :
    (session.learnt references next).machine.distances.get? ⟨node.index + session.nextNode⟩ =
      (Distances.ofReferences references).get? node := by
  refine (Distances.get?_append _ _ _).trans ?_
  rw [Distances.get?_ofReferences_shift]
  cases before : session.machine.distances.get? ⟨node.index + session.nextNode⟩ with
  | none => exact Option.or_none
  | some distance => exact absurd (known _ distance before) (Nat.not_lt.mpr (Nat.le_add_left _ _))

theorem KnowsUsed.learnt (known : session.KnowsUsed)
    (bounded : ∀ reference ∈ references, reference.node.index < next) :
    (session.learnt references next).KnowsUsed := by
  intro node distance found
  by_contra beyond
  have after : next + session.nextNode ≤ node.index := Nat.le_of_not_lt beyond
  obtain ⟨inner, rfl⟩ : ∃ inner : NodeId, node = ⟨inner.index + session.nextNode⟩ :=
    ⟨⟨node.index - session.nextNode⟩, congrArg NodeId.mk (Nat.sub_add_cancel (by omega)).symm⟩
  rw [known.learnt_new, Distances.get?_ofReferences_none] at found
  · cases found
  · intro isNode
    obtain ⟨reference, isReference, rfl⟩ := List.mem_map.mp isNode
    have := bounded reference isReference
    dsimp only at after
    omega

/-- **Two sessions that have read the same text echo one another once more**, and all
nodes of the text agree. -/
theorem EchoesIn.learnt (echoes : EchoesIn world earlier earlier' session other)
    (bounded : ∀ reference ∈ references, reference.node.index < next) :
    EchoesIn world earlier earlier' (session.learnt references next)
      (other.learnt references next) ∧
      ∀ node : NodeId, node.index < next →
        ((session.learnt references next).tables (other.learnt references next)).Agree
          session.nextNode other.nextNode node := by
  have grows : (session.tables other).Grows
      ((session.learnt references next).tables (other.learnt references next)) :=
    ⟨Nat.le_add_left _ _, Nat.le_add_left _ _, fun _ => session.learnt_old references next,
      fun _ => other.learnt_old references next⟩
  refine ⟨⟨echoes.machine.relearn grows.code, echoes.earlier.imp
    fun _ _ accords => accords.imp grows.code, echoes.known.learnt bounded,
    echoes.known'.learnt bounded⟩, fun node below => ⟨?_, ?_, ?_⟩⟩
  · exact Nat.add_lt_add_right below _
  · exact Nat.add_lt_add_right below _
  · exact (echoes.known'.learnt_new references next node).trans
      (echoes.known.learnt_new references next node).symm

end

section

variable {α β : Type} {reader : Nat → Except (List Diagnostic) α × Nat}
  {resolver : α → Except (List Diagnostic) (List Reference)}
  {body : α → Run β} {diagnostics : List Diagnostic} {next : Nat}

/-- Reads a text, resolves it and runs it. -/
def process (reader : Nat → Except (List Diagnostic) α × Nat)
    (resolver : α → Except (List Diagnostic) (List Reference)) (body : α → Run β) :
    Step Session Failure β := do
  let value ← Session.read reader
  learn (resolver value)
  onMachine (body value)

/-- A text that cannot be read is rejected. -/
theorem rejected_of_read (read : reader session.nextNode = (.error diagnostics, next)) :
    process reader resolver body session =
      .failed (.static diagnostics) ⟨session.machine, next⟩ := by
  unfold process
  rw [Step.bind_apply]
  unfold Session.read
  rw [read]

/-- A text that cannot be resolved is rejected. -/
theorem rejected_of_resolve {value : α} (read : reader session.nextNode = (.ok value, next))
    (resolved : resolver value = .error diagnostics) :
    process reader resolver body session =
      .failed (.static diagnostics) ⟨session.machine, next⟩ := by
  unfold process
  rw [Step.bind_apply]
  unfold Session.read
  rw [read]
  dsimp only
  rw [Step.bind_apply]
  unfold Session.learn
  rw [resolved]

/-- Texts of this kind are read and resolved in the same way wherever their nodes are numbered from,
and have no other nodes than those between. -/
structure Renumbers (reader : Nat → Except (List Diagnostic) α × Nat)
    (resolver : α → Except (List Diagnostic) (List Reference)) (relabel : Relabelling → α → α)
    (part : α → Part) : Prop where
  read : ∀ nextNode shift,
    reader (nextNode + shift) = shiftRead shift (relabel (.shift shift)) (reader nextNode)
  resolve : ∀ shift value, resolver (relabel (.shift shift) value) =
    (resolver value).map (List.map (Reference.relabel (.shift shift)))
  relabel : ∀ change value, part (relabel change value) = (part value).relabel change
  isCode : ∀ value, Tables.IsCode (part value)
  nodes : ∀ value next, reader 0 = (.ok value, next) →
    ∀ node ∈ (part value).nodes, node.index < next
  references : ∀ value references, resolver value = .ok references →
    references.map Reference.node = (part value).nodes

variable {relabel : Relabelling → α → α} {part : α → Part} {give : β → Option Value}

/-- Machines that do the same end in the same way, and so do their sessions. -/
theorem EchoesIn.onMachine (echoes : EchoesIn world earlier earlier' session other)
    {first second : Run β} (accords : Run.Accords (session.tables other).accord world []
      (fun world value value' => Option.Rel (Value.Accords (session.tables other).accord world)
        (give value)
        (give value')) first second) :
    Outcome.Echoes earlier earlier'
      ((Session.onMachine first >>= fun result => pure (give result)) session)
      ((Session.onMachine second >>= fun result => pure (give result)) other) := by
  have ran := accords world List.prefix_rfl _ _ echoes.machine
  rw [Step.bind_apply, Step.bind_apply]
  unfold Session.onMachine
  dsimp only
  generalize first session.machine = outcome at ran
  generalize second other.machine = outcome' at ran
  cases ran with
  | @done _ value value' machine machine' extension correspond alike =>
    have later := echoes.ofMachine extension alike
    dsimp only [Step.pure_apply]
    generalize give value = given at correspond
    generalize give value' = given' at correspond
    cases correspond with
    | none => exact .nothing ⟨_, later⟩
    | some accords => exact .value later ((tables_eq alike).symm ▸ accords)
  | failed extension same alike =>
    cases same
    exact .failed ⟨_, echoes.ofMachine extension alike⟩
  | outOfFuel => exact .outOfFuel

/-- **A text is answered in the same way in sessions that echo one another.** Either it is rejected
for the same reason, or twins are run. -/
theorem EchoesIn.process (echoes : EchoesIn world earlier earlier' session other)
    (renumbers : Renumbers reader resolver relabel part) (give : β → Option Value)
    (accords : ∀ (tables : Tables) {base : World} {value value' : α},
      tables.accord.code [] (part value) (part value') →
      Run.Accords tables.accord base []
        (fun world value value' => Option.Rel (Value.Accords tables.accord world)
          (give value) (give value'))
        (body value) (body value')) :
    Outcome.Echoes earlier earlier'
      ((Session.process reader resolver body >>= fun result => pure (give result)) session)
      ((Session.process reader resolver body >>= fun result => pure (give result)) other) := by
  have skipped (next : Nat) :
      EchoesIn world earlier earlier' ⟨session.machine, next + session.nextNode⟩
      ⟨other.machine, next + other.nextNode⟩ :=
        echoes.skip (Nat.le_add_left _ _) (Nat.le_add_left _ _)
  have first := renumbers.read 0 session.nextNode
  have second := renumbers.read 0 other.nextNode
  rw [Nat.zero_add] at first second
  rcases read : reader 0 with ⟨found, next⟩
  rw [read] at first second
  rw [Step.bind_apply, Step.bind_apply]
  cases found with
  | error diagnostics =>
    rw [rejected_of_read first, rejected_of_read second]
    exact .failed ⟨world, skipped next⟩
  | ok value =>
    have resolvedFirst := renumbers.resolve session.nextNode value
    have resolvedSecond := renumbers.resolve other.nextNode value
    cases resolved : resolver value with
    | error diagnostics =>
      rw [resolved] at resolvedFirst resolvedSecond
      rw [rejected_of_resolve first resolvedFirst, rejected_of_resolve second resolvedSecond]
      exact .failed ⟨world, skipped next⟩
    | ok references =>
      rw [resolved] at resolvedFirst resolvedSecond
      unfold Session.process
      rw [ran_of_read first resolvedFirst, ran_of_read second resolvedSecond]
      have bounded : ∀ reference ∈ references, reference.node.index < next := by
        intro reference isReference
        refine renumbers.nodes value next read _ ?_
        rw [← renumbers.references value references resolved]
        exact List.mem_map_of_mem isReference
      obtain ⟨learnt, agree⟩ := echoes.learnt bounded
      have code : ((session.learnt references next).tables
          (other.learnt references next)).accord.code []
          (part (relabel (.shift session.nextNode) value))
            (part (relabel (.shift other.nextNode) value)) := by
        rw [renumbers.relabel, renumbers.relabel]
        exact ⟨.nil, .intro (part value) _ _ (renumbers.isCode value) fun node isNode =>
          agree node (renumbers.nodes value next read node isNode)⟩
      exact learnt.onMachine (accords _ code)

end

theorem renumbers_program (source : String) :
    Renumbers (readProgram source) resolve relabelStatements Part.statements where
  read := readProgram_shift source
  resolve shift := resolve_renumber _
  relabel _ _ := rfl
  isCode _ := trivial
  nodes program next read := by
    obtain ⟨tree, derives, numbered⟩ := derives_of_readProgram read
    have fresh := derives.fresh 0
    rw [numbered] at fresh
    exact fun node isNode => (fresh.bounds node isNode).2
  references program references resolved := by
    obtain ⟨-, rfl⟩ := Walk.result_eq_ok.mp resolved
    exact Site.nodes_after ⟨.statements program, [], .start⟩

theorem renumbers_expression (source : String) :
    Renumbers (readExpression source) resolveExpression Expr.relabel Part.expression where
  read := readExpression_shift source
  resolve shift := resolveExpression_renumber _
  relabel _ _ := rfl
  isCode _ := trivial
  nodes value next read := by
    obtain ⟨tree, derives, numbered⟩ := derives_of_readExpression read
    have fresh := derives.fresh 0
    rw [numbered] at fresh
    exact fun node isNode => (fresh.bounds node isNode).2
  references value references resolved := by
    obtain ⟨-, rfl⟩ := Walk.result_eq_ok.mp resolved
    exact Site.nodes_after ⟨.expression value, [], .start⟩

/-! ### One turn -/

/-- A variable is set to values that accord. -/
theorem EchoesIn.given (echoes : EchoesIn world earlier earlier' session other) (given : Given) :
    (given.value earlier).Accords (session.tables other).accord world (given.value earlier') := by
  cases given with
  | plain value notFunction => exact .plain value notFunction
  | earlier index =>
    have all := echoes.earlier
    unfold Given.value
    generalize (session.tables other).accord = accord at all
    clear echoes
    induction all generalizing index with
    | nil => exact .plain .nil nofun
    | cons accords _ ih =>
      cases index with
      | zero => exact accords
      | succ index => exact ih index

theorem EchoesIn.define (echoes : EchoesIn world earlier earlier' session other) (name : String)
    (given : Given) :
    EchoesIn world earlier earlier' (session.defineGlobal name (given.value earlier))
      (other.defineGlobal name (given.value earlier')) := by
  have accords := echoes.machine
  have defined := accords.store.define accords.outermost name (echoes.given given)
  refine echoes.ofMachine List.prefix_rfl ?_
  rw [accords.globals]
  exact accords.ofStore List.prefix_rfl defined

theorem EchoesIn.look (echoes : EchoesIn world earlier earlier' session other) (name : Token) :
    Outcome.Echoes earlier earlier' ((Turn.look name).step earlier session)
      ((Turn.look name).step earlier' other) := by
  have accords := echoes.machine
  have found := (accords.store.outermost accords.outermost name.lexeme).1
  unfold Turn.step Session.global?
  dsimp only
  rw [accords.globals]
  generalize session.machine.store.get? _ _ = first at found
  generalize other.machine.store.get? _ _ = second at found
  cases found with
  | none => exact .failed ⟨world, echoes⟩
  | some alike => exact .value echoes alike

theorem EchoesIn.setSink (echoes : EchoesIn world earlier earlier' session other) (sink : Sink) :
    EchoesIn world earlier earlier' (session.setSink sink) (other.setSink sink) :=
  echoes.ofMachine List.prefix_rfl { echoes.machine with sink := rfl }

theorem EchoesIn.withoutOutput (echoes : EchoesIn world earlier earlier' session other) :
    EchoesIn world earlier earlier' session.withoutOutput other.withoutOutput :=
  echoes.ofMachine List.prefix_rfl { echoes.machine with output := rfl }

end Session

namespace Turn

variable {earlier earlier' : List Value} {session other later : Session}

/-- **Sessions that echo one another answer a turn in the same way**, and echo one another after
it. -/
theorem echoes (turn : Turn) (echoes : session.Echoes earlier earlier' other) :
    Outcome.Echoes earlier earlier' (turn.step earlier session) (turn.step earlier' other) := by
  obtain ⟨world, echoes⟩ := echoes
  cases turn with
  | run fuel source =>
    refine echoes.process (Session.renumbers_program source) (fun _ => none)
      fun tables {_ _ _} code => ?_
    exact (interpretsAccordingly tables.accord fuel code).imp fun _ _ _ _ => .none
  | evaluate fuel source =>
    refine echoes.process (Session.renumbers_expression source) some fun tables {_ _ _} code => ?_
    exact ((evaluatesAccordingly tables.accord fuel).evaluate code).imp
      fun _ _ _ accords => .some accords
  | define name given => exact .nothing ⟨world, echoes.define name given⟩
  | look name => exact echoes.look name
  | setSink sink => exact .nothing ⟨world, echoes.setSink sink⟩

/-- What fails with a static failure does so before its value is given. -/
theorem failed_of_give {α : Type} {body : Step Session Failure α} {give : α → Option Value}
    {failure : Failure}
    (failed : (body >>= fun value => pure (give value)) session = .failed failure later) :
    body session = .failed failure later := by
  rw [Step.bind_apply] at failed
  cases ran : body session with
  | done | outOfFuel =>
    rw [ran] at failed
    cases failed
  | failed =>
    rw [ran] at failed
    cases failed
    rfl

/-- A turn that is rejected has used some node identities, and changed nothing else. -/
theorem machine_of_rejected (turn : Turn) {diagnostics : List Diagnostic}
    (rejected : turn.step earlier session = .failed (.static diagnostics) later) :
    later.machine = session.machine ∧ session.nextNode ≤ later.nextNode := by
  cases turn with
  | run fuel source =>
    obtain ⟨same, numbered⟩ := Session.same_of_static (failed_of_give rejected)
    exact ⟨same, numbered ▸ readProgram_le source _⟩
  | evaluate fuel source =>
    obtain ⟨same, numbered⟩ := Session.same_of_static (failed_of_give rejected)
    exact ⟨same, numbered ▸ readExpression_le source _⟩
  | look name =>
    unfold step at rejected
    dsimp only at rejected
    cases found : session.global? name with
    | ok | error =>
      rw [found] at rejected
      cases rejected
  | define | setSink => cases rejected

end Turn

/-! ### All turns -/

namespace Session

variable {world : World} {earlier earlier' : List Value} {session other : Session}

/-- Of values that accord, the same is seen. -/
theorem EchoesIn.sight (echoes : EchoesIn world earlier earlier' session other)
    {value value' : Value} (accords : value.Accords (session.tables other).accord world value') :
    value'.sight earlier' = value.sight earlier := by
  have equal : earlier'.map value'.equals = earlier.map value.equals := by
    have all := echoes.earlier
    generalize earlier = values at all
    generalize earlier' = values' at all
    induction all with
    | nil => rfl
    | cons alike _ ih =>
      rw [List.map_cons, List.map_cons, ih, accords.resembles.equals alike.resembles]
  unfold Value.sight
  rw [accords.bare, accords.resembles.text, equal]

/-- A session before its first turn echoes itself. -/
theorem echoes_start (clock : Nat → Float) : Echoes [] [] (start clock) (start clock) :=
  ⟨_, Machine.Accords.start clock rfl rfl, .nil, nofun, nofun⟩

section

variable {turn : Turn} {rest : List Turn} {later : Session}

theorem transcript_done {value : Option Value}
    (stepped : turn.step earlier session.withoutOutput = .done value later) :
    transcript (turn :: rest) session earlier =
      (turn, ⟨later.machine.output, .done (value.map (Value.sight earlier))⟩) ::
        transcript rest later (earlier ++ value.toList) := by
  rw [transcript, stepped]

theorem transcript_failed {failure : Failure}
    (stepped : turn.step earlier session.withoutOutput = .failed failure later) :
    transcript (turn :: rest) session earlier =
      (turn, ⟨later.machine.output, .failed failure⟩) :: transcript rest later earlier := by
  rw [transcript, stepped]

theorem transcript_outOfFuel (stepped : turn.step earlier session.withoutOutput = .outOfFuel) :
    transcript (turn :: rest) session earlier = [(turn, ⟨"", .unfinished⟩)] := by
  rw [transcript, stepped]

end

/-- **Without the rejected turns, all others are answered in the same way.** -/
theorem transcript_thinned {turns : List Turn}
    (echoes : session.withoutOutput.Echoes earlier earlier' other.withoutOutput)
    {left : List (Turn × Answer)} (thinned : Thinned (transcript turns session earlier) left) :
    transcript (left.map Prod.fst) other earlier' = left := by
  induction turns generalizing session other earlier earlier' left with
  | nil =>
    cases thinned
    rfl
  | cons turn rest ih =>
    have alike := turn.echoes echoes
    generalize stepped : turn.step earlier session.withoutOutput = outcome at alike
    generalize stepped' : turn.step earlier' other.withoutOutput = outcome' at alike
    cases alike with
    | nothing after =>
      obtain ⟨world, after⟩ := after
      rw [transcript_done stepped] at thinned
      cases thinned with
      | keep _ thinned =>
        rw [Option.toList, List.append_nil] at thinned
        rw [List.map_cons, transcript_done stepped', after.machine.output,
          Option.toList, List.append_nil, ih ⟨world, after.withoutOutput⟩ thinned]
        rfl
    | value after accords =>
      rw [transcript_done stepped] at thinned
      cases thinned with
      | keep _ thinned =>
        rw [List.map_cons, transcript_done stepped', after.machine.output, Option.toList_some,
          ih ⟨_, (after.give accords).withoutOutput⟩ thinned, Option.map_some, Option.map_some,
          after.sight accords]
    | @failed _ failed _ after =>
      obtain ⟨world, after⟩ := after
      rw [transcript_failed stepped] at thinned
      cases thinned with
      | keep _ thinned =>
        rw [List.map_cons, transcript_failed stepped', after.machine.output,
          ih ⟨world, after.withoutOutput⟩ thinned]
      | reject _ _ _ thinned =>
        -- the other session is not asked at all; this one has only used up some nodes
        obtain ⟨before, echoes⟩ := echoes
        obtain ⟨same, numbered⟩ := turn.machine_of_rejected stepped
        have unchanged : failed.withoutOutput =
            ⟨session.withoutOutput.machine, failed.nextNode⟩ := by
          unfold withoutOutput
          rw [same]
          rfl
        refine ih ⟨before, ?_⟩ thinned
        rw [unchanged]
        exact echoes.skip numbered (Nat.le_refl _)
    | outOfFuel =>
      rw [transcript_outOfFuel stepped] at thinned
      cases thinned with
      | keep _ thinned =>
        cases thinned
        exact transcript_outOfFuel stepped'

end Session

/-- **Statically rejected source texts leave no trace in a session.** If any of the turns that were
answered by a static failure are left out, all the others are answered in the same way. -/
theorem rejected_leave_no_trace (clock : Nat → Float) (turns : List Turn)
    (left : List (Turn × Answer))
    (thinned : Thinned (Session.transcript turns (.start clock) []) left) :
    Session.transcript (left.map Prod.fst) (.start clock) [] = left := by
  obtain ⟨world, echoes⟩ := Session.echoes_start clock
  exact Session.transcript_thinned ⟨world, echoes.withoutOutput⟩ thinned

/-- Turns of a session and their answers. The second text is rejected when two
nodes have been used for it. -/
def turnsWithRejected : List (Turn × Answer) :=
  let function :=
    .function ⟨0, none, ⟨[], [.expression (.variable ⟨0⟩ ⟨.identifier, "f", 1⟩)]⟩, ⟨0⟩⟩
  [(.evaluate 12 "fun() \x7b f; \x7d", ⟨"", .done (some ⟨function, "<fn anonymous>", []⟩)⟩),
    (.run 12 "f; return f;", ⟨"", .failed (.static [⟨1, .atToken "return", .topLevelReturn⟩])⟩),
    (.evaluate 12 "clock", ⟨"", .done (some ⟨.native .clock, "<native fn clock>", [false]⟩)⟩),
    (.evaluate 12 "-clock", ⟨"", .failed (.runtime ⟨⟨.symbol .minus, "-", 1⟩, .operandNotNumber⟩)⟩)]

/-- Without the second turn, the others are answered as with it. -/
theorem second_turn_leaves_no_trace :
    Session.transcript (turnsWithRejected.map Prod.fst) (.start fun _ => 0) [] = turnsWithRejected ∧
      Session.transcript ((turnsWithRejected.eraseIdx 1).map Prod.fst) (.start fun _ => 0) [] =
        turnsWithRejected.eraseIdx 1 := by
  have answered :
    Session.transcript (turnsWithRejected.map Prod.fst) (.start fun _ => 0) [] =
      turnsWithRejected := rfl
  refine ⟨answered, rejected_leave_no_trace (fun _ => 0) (turnsWithRejected.map Prod.fst) _ ?_⟩
  rw [answered]
  exact .keep _ (.reject _ _ _ (.keep _ (.keep _ .nil)))

end Lox
