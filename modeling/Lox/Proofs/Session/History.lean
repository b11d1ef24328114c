/-
**The history of a session.**

* `Request` — a source text that a session is asked to run or to evaluate.
* `Session.Begins` — a request that is read and resolved, with the moment its run begins with.
* `Session.Raises`, `Session.Ends` — the session after a request was run to a runtime error, and
  after it was run to its end or to such an error.
* `Session.Refuses` — the session after a request whose text is wrong as it stands.
* `Session.After clock past session` — what was run so far has made up this past. Requests that were
  refused and global variables that were set in between leave no trace in it.
* `Upheld` — what holds of a session between two requests. It holds of each session after any past
  (`After.upheld`), and at the beginning of each request the first moment stands
  (`Upheld.begins`).
-/

import Lox.Session
import Lox.Proofs.Evaluation.Origins
import Lox.Proofs.Grammar.Numbering
import Lox.Proofs.Grammar.Trees
import Lox.Proofs.Source

namespace Lox

/-- A source text to be run or evaluated, with the fuel for it. -/
inductive Request where
  | run (fuel : Nat) (source : String)
  | evaluate (fuel : Nat) (source : String)

/-- The past, and a text that begins to be run at a moment. -/
def Past.add (past : Past) (root : Site) (start : Moment) : Past where
  roots := past.roots ++ [root]
  moments moment := past.moments moment ∨ Reaches start moment

namespace Session

/-- The request is read and resolved. It is this text, it begins to be run at this moment, and this
is the next unused node identity then. -/
inductive Begins (session : Session) : Request → Site → Moment → Nat → Prop
  | run {fuel : Nat} {source : String} {program : List Stmt} {next : Nat}
      {references : List Reference} :
      readProgram source session.nextNode = (.ok program, next) → resolve program = .ok references →
      Begins session (.run fuel source) (.outermost (.statements program))
        ⟨fuel, .program program, session.machine.learn references⟩ next
  | evaluate {fuel : Nat} {source : String} {value : Expr} {next : Nat}
      {references : List Reference} :
      readExpression source session.nextNode = (.ok value, next) →
      resolveExpression value = .ok references →
      Begins session (.evaluate fuel source) (.outermost (.expression value))
        ⟨fuel, .expression value, session.machine.learn references⟩ next

/-- The request ends with a runtime error. -/
inductive Raises (session : Session) : Request → RuntimeError → Session → Prop
  | run {fuel : Nat} {source : String} {error : RuntimeError} {later : Session} :
      Session.run fuel source session = .failed (.runtime error) later →
      Raises session (.run fuel source) error later
  | evaluate {fuel : Nat} {source : String} {error : RuntimeError} {later : Session} :
      Session.evaluate fuel source session = .failed (.runtime error) later →
      Raises session (.evaluate fuel source) error later

/-- The request is run to its end, or to a runtime error. -/
inductive Ends (session : Session) : Request → Session → Prop
  | run {fuel : Nat} {source : String} {later : Session} :
      Session.run fuel source session = .done () later → Ends session (.run fuel source) later
  | evaluate {fuel : Nat} {source : String} {value : Value} {later : Session} :
      Session.evaluate fuel source session = .done value later →
      Ends session (.evaluate fuel source) later
  | raised {request : Request} {error : RuntimeError} {later : Session} :
      Raises session request error later → Ends session request later

/-- The request is refused, because its text is wrong as it stands. -/
inductive Refuses (session : Session) : Request → Session → Prop
  | run {fuel : Nat} {source : String} {diagnostics : List Diagnostic} {later : Session} :
      Session.run fuel source session = .failed (.static diagnostics) later →
      Refuses session (.run fuel source) later
  | evaluate {fuel : Nat} {source : String} {diagnostics : List Diagnostic} {later : Session} :
      Session.evaluate fuel source session = .failed (.static diagnostics) later →
      Refuses session (.evaluate fuel source) later

/-- The value is none that is new to the session: a native function is one that is there from the
start, and any other function is bound in a scope. -/
structure Knows (session : Session) (value : Value) : Prop where
  native : ∀ known, value = .native known → known ∈ Native.all
  function : ∀ closure, value = .function closure →
    ∃ scope name, session.machine.store.local? scope name = some (.function closure)

/-- A session after requests that have made up this past. In between, requests may have been
refused, global variables set, and the output opened, closed or taken away. -/
inductive After (clock : Nat → Float) : Past → Session → Prop
  | start : After clock ⟨[], fun _ => False⟩ (Session.start clock)
  | request {past : Past} {session later : Session} {request : Request}
      {root : Site} {start : Moment} {next : Nat} :
      After clock past session → session.Begins request root start next →
      session.Ends request later →
      After clock (past.add root start) later
  | refused {past : Past} {session later : Session} {request : Request} :
      After clock past session → session.Refuses request later → After clock past later
  | global {past : Past} {session : Session} (name : String) {value : Value} :
      After clock past session → session.Knows value →
      After clock past (session.defineGlobal name value)
  | sink {past : Past} {session : Session} (sink : Sink) :
      After clock past session → After clock past (session.setSink sink)
  | output {past : Past} {session : Session} :
      After clock past session → After clock past session.withoutOutput

end Session

/-! ### A longer past -/

namespace Past

variable {past longer : Past}

/-- All texts and moments of one past are among those of another. -/
structure Extends (past longer : Past) : Prop where
  roots : past.roots ⊆ longer.roots
  moments : ∀ moment, past.moments moment → longer.moments moment

theorem extends_add (past : Past) (root : Site) (start : Moment) :
    past.Extends (past.add root start) :=
  ⟨List.subset_append_left _ _, fun _ => .inl⟩

namespace Extends

theorem holds (extension : past.Extends longer) {site : Site} (holds : past.Holds site) :
    longer.Holds site := by
  obtain ⟨root, isRoot, toSite⟩ := holds
  exact ⟨root, extension.roots isRoot, toSite⟩

theorem made (extension : past.Extends longer) {closure : Closure} (made : past.Made closure) :
    longer.Made closure := by
  obtain ⟨maker, isMoment, makes⟩ := made
  exact ⟨maker, extension.moments maker isMoment, makes⟩

theorem opened (extension : past.Extends longer) {frame : Frame} {scope : ScopeId}
    (opened : past.Opened frame scope) : longer.Opened frame scope := by
  cases opened with
  | block reached => exact .block (extension.moments _ reached)
  | function reached checked made =>
    exact .function (extension.moments _ reached) checked (extension.made made)

theorem mirrors (extension : past.Extends longer) {store : Store} {globals scope : ScopeId}
    {frames : List Frame} {stack : List (Names Bool)}
    (mirrors : past.Mirrors store globals scope frames stack) :
    longer.Mirrors store globals scope frames stack := by
  induction mirrors with
  | globals => exact .globals
  | scope opened enclosing bound _ ih => exact .scope (extension.opened opened) enclosing bound ih

theorem valueFits (extension : past.Extends longer) {store : Store} {globals : ScopeId}
    {value : Value} (fits : past.ValueFits store globals value) :
    longer.ValueFits store globals value := by
  cases value with
  | function closure =>
    obtain ⟨made, frames, walk, holds, mirrors⟩ := fits
    exact ⟨extension.made made, frames, walk, extension.holds holds, extension.mirrors mirrors⟩
  | _ => trivial

end Extends

end Past

/-! ### Distances -/

namespace Distances

theorem get?_append (first second : Distances) (node : NodeId) :
    get? (first ++ second) node = (get? second node).or (get? first node) := by
  induction first with
  | nil => exact Option.or_none.symm
  | cons entry rest ih => rw [List.cons_append, get?, get?, ih, Option.or_assoc]

/-- The last reference of a node with a distance decides. -/
theorem get?_ofReferences_cons (reference : Reference) (rest : List Reference) (node : NodeId) :
    get? (ofReferences (reference :: rest)) node =
      (get? (ofReferences rest) node).or
        (if node = reference.node then reference.distance else none) := by
  unfold ofReferences
  rw [List.filterMap_cons]
  cases distance : reference.distance with
  | none => simp
  | some steps => simp [get?, eq_comm]

/-- A node without a reference has no distance. -/
theorem get?_ofReferences_none {references : List Reference} {node : NodeId}
    (unknown : node ∉ references.map Reference.node) :
    get? (ofReferences references) node = none := by
  induction references with
  | nil => rfl
  | cons reference rest ih =>
    rw [List.map_cons, List.mem_cons, not_or] at unknown
    rw [get?_ofReferences_cons, ih unknown.2, Option.none_or, if_neg unknown.1]

/-- Where no node has two references, a node has the distance of its reference. -/
theorem get?_ofReferences {references : List Reference}
    (nodup : (references.map Reference.node).Nodup) {reference : Reference}
    (isReference : reference ∈ references) :
    get? (ofReferences references) reference.node = reference.distance := by
  induction references with
  | nil => cases isReference
  | cons first rest ih =>
    rw [List.map_cons, List.nodup_cons] at nodup
    rw [get?_ofReferences_cons]
    rcases List.mem_cons.mp isReference with rfl | isRest
    · rw [get?_ofReferences_none nodup.1, Option.none_or, if_pos rfl]
    · have other : reference.node ≠ first.node := by
        intro same
        exact nodup.1 (same ▸ List.mem_map_of_mem isRest)
      rw [ih nodup.2 isRest, if_neg other, Option.or_none]

end Distances

/-! ### Between two requests -/

/-- A text that was read and resolved: its nodes are new, and the walk found no defect in it. -/
structure Session.Accepts (session : Session) (root : Site) (next : Nat) : Prop where
  outermost : root.walk = .start ∧ root.frames = []
  clean : root.after.diagnostics = []
  wellFormed : root.WellFormed
  fresh : Fresh session.nextNode next root.part.nodes

/-- The references of an accepted text are those of its nodes. -/
theorem Session.Accepts.nodes {session : Session} {root : Site} {next : Nat}
    (accepted : session.Accepts root next) :
    root.after.references.map Reference.node = root.part.nodes := by
  have found := root.nodes_after
  rw [accepted.outermost.1] at found
  exact found

/-- What holds of a session between two requests. -/
structure Upheld (past : Past) (session : Session) : Prop where
  proper : past.Proper
  fits : session.machine.Fits past
  atGlobals : session.machine.scope = session.machine.globals
  /-- The nodes of all texts have been used up. -/
  used : ∀ root ∈ past.roots, ∀ node ∈ root.part.nodes, node.index < session.nextNode
  /-- Distances are known for used nodes only. -/
  known : ∀ node distance, session.machine.distances.get? node = some distance →
    node.index < session.nextNode

namespace Session

variable {session : Session} {request : Request} {root : Site} {start : Moment} {next : Nat}

/-- What begins to be run has been accepted, and the machine has learnt its references. -/
theorem Begins.accepts (begins : session.Begins request root start next) :
    session.Accepts root next ∧ start.machine = session.machine.learn root.after.references := by
  cases begins with
  | @run fuel source program _ references read resolved =>
    obtain ⟨tree, derives, numbered⟩ := derives_of_readProgram read
    have fresh := derives.fresh session.nextNode
    have wellFormed := derives.wellFormed session.nextNode
    rw [numbered] at fresh wellFormed
    obtain ⟨clean, rfl⟩ := Walk.result_eq_ok.mp resolved
    exact ⟨⟨⟨rfl, rfl⟩, clean, wellFormed _ _, fresh⟩, rfl⟩
  | @evaluate fuel source value _ references read resolved =>
    obtain ⟨tree, derives, numbered⟩ := derives_of_readExpression read
    have fresh := derives.fresh session.nextNode
    have wellFormed := derives.wellFormed session.nextNode
    rw [numbered] at fresh wellFormed
    obtain ⟨clean, rfl⟩ := Walk.result_eq_ok.mp resolved
    exact ⟨⟨⟨rfl, rfl⟩, clean, wellFormed _ _, fresh⟩, rfl⟩

/-- What is run begins with the outermost site of its text. -/
theorem Begins.errand (begins : session.Begins request root start next) {past : Past}
    {machine : Machine} (isAt : machine.At past root.part) : start.errand.Stands past machine := by
  cases begins <;> exact isAt

end Session

namespace Session

section

variable {α β : Type} {reader : Nat → Except (List Diagnostic) α × Nat}
  {resolver : α → Except (List Diagnostic) (List Reference)}
  {body : α → Run β} {session later : Session}

/-- A text that is read and resolved is run with what the machine has learnt. -/
theorem ran_of_read {next : Nat} {value : α} {references : List Reference}
    (read : reader session.nextNode = (.ok value, next))
    (resolved : resolver value = .ok references) :
    (do
      let value ← Session.read reader
      learn (resolver value)
      onMachine (body value) : Step Session Failure β) session =
      onMachine (body value) ⟨session.machine.learn references, next⟩ := by
  rw [Step.bind_apply]
  unfold Session.read
  rw [read]
  dsimp only
  rw [Step.bind_apply]
  unfold Session.learn
  rw [resolved]

/-- A text that is refused leaves the machine as it was, and has used up the
identities that were read. -/
theorem same_of_static {diagnostics : List Diagnostic} (failed : (do
      let value ← Session.read reader
      learn (resolver value)
      onMachine (body value) : Step Session Failure β) session =
        .failed (.static diagnostics) later) :
    later.machine = session.machine ∧ later.nextNode = (reader session.nextNode).2 := by
  rw [Step.bind_apply] at failed
  unfold Session.read at failed
  generalize reader session.nextNode = found at failed ⊢
  obtain ⟨result, next⟩ := found
  cases result with
  | error =>
    cases failed
    exact ⟨rfl, rfl⟩
  | ok value =>
    dsimp only at failed
    rw [Step.bind_apply] at failed
    unfold Session.learn at failed
    cases resolved : resolver value with
    | error =>
      rw [resolved] at failed
      cases failed
      exact ⟨rfl, rfl⟩
    | ok references =>
      -- what is run can only raise a runtime error
      simp only [resolved, onMachine] at failed
      split at failed <;> cases failed

end

/-- A program that is read and resolved is interpreted with what the machine has learnt. -/
theorem run_of_read {fuel next : Nat} {source : String} {session : Session} {program : List Stmt}
    {references : List Reference} (read : readProgram source session.nextNode = (.ok program, next))
    (resolved : resolve program = .ok references) :
    Session.run fuel source session =
      onMachine (interpret fuel program) ⟨session.machine.learn references, next⟩ :=
  ran_of_read read resolved

/-- An expression that is read and resolved is evaluated with what the machine has learnt. -/
theorem evaluate_of_read {fuel next : Nat} {source : String} {session : Session} {value : Expr}
    {references : List Reference}
    (read : readExpression source session.nextNode = (.ok value, next))
    (resolved : resolveExpression value = .ok references) :
    Session.evaluate fuel source session =
      onMachine (Lox.evaluate fuel value) ⟨session.machine.learn references, next⟩ :=
  ran_of_read read resolved

/-- A value that a session has comes out of its machine. -/
theorem done_of_onMachine {α : Type} {body : Run α} {session later : Session} {value : α}
    (done : onMachine body session = .done value later) :
    body session.machine = .done value later.machine := by
  obtain ⟨machine, next⟩ := session
  unfold onMachine at done
  dsimp only at done ⊢
  split at done
  · rename_i same
    cases done
    exact same
  · cases done
  · cases done

/-- A runtime error of a session is one of the machine. -/
theorem failed_of_onMachine {α : Type} {body : Run α} {session later : Session}
    {error : RuntimeError} (failed : onMachine body session = .failed (.runtime error) later) :
    body session.machine = .failed error later.machine := by
  obtain ⟨machine, next⟩ := session
  unfold onMachine at failed
  dsimp only at failed ⊢
  split at failed
  · cases failed
  · rename_i same
    cases failed
    exact same
  · cases failed

/-- **What a request raises comes out of the moment that it begins with.** -/
theorem Begins.raises {session later : Session} {request : Request} {root : Site} {start : Moment}
    {next : Nat} {error : RuntimeError} (begins : session.Begins request root start next)
    (raised : session.Raises request error later) : start.Raises error := by
  have ofMap : ∀ {α : Type} {change : α → List Value} {outcome : Outcome Machine RuntimeError α},
      start.outcome = outcome.map change → outcome = .failed error later.machine →
        start.Raises error := by
    intro α change outcome same failed
    rw [failed] at same
    exact start.traced error later.machine same
  cases begins with
  | run read resolved =>
    cases raised with
    | run failed =>
      rw [run_of_read read resolved] at failed
      exact ofMap rfl (failed_of_onMachine failed)
  | evaluate read resolved =>
    cases raised with
    | evaluate failed =>
      rw [evaluate_of_read read resolved] at failed
      exact ofMap rfl (failed_of_onMachine failed)

/-- When a request has ended, the session has the machine that the run has left. -/
theorem Begins.state?_of_ends {session later : Session} {request : Request} {root : Site}
    {start : Moment} {next : Nat} (begins : session.Begins request root start next)
    (ends : session.Ends request later) :
    start.outcome.state? = some later.machine := by
  cases begins with
  | @run fuel source program _ _ read resolved =>
    rw [Moment.state?_program]
    cases ends with
    | run done =>
      rw [run_of_read read resolved] at done
      rw [done_of_onMachine done]
      rfl
    | raised raises =>
      cases raises with
      | run failed =>
        rw [run_of_read read resolved] at failed
        rw [failed_of_onMachine failed]
        rfl
  | @evaluate fuel source value _ _ read resolved =>
    rw [Moment.state?_expression]
    cases ends with
    | evaluate done =>
      rw [evaluate_of_read read resolved] at done
      rw [done_of_onMachine done]
      rfl
    | raised raises =>
      cases raises with
      | evaluate failed =>
        rw [evaluate_of_read read resolved] at failed
        rw [failed_of_onMachine failed]
        rfl

/-- A request that is refused leaves the machine as it was. -/
theorem Refuses.same {session later : Session} {request : Request}
    (refuses : session.Refuses request later) :
    later.machine = session.machine ∧ session.nextNode ≤ later.nextNode := by
  cases refuses with
  | run failed =>
    obtain ⟨same, numbered⟩ := same_of_static failed
    exact ⟨same, numbered ▸ readProgram_le _ _⟩
  | evaluate failed =>
    obtain ⟨same, numbered⟩ := same_of_static failed
    exact ⟨same, numbered ▸ readExpression_le _ _⟩

/-- What is left of a machine that is kept fit follows the machine before. -/
theorem follows_of_onMachine {α : Type} {past : Past} {body : Run α} {machine : Machine}
    {next : Nat} {good : α → Machine → Prop} (kept : Keeps past machine good (body machine))
    {later : Session} (ended : (∃ value, onMachine body ⟨machine, next⟩ = .done value later) ∨
      ∃ failure, onMachine body ⟨machine, next⟩ = .failed failure later) :
    machine.Follows past later.machine ∧ later.nextNode = next := by
  unfold onMachine at ended
  cases outcome : body machine with
  | done value last =>
    rw [outcome] at kept
    simp only [outcome] at ended
    obtain ⟨_, done⟩ | ⟨_, done⟩ := ended
    · cases done
      exact ⟨kept.1, rfl⟩
    · cases done
  | failed error last =>
    rw [outcome] at kept
    simp only [outcome] at ended
    obtain ⟨_, done⟩ | ⟨_, done⟩ := ended
    · cases done
    · cases done
      exact ⟨kept, rfl⟩
  | outOfFuel =>
    simp only [outcome] at ended
    obtain ⟨_, done⟩ | ⟨_, done⟩ := ended <;> cases done

variable {session : Session} {request : Request} {root : Site} {start : Moment} {next : Nat}

/-- When a request ends, the machine follows the one that it began with. -/
theorem Begins.follows {past : Past} (begins : session.Begins request root start next)
    (proper : past.Proper) (reached : past.moments start) (stands : start.Stands past)
    {later : Session} (ends : session.Ends request later) :
    start.machine.Follows past later.machine ∧ later.nextNode = next := by
  cases begins with
  | run read resolved =>
    refine follows_of_onMachine (keeps_interpret proper reached stands) ?_
    rw [← run_of_read read resolved]
    cases ends with
    | run done => exact .inl ⟨_, done⟩
    | raised raises =>
      cases raises with
      | run failed => exact .inr ⟨_, failed⟩
  | evaluate read resolved =>
    refine follows_of_onMachine (keeps proper _ reached stands) ?_
    rw [← evaluate_of_read read resolved]
    cases ends with
    | evaluate done => exact .inl ⟨_, done⟩
    | raised raises =>
      cases raises with
      | evaluate failed => exact .inr ⟨_, failed⟩

end Session

/-- At the start, the global variables hold the native functions, and nothing else is bound. -/
theorem Session.native_of_local?_start {clock : Nat → Float} {scope : ScopeId} {name : String}
    {value : Value} (bound : (start clock).machine.store.local? scope name = some value) :
    ∃ known ∈ Native.all, value = .native known := by
  rcases Store.local?_defineAll bound with before | isBinding
  · rw [Store.local?_add] at before
    split at before <;> cases before
  · obtain ⟨known, isKnown, same⟩ := List.mem_map.mp isBinding
    exact ⟨known, isKnown, (congrArg Prod.snd same).symm⟩

namespace Upheld

variable {past : Past} {session : Session} {root : Site} {start : Moment} {next : Nat}

/-- The past stays proper when a text is added that was accepted. -/
theorem proper_add (upheld : Upheld past session) (accepted : session.Accepts root next) :
    (past.add root start).Proper := by
  have isEither : ∀ {holds : Site → Prop}, (∀ old ∈ past.roots, holds old) → holds root →
      ∀ any ∈ (past.add root start).roots, holds any := by
    intro holds old new any isRoot
    rcases List.mem_append.mp isRoot with isOld | isNew
    · exact old any isOld
    · obtain rfl := List.mem_singleton.mp isNew
      exact new
  refine ⟨isEither upheld.proper.outermost accepted.outermost,
    isEither upheld.proper.clean accepted.clean,
    isEither upheld.proper.wellFormed accepted.wellFormed, ?_, ?_⟩
  · -- the nodes of the texts before have been used up, those of this one have not
    rw [Past.add, List.flatMap_append, List.flatMap_singleton]
    refine List.nodup_append.mpr ⟨upheld.proper.nodup, accepted.fresh.nodup, ?_⟩
    rintro node inOld other inNew rfl
    obtain ⟨old, isOld, inOld⟩ := List.mem_flatMap.mp inOld
    have isUsed := upheld.used old isOld node inOld
    have isNew := (accepted.fresh.bounds node inNew).1
    omega
  · rintro before after (inPast | reaches) enters
    · exact .inl (upheld.proper.closed inPast enters)
    · exact .inr (reaches.tail enters)

/-- The nodes of all texts with the new one come before the next unused one. -/
theorem used_add (upheld : Upheld past session) (accepted : session.Accepts root next) :
    ∀ any ∈ (past.add root start).roots, ∀ node ∈ any.part.nodes, node.index < next := by
  intro any isRoot node inRoot
  rcases List.mem_append.mp isRoot with isOld | isNew
  · exact Nat.lt_of_lt_of_le (upheld.used any isOld node inRoot) accepted.fresh.le
  · obtain rfl := List.mem_singleton.mp isNew
    exact (accepted.fresh.bounds node inRoot).2

/-- Once the references of the new text are learnt, distances are known for nodes before
the next unused one only. -/
theorem known_learn (upheld : Upheld past session) (accepted : session.Accepts root next)
    {node : NodeId} {distance : Nat}
    (known : (session.machine.learn root.after.references).distances.get? node = some distance) :
    node.index < next := by
  rw [Machine.learn, Distances.get?_append] at known
  by_cases isNew : node ∈ root.after.references.map Reference.node
  · rw [accepted.nodes] at isNew
    exact (accepted.fresh.bounds node isNew).2
  · rw [Distances.get?_ofReferences_none isNew, Option.none_or] at known
    exact Nat.lt_of_lt_of_le (upheld.known node distance known) accepted.fresh.le

/-- The machine fits the texts with the new one, once it has learnt the references of that. -/
theorem fits_learn (upheld : Upheld past session) (accepted : session.Accepts root next) :
    (session.machine.learn root.after.references).Fits (past.add root start) := by
  refine ⟨upheld.fits.globals, fun scope name value bound => ?_, ?_⟩
  · exact (past.extends_add root start).valueFits (upheld.fits.values scope name value bound)
  · rintro node access name frames walk ⟨any, isRoot, within⟩
    have inRoot : node ∈ any.part.nodes := within.nodes_subset (List.mem_singleton.mpr rfl)
    show Distances.get? (session.machine.distances ++ Distances.ofReferences root.after.references)
      node = _
    rw [Distances.get?_append]
    rcases List.mem_append.mp isRoot with isOld | isNew
    · -- a node of the texts before has no reference in the new one
      have unknown : node ∉ root.after.references.map Reference.node := by
        intro inNew
        rw [accepted.nodes] at inNew
        have isUsed := upheld.used any isOld node inRoot
        have isFresh := (accepted.fresh.bounds node inNew).1
        omega
      rw [Distances.get?_ofReferences_none unknown, Option.none_or]
      exact upheld.fits.distances node access name frames walk ⟨any, isOld, within⟩
    · -- a node of the new text has no distance from before
      obtain rfl := List.mem_singleton.mp isNew
      have unknown : session.machine.distances.get? node = none := by
        cases known : session.machine.distances.get? node with
        | none => rfl
        | some distance =>
          have isUsed := upheld.known node distance known
          have isFresh := (accepted.fresh.bounds node inRoot).1
          omega
      have nodup : (any.after.references.map Reference.node).Nodup :=
        accepted.nodes ▸ accepted.fresh.nodup
      have found := Distances.get?_ofReferences nodup within.reference
      rw [unknown, Option.or_none]
      exact found

/-- **At the beginning of a request, the past is proper, and the first moment stands.** -/
theorem begins (upheld : Upheld past session) {request : Request}
    (begins : session.Begins request root start next) :
    (past.add root start).Proper ∧ start.Stands (past.add root start) := by
  obtain ⟨accepted, machine⟩ := begins.accepts
  refine ⟨upheld.proper_add accepted, ?_, begins.errand ⟨root.frames, root.walk, ?_, ?_⟩⟩
  · rw [machine]
    exact upheld.fits_learn accepted
  · exact ⟨root, List.mem_append_right _ List.mem_cons_self, .refl root⟩
  · rw [accepted.outermost.1, accepted.outermost.2, machine]
    show Past.Mirrors _ _ session.machine.globals session.machine.scope _ _
    rw [upheld.atGlobals]
    exact .globals

/-- Before the first request, only native functions are bound. -/
theorem atStart (clock : Nat → Float) : Upheld ⟨[], fun _ => False⟩ (Session.start clock) := by
  have noText {holds : Site → Prop} : ∀ root ∈ ([] : List Site), holds root :=
    List.forall_mem_nil _
  refine ⟨⟨noText, noText, noText, List.nodup_nil, False.elim⟩, ⟨⟨_, rfl⟩, ?_, ?_⟩, rfl, noText, ?_⟩
  · intro scope name value bound
    obtain ⟨known, -, rfl⟩ := Session.native_of_local?_start bound
    trivial
  · rintro node access name frames walk ⟨root, isRoot, -⟩
    cases isRoot
  · intro node distance found
    cases found

/-- When a request has ended, the same holds as before. -/
theorem request (upheld : Upheld past session) {request : Request} {later : Session}
    (begins : session.Begins request root start next) (ends : session.Ends request later) :
    Upheld (past.add root start) later := by
  obtain ⟨proper, stands⟩ := upheld.begins begins
  obtain ⟨follows, rfl⟩ := begins.follows proper (.inr .refl) stands ends
  obtain ⟨accepted, machine⟩ := begins.accepts
  refine ⟨proper, follows.fits, ?_, upheld.used_add accepted, fun node distance known => ?_⟩
  · rw [follows.scope, follows.globals, machine]
    exact upheld.atGlobals
  · rw [follows.distances, machine] at known
    exact upheld.known_learn accepted known

/-- A request that is refused uses up identities, and nothing else. -/
theorem refused (upheld : Upheld past session) {request : Request} {later : Session}
    (refuses : session.Refuses request later) : Upheld past later := by
  obtain ⟨same, le⟩ := refuses.same
  refine ⟨upheld.proper, ?_, ?_, fun root isRoot node inRoot => ?_, fun node distance known => ?_⟩
  · rw [same]
    exact upheld.fits
  · rw [same]
    exact upheld.atGlobals
  · exact Nat.lt_of_lt_of_le (upheld.used root isRoot node inRoot) le
  · rw [same] at known
    exact Nat.lt_of_lt_of_le (upheld.known node distance known) le

/-- A global variable that is set holds a value that fits. -/
theorem global (upheld : Upheld past session) (name : String) {value : Value}
    (knows : session.Knows value) :
    Upheld past (session.defineGlobal name value) := by
  have valueFits : past.ValueFits session.machine.store session.machine.globals value := by
    cases value with
    | function closure =>
      obtain ⟨scope, bound, isBound⟩ := knows.function closure rfl
      exact upheld.fits.values scope bound _ isBound
    | _ => trivial
  exact ⟨upheld.proper, upheld.fits.define (valueFits.extend (Store.extends_define _ _ _ _)),
    upheld.atGlobals, upheld.used, upheld.known⟩

/-- The output does not matter. -/
theorem of_same (upheld : Upheld past session) {machine : Machine}
    (store : machine.store = session.machine.store) (scope : machine.scope = session.machine.scope)
    (globals : machine.globals = session.machine.globals)
    (distances : machine.distances = session.machine.distances) :
    Upheld past { session with machine := machine } := by
  refine ⟨upheld.proper, upheld.fits.of_same store globals distances, ?_, upheld.used, ?_⟩
  · show machine.scope = machine.globals
    rw [scope, globals, upheld.atGlobals]
  · show ∀ node distance, machine.distances.get? node = some distance →
      node.index < session.nextNode
    rw [distances]
    exact upheld.known

end Upheld

/-- **This holds of each session, whatever it was asked before.** -/
theorem Session.After.upheld {clock : Nat → Float} {past : Past} {session : Session}
    (after : After clock past session) : Upheld past session := by
  induction after with
  | start => exact Upheld.atStart clock
  | request _ begins ends ih => exact ih.request begins ends
  | refused _ refuses ih => exact ih.refused refuses
  | global name _ knows ih => exact ih.global name knows
  | sink sink _ ih => exact ih.of_same rfl rfl rfl rfl
  | output _ ih => exact ih.of_same rfl rfl rfl rfl

end Lox
