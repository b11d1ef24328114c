/-
**No node identity is used twice.**

* `Text` — a source text that is read as a program or as an expression, with the tree that the
  parser makes of its tokens. Its nodes are new (`Text.fresh`).
* `Process` — a session, what was run in it, and all trees that were read in the same process.
* `Process.Step` — one step of it: the session is asked something, or a text is read elsewhere, to
  be run in another session or not at all.
* `Process.Sound` — all nodes of all trees are different ones and have been used up, and so are
  those of all functions that were made. Each step keeps that up (`Step.sound`), and changes the
  distance of no node that has been used up (`Step.distances`).
* `node_identities_never_collide` — what follows for trees, for the walk over each of them, and for
  the distances that a session knows.
-/

import Lox.Proofs.Session.History

namespace Lox

/-! ### Texts that are read -/

/-- A source text that is read as a program, or as an expression. -/
inductive Text where
  | program (source : String)
  | expression (source : String)

namespace Text

/-- What the parser makes of the tokens of a text, whatever is wrong with its characters, and the
next unused node identity. -/
def parse (nextNode : Nat) : Text → Except (List Diagnostic) Part × Nat
  | .program source =>
    let (result, later) := parseProgram (tokensOf (Utf8.encode source)) nextNode
    (result.map .statements, later)
  | .expression source =>
    let (result, later) := parseExpression (tokensOf (Utf8.encode source)) nextNode
    (result.map .expression, later)

/-- The tree of a text, if it has one. -/
def tree? (text : Text) (nextNode : Nat) : Option Part :=
  (text.parse nextNode).1.toOption

/-- The next unused node identity after a text was read. -/
def next (text : Text) (nextNode : Nat) : Nat :=
  (text.parse nextNode).2

/-- Reading a text never takes a node identity back. -/
theorem le_next (text : Text) (nextNode : Nat) : nextNode ≤ text.next nextNode := by
  cases text with
  | program source => exact readProgram_le source nextNode
  | expression source => exact readExpression_le source nextNode

/-- **All nodes of a tree are different ones, and none was used before.** -/
theorem fresh (text : Text) (nextNode : Nat) :
    Fresh nextNode (text.next nextNode) ((text.tree? nextNode).toList.flatMap Part.nodes) := by
  have le := text.le_next nextNode
  unfold tree? next at *
  cases text with
  | program source =>
    simp only [parse] at le ⊢
    rcases parsed : parseProgram (tokensOf (Utf8.encode source)) nextNode with ⟨result, later⟩
    rw [parsed] at le
    cases result with
    | error => exact ⟨le, List.nodup_nil, nofun⟩
    | ok statements =>
      rw [tokensOf_eq] at parsed
      obtain ⟨tree, derives, numbered⟩ := derives_of_parseProgram (innerTokens_ne_end _) parsed
      have fresh := derives.fresh nextNode
      rw [numbered] at fresh
      exact fresh.of_eq (List.append_nil _).symm
  | expression source =>
    simp only [parse] at le ⊢
    rcases parsed : parseExpression (tokensOf (Utf8.encode source)) nextNode with ⟨result, later⟩
    rw [parsed] at le
    cases result with
    | error => exact ⟨le, List.nodup_nil, nofun⟩
    | ok value =>
      rw [tokensOf_eq] at parsed
      obtain ⟨tree, derives, numbered⟩ := derives_of_parseExpression (innerTokens_ne_end _) parsed
      have fresh := derives.fresh nextNode
      rw [numbered] at fresh
      exact fresh.of_eq (List.append_nil _).symm

end Text

/-- The text of a request. -/
def Request.text : Request → Text
  | .run _ source => .program source
  | .evaluate _ source => .expression source

namespace Session

variable {session later : Session} {request : Request} {root : Site} {start : Moment} {next : Nat}

/-- What begins to be run is the tree of its text. -/
theorem Begins.tree? (begins : session.Begins request root start next) :
    request.text.tree? session.nextNode = some root.part ∧
      request.text.next session.nextNode = next := by
  cases begins with
  | @run fuel source program _ _ read =>
    obtain ⟨-, parsed⟩ := readWith_eq_ok.mp read
    have whole : (Text.program source).parse session.nextNode =
        (.ok (.statements program), next) := by
      simp only [Text.parse, parsed]
      rfl
    exact ⟨congrArg (fun found => found.1.toOption) whole, congrArg Prod.snd whole⟩
  | @evaluate fuel source value _ _ read =>
    obtain ⟨-, parsed⟩ := readWith_eq_ok.mp read
    have whole : (Text.expression source).parse session.nextNode =
        (.ok (.expression value), next) := by
      simp only [Text.parse, parsed]
      rfl
    exact ⟨congrArg (fun found => found.1.toOption) whole, congrArg Prod.snd whole⟩

/-- A request that is refused has used up the identities that were read. -/
theorem Refuses.numbered (refuses : session.Refuses request later) :
    later.nextNode = request.text.next session.nextNode := by
  cases refuses with
  | run failed => exact (same_of_static failed).2
  | evaluate failed => exact (same_of_static failed).2

end Session

/-! ### Processes -/

/-- A session, what was run in it, and all trees that were read in its process. -/
structure Process where
  session : Session
  past : Past
  trees : List Part

namespace Process

/-- A process before anything was read in it. -/
def start (clock : Nat → Float) : Process :=
  ⟨.start clock, ⟨[], fun _ => False⟩, []⟩

/-- The trees of a process after one more text was read. -/
def treesWith (process : Process) (text : Text) : List Part :=
  process.trees ++ (text.tree? process.session.nextNode).toList

/-- One step of a process. A text is read by the session, which runs it or refuses it, or elsewhere;
or no text is read. -/
inductive Step (process : Process) : Process → Prop
  | ended {request : Request} {root : Site} {start : Moment} {next : Nat} {later : Session} :
      process.session.Begins request root start next → process.session.Ends request later →
      Step process ⟨later, process.past.add root start, process.treesWith request.text⟩
  | refused {request : Request} {later : Session} :
      process.session.Refuses request later →
      Step process ⟨later, process.past, process.treesWith request.text⟩
  | elsewhere (text : Text) :
      Step process ⟨⟨process.session.machine, text.next process.session.nextNode⟩, process.past,
        process.treesWith text⟩
  | global (name : String) {value : Value} :
      process.session.Knows value →
      Step process ⟨process.session.defineGlobal name value, process.past, process.trees⟩
  | sink (sink : Sink) : Step process ⟨process.session.setSink sink, process.past, process.trees⟩
  | output : Step process ⟨process.session.withoutOutput, process.past, process.trees⟩

/-- What holds of a process between two steps. -/
structure Sound (process : Process) : Prop where
  upheld : Upheld process.past process.session
  fresh : Fresh 0 process.session.nextNode (process.trees.flatMap Part.nodes)
  /-- The body of each function that was made stands in a text that was run. -/
  bodies : ∀ closure, process.past.Made closure → ∃ frames walk,
    process.past.Holds ⟨.function (.ofName closure.name) closure.body, frames, walk⟩

end Process

/-! ### One step -/

/-- Identities may be used up elsewhere. -/
theorem Upheld.skip {past : Past} {session : Session} (upheld : Upheld past session) {next : Nat}
    (le : session.nextNode ≤ next) : Upheld past ⟨session.machine, next⟩ :=
  ⟨upheld.proper, upheld.fits, upheld.atGlobals,
    fun root isRoot node inRoot => Nat.lt_of_lt_of_le (upheld.used root isRoot node inRoot) le,
    fun node distance known => Nat.lt_of_lt_of_le (upheld.known node distance known) le⟩

/-- The body of a function that is made at a moment stands in the texts. -/
theorem Makes.holds {past : Past} {maker : Moment} {closure : Closure} (makes : Makes maker closure)
    (stands : maker.Stands past) :
    ∃ frames walk, past.Holds ⟨.function (.ofName closure.name) closure.body, frames, walk⟩ := by
  cases makes with
  | lambda =>
    obtain ⟨frames, walk, holds, -⟩ := stands.errand
    exact ⟨frames, walk, holds.of_child (by simp [Site.children, Expr.sites, FunctionKind.ofName])⟩
  | declaration =>
    obtain ⟨frames, walk, holds, -⟩ := stands.errand
    exact ⟨frames, _, holds.of_child Site.function_child⟩

namespace Process

variable {process later : Process}

/-- A process in which nothing was read is sound. -/
theorem sound_start (clock : Nat → Float) : (start clock).Sound :=
  ⟨.atStart clock, .nil 0, fun _ made => made.elim fun _ inPast => inPast.1.elim⟩

/-- The trees are still fresh after one more text was read. -/
theorem Sound.fresh_treesWith (sound : process.Sound) (text : Text) :
    Fresh 0 (text.next process.session.nextNode) ((process.treesWith text).flatMap Part.nodes) :=
  (sound.fresh.append (text.fresh process.session.nextNode)).of_eq List.flatMap_append.symm

/-- **Each step of a process keeps it sound.** -/
theorem Step.sound (step : process.Step later) (sound : process.Sound) : later.Sound := by
  cases step with
  | @ended request root start next last begins ends =>
    obtain ⟨proper, stands⟩ := sound.upheld.begins begins
    obtain ⟨-, rfl⟩ := begins.follows proper (.inr .refl) stands ends
    refine ⟨sound.upheld.request begins ends,
      begins.tree?.2 ▸ sound.fresh_treesWith request.text, ?_⟩
    rintro closure ⟨maker, isOld | reaches, makes⟩
    · obtain ⟨frames, walk, holds⟩ := sound.bodies closure ⟨maker, isOld, makes⟩
      exact ⟨frames, walk, (process.past.extends_add root start).holds holds⟩
    · exact makes.holds (stands_of_reaches proper reaches (.inr .refl) stands)
  | @refused request last refuses =>
    exact ⟨sound.upheld.refused refuses, refuses.numbered ▸ sound.fresh_treesWith request.text,
      sound.bodies⟩
  | elsewhere text =>
    exact ⟨sound.upheld.skip (text.le_next _), sound.fresh_treesWith text, sound.bodies⟩
  | global name knows => exact ⟨sound.upheld.global name knows, sound.fresh, sound.bodies⟩
  | sink sink => exact ⟨sound.upheld.of_same rfl rfl rfl rfl, sound.fresh, sound.bodies⟩
  | output => exact ⟨sound.upheld.of_same rfl rfl rfl rfl, sound.fresh, sound.bodies⟩

/-- **No step changes the distance of a node that has been used up.** -/
theorem Step.distances (step : process.Step later) (sound : process.Sound) {node : NodeId}
    (isUsed : node.index < process.session.nextNode) :
    later.session.machine.distances.get? node = process.session.machine.distances.get? node ∧
      process.session.nextNode ≤ later.session.nextNode := by
  cases step with
  | @ended request root start next last begins ends =>
    obtain ⟨proper, stands⟩ := sound.upheld.begins begins
    obtain ⟨follows, rfl⟩ := begins.follows proper (.inr .refl) stands ends
    obtain ⟨accepted, machine⟩ := begins.accepts
    refine ⟨?_, accepted.fresh.le⟩
    have unknown : node ∉ root.after.references.map Reference.node := by
      intro isNew
      rw [accepted.nodes] at isNew
      have := (accepted.fresh.bounds node isNew).1
      omega
    rw [follows.distances, machine, Machine.learn, Distances.get?_append,
      Distances.get?_ofReferences_none unknown, Option.none_or]
  | refused refuses =>
    obtain ⟨same, le⟩ := refuses.same
    exact ⟨by rw [same], le⟩
  | elsewhere text => exact ⟨rfl, text.le_next _⟩
  | global | sink | output => exact ⟨rfl, Nat.le_refl _⟩

/-- What is reached from a process without any text is sound. -/
theorem sound_of_history {clock : Nat → Float}
    (history : Relation.ReflTransGen Step (start clock) process) :
    process.Sound := by
  induction history with
  | refl => exact sound_start clock
  | tail _ step ih => exact step.sound ih

/-- No steps change the distance of a node that has been used up before them. -/
theorem Sound.distances (sound : process.Sound) (steps : Relation.ReflTransGen Step process later)
    {node : NodeId} (isUsed : node.index < process.session.nextNode) :
    later.session.machine.distances.get? node = process.session.machine.distances.get? node := by
  suffices both : later.Sound ∧ process.session.nextNode ≤ later.session.nextNode ∧
      later.session.machine.distances.get? node =
        process.session.machine.distances.get? node from both.2.2
  induction steps with
  | refl => exact ⟨sound, Nat.le_refl _, rfl⟩
  | tail _ step ih =>
    obtain ⟨soundBetween, le, same⟩ := ih
    obtain ⟨sameAgain, leAgain⟩ := step.distances soundBetween (Nat.lt_of_lt_of_le isUsed le)
    exact ⟨step.sound soundBetween, Nat.le_trans le leAgain, sameAgain.trans same⟩

end Process

/-! ### Tables of distances -/

/-- The places with a known distance are among those that are referred to, in the same order. -/
theorem Distances.keys_ofReferences (references : List Reference) :
    ((ofReferences references).map Prod.fst).Sublist (references.map Reference.node) := by
  unfold ofReferences
  induction references with
  | nil => exact .slnil
  | cons reference rest ih =>
    rw [List.filterMap_cons, List.map_cons]
    cases reference.distance with
    | none => exact .cons _ ih
    | some => exact .cons_cons _ ih

/-- What is learnt at the beginning of a request was not known before. -/
theorem Upheld.get?_none {past : Past} {session : Session} (upheld : Upheld past session)
    {request : Request} {root : Site} {start : Moment} {next : Nat}
    (begins : session.Begins request root start next) {entry : NodeId × Nat}
    (isEntry : entry ∈ Distances.ofReferences root.after.references) :
    session.machine.distances.get? entry.1 = none := by
  have accepted := begins.accepts.1
  have isNode : entry.1 ∈ root.part.nodes := by
    rw [← accepted.nodes]
    exact (Distances.keys_ofReferences _).subset (List.mem_map_of_mem isEntry)
  cases known : session.machine.distances.get? entry.1 with
  | none => rfl
  | some distance =>
    have := upheld.known entry.1 distance known
    have := (accepted.fresh.bounds entry.1 isNode).1
    omega

/-- **Node identities never collide, so that no distance is ever overwritten.** Take any process,
after any steps: texts that were run, refused, or only read, in its session and elsewhere. No node
of any of its trees comes twice, neither in one tree nor in two. The walk over each tree, whether it
is resolved or not, refers to each node of the tree once, and gives at most one distance to each and
none to others. When a request begins, none of the distances that the session learns is one of a
node that it knew a distance of. And whatever is run, refused or read later, the nodes of all trees,
and of the bodies of all functions that were made, keep their distances. -/
theorem node_identities_never_collide {clock : Nat → Float} {process : Process}
    (history : Relation.ReflTransGen Process.Step (.start clock) process) :
    (process.trees.flatMap Part.nodes).Nodup ∧
      (∀ tree ∈ process.trees,
        (Site.outermost tree).after.references.map Reference.node = tree.nodes ∧
        ((Distances.ofReferences (Site.outermost tree).after.references).map Prod.fst).Sublist
          tree.nodes) ∧
      (∀ request root start next, process.session.Begins request root start next →
        root.part ∈ process.treesWith request.text ∧
        ∀ entry ∈ Distances.ofReferences root.after.references,
          process.session.machine.distances.get? entry.1 = none) ∧
      ∀ later, Relation.ReflTransGen Process.Step process later →
        (∀ tree ∈ process.trees, ∀ node ∈ tree.nodes,
          later.session.machine.distances.get? node = process.session.machine.distances.get? node) ∧
        ∀ closure, process.past.Made closure → ∀ node ∈ closure.body.nodes,
          later.session.machine.distances.get? node =
            process.session.machine.distances.get? node := by
  have sound := Process.sound_of_history history
  refine ⟨sound.fresh.nodup, fun tree _ => ?_, fun request root start next begins => ⟨?_, ?_⟩,
    fun later steps => ⟨fun tree isTree node isNode => ?_, fun closure made node isNode => ?_⟩⟩
  · have visited : (Site.outermost tree).after.references.map Reference.node = tree.nodes :=
      (Site.outermost tree).nodes_after
    exact ⟨visited, visited ▸ Distances.keys_ofReferences _⟩
  · unfold Process.treesWith
    rw [begins.tree?.1]
    exact List.mem_append_right _ List.mem_cons_self
  · exact fun entry isEntry => sound.upheld.get?_none begins isEntry
  · have inTrees := List.mem_flatMap.mpr ⟨tree, isTree, isNode⟩
    exact sound.distances steps (sound.fresh.bounds node inTrees).2
  · obtain ⟨frames, walk, root, isRoot, within⟩ := sound.bodies closure made
    exact sound.distances steps (sound.upheld.used root isRoot node (within.nodes_subset isNode))

/-- A function that reads the variable of the block around it. -/
def functionInBlock : String :=
  "\x7b var a; fun f() \x7b a; \x7d \x7d"

/-- The tree of this text, if this is the next unused node identity. -/
def treeOfFunctionInBlock (next : Nat) : List Stmt :=
  [.block [.var ⟨.identifier, "a", 1⟩ none,
    .function ⟨.identifier, "f", 1⟩ ⟨[], [.expression (.variable ⟨next⟩ ⟨.identifier, "a", 1⟩)]⟩]]

/-- The function keeps its distance when its text is run a second time, after a
text that is no expression. -/
theorem function_keeps_distance :
    ∃ (process later : Process) (closure : Closure),
      Relation.ReflTransGen Process.Step (.start fun _ => 0) process ∧ process.past.Made closure ∧
      closure.body.nodes = [⟨0⟩] ∧ Relation.ReflTransGen Process.Step process later ∧
      later.session.nextNode = 3 ∧ later.session.machine.distances.get? ⟨0⟩ = some 1 := by
  have ran : ∀ process : Process, ∃ (later : Process) (closure : Closure), process.Step later ∧
      later.session.nextNode = process.session.nextNode + 1 ∧
      later.session.machine.distances =
        process.session.machine.distances ++ [(⟨process.session.nextNode⟩, 1)] ∧
      later.past.Made closure ∧ closure.body.nodes = [⟨process.session.nextNode⟩] := by
    rintro ⟨⟨machine, next⟩, past, trees⟩
    have read : readProgram functionInBlock next = (.ok (treeOfFunctionInBlock next), next + 1) :=
      rfl
    have resolved : resolve (treeOfFunctionInBlock next) =
        .ok [⟨⟨next⟩, .read, ⟨.identifier, "a", 1⟩, some 1⟩] := rfl
    have isRun : Session.run 9 functionInBlock ⟨machine, next⟩ =
        Session.onMachine (interpret 9 (treeOfFunctionInBlock next))
          ⟨machine.learn [⟨⟨next⟩, .read, ⟨.identifier, "a", 1⟩, some 1⟩], next + 1⟩ :=
      Session.run_of_read read resolved
    exact ⟨_, _, .ended (.run read resolved) (.run (isRun.trans rfl)), rfl, rfl,
      ⟨_, .inr (.head .programStatement <| .head .block <| .head (.otherStatements rfl) <|
        .head .firstStatement .refl), .declaration⟩, rfl⟩
  obtain ⟨process, closure, first, numbered, distances, made, nodes⟩ := ran (.start fun _ => 0)
  obtain ⟨later, _, second, numberedAgain, -⟩ :=
    ran ⟨⟨process.session.machine, (Text.expression "b +").next process.session.nextNode⟩,
      process.past, process.treesWith (.expression "b +")⟩
  have steps : Relation.ReflTransGen Process.Step process later :=
    .head (.elsewhere (.expression "b +")) (.single second)
  refine ⟨process, later, closure, .single first, made, nodes, steps, ?_, ?_⟩
  · exact numberedAgain.trans (by rw [numbered]; rfl)
  · have isNode : (⟨0⟩ : NodeId) ∈ closure.body.nodes := by
      rw [nodes]
      exact List.mem_cons_self
    refine (((node_identities_never_collide (.single first)).2.2.2 later steps).2
      closure made _ isNode).trans ?_
    rw [distances]
    rfl

end Lox
