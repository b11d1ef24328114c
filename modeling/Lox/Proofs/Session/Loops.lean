/-
**The tree that a `for` loop is read as does what the loop does.**

* `Machine.SameOutside`, `Machine.Indistinct` — two machines that cannot be told apart by the scopes
  that were there before, now or after any more statements.
* `Outcome.SameEnd` — the same way to end, in such machines.
* `Machine.Fits.matches_self` — in a session, each machine matches itself with other distances, as
  long as those of the nodes in its texts are the same.
* `ForLoop.runCopy` — the loop in rounds, on a machine that has learnt references for a copy of it.
* `lowering_is_unobservable` — the tree of a loop and the loop in rounds end alike.
-/

import Lox.Proofs.Session.Environments
import Lox.Proofs.Session.Rounds

namespace Lox

/-! ### What is seen outside of a loop -/

/-- The machines differ in their distances and scopes only, and the scopes that were known bind
values that resemble one another. -/
structure Machine.SameOutside (known : Store) (machine other : Machine) : Prop where
  rest : other = { machine with store := other.store, distances := other.distances }
  bindings : ∀ scope, (known.scope? scope).isSome → ∀ name,
    Option.Rel Value.Resembles (machine.store.local? scope name) (other.store.local? scope name)

/-- The same way to end, in machines that are related. If a value is returned, they are so too when
it has been bound to a name in a scope that was known. -/
inductive Outcome.SameEnd (known : Store) (related : Machine → Machine → Prop) :
    Outcome Machine RuntimeError Flow → Outcome Machine RuntimeError Flow → Prop
  | normal {machine other : Machine} : related machine other →
      SameEnd known related (.done .normal machine) (.done .normal other)
  | returned {value another : Value} {machine other : Machine} : value.Resembles another →
      related machine other →
      (∀ scope, (known.scope? scope).isSome → ∀ name,
        related (machine.define scope name value) (other.define scope name another)) →
      SameEnd known related (.done (.returned value) machine) (.done (.returned another) other)
  | failed {error : RuntimeError} {machine other : Machine} : related machine other →
      SameEnd known related (.failed error machine) (.failed error other)
  | outOfFuel : SameEnd known related .outOfFuel .outOfFuel

/-- The machines are the same outside, and so they are after any more statements
with nodes before this one. -/
structure Machine.Indistinct (known : Store) (next : Nat) (machine other : Machine) : Prop where
  now : machine.SameOutside known other
  later : ∀ fuel forms, (∀ node ∈ nodesOfStatements forms, node.index < next) →
    Outcome.SameEnd known (Machine.SameOutside known) (executeAll fuel forms machine)
      (executeAll fuel forms other)

/-! ### A machine and itself -/

/-- All scopes are kept as they are. -/
def Store.chart (store : Store) : Chart :=
  (List.range store.size).map fun index => .kept ⟨index⟩ (store.enclosing? ⟨index⟩)
    (store.enclosing? ⟨index⟩)

namespace Store

variable {store : Store} {scope : ScopeId}

theorem at?_chart (found : (store.scope? scope).isSome) :
    store.chart.at? scope =
      some (.kept scope (store.enclosing? scope) (store.enclosing? scope)) := by
  unfold chart Chart.at?
  rw [List.getElem?_map, List.getElem?_range (isSome_scope?_iff.mp found), Option.map_some]

theorem at?_chart_none (missing : store.scope? scope = none) : store.chart.at? scope = none := by
  have outside : ¬ scope.index < store.size := by
    rw [← isSome_scope?_iff, missing]
    nofun
  unfold chart Chart.at?
  rw [List.getElem?_map, List.getElem?_eq_none
    (by rw [List.length_range]; exact Nat.le_of_not_lt outside), Option.map_none]

/-- There is nothing around the outermost scope. -/
theorem at?_chart_outermost {bindings : Names Value}
    (outermost : store.scope? scope = some ⟨bindings, none⟩) :
    store.chart.at? scope = some (.kept scope none none) := by
  have alone : store.enclosing? scope = none := by
    rw [enclosing?, outermost]
    rfl
  rw [at?_chart (by rw [outermost]; rfl), alone]

/-- A scope is itself. -/
theorem image?_chart {image : ScopeId} :
    store.chart.image? scope = some image ↔ image = scope ∧ (store.scope? scope).isSome := by
  cases found : store.scope? scope with
  | none =>
    unfold Chart.image?
    rw [at?_chart_none found]
    exact ⟨nofun, nofun⟩
  | some bindings =>
    rw [Chart.image?_of_kept (at?_chart (by rw [found]; rfl)), Option.some_inj]
    exact ⟨fun same => ⟨same.symm, rfl⟩, fun both => both.1.symm⟩

/-- A store matches itself if all values that are bound do. -/
theorem Matches.self {lookups : Lookups}
    (values : ∀ scope name value, store.local? scope name = some value →
      value.Matches lookups store.chart value) :
    store.Matches lookups store.chart store := by
  refine ⟨by simp [chart], fun scope => ?_, fun scope image outer outer' known => ?_,
    fun scope image known => ?_, fun first second image known known' => ?_,
    fun scope image known name => ?_⟩
  · cases found : store.scope? scope with
    | none =>
      rw [at?_chart_none found, enclosing?, found]
      rfl
    | some bindings =>
      rw [at?_chart (by rw [found]; rfl)]
      rfl
  · cases found : store.scope? scope with
    | none =>
      rw [at?_chart_none found] at known
      cases known
    | some bindings =>
      rw [at?_chart (by rw [found]; rfl)] at known
      cases known
      rfl
  · obtain ⟨rfl, found⟩ := image?_chart.mp known
    exact found
  · exact (image?_chart.mp known).1.symm.trans (image?_chart.mp known').1
  · obtain ⟨rfl, -⟩ := image?_chart.mp known
    cases bound : store.local? image name with
    | none => exact .none
    | some value => exact .some (values image name value bound)

end Store

section

variable {past : Past} {lookups : Lookups} {store : Store} {globals scope : ScopeId}

/-- Scopes that mirror frames are the same as themselves. -/
theorem Past.Mirrors.around {frames : List Frame} {stack : List (Names Bool)}
    (mirrors : past.Mirrors store globals scope frames stack) {bindings : Names Value}
    (outermost : store.scope? globals = some ⟨bindings, none⟩) :
    store.chart.Around (List.replicate stack.length .kept) scope scope := by
  induction mirrors with
  | globals => exact .outermost (Store.at?_chart_outermost outermost)
  | scope _ enclosing _ _ ih =>
    have known := Store.at?_chart (Store.isSome_of_enclosing? enclosing)
    rw [enclosing] at known
    exact .kept known ih

/-- A value that fits matches itself, if the distances of the nodes in the texts are the same. -/
theorem Past.ValueFits.matches_self {value : Value} (fits : past.ValueFits store globals value)
    {bindings : Names Value} (outermost : store.scope? globals = some ⟨bindings, none⟩)
    (same : ∀ site node, past.Holds site → node ∈ site.part.nodes →
      lookups.sparser.get? node = lookups.fuller.get? node) :
    value.Matches lookups store.chart value := by
  cases value with
  | function closure =>
    obtain ⟨identity, name, body, scope⟩ := closure
    obtain ⟨-, frames, walk, holds, mirrors⟩ := fits
    have kept : ∀ standing ∈ List.replicate walk.scopes.length Standing.kept, standing = .kept :=
      fun _ => List.eq_of_mem_replicate
    have code : body.ResolvesAlike lookups id (List.replicate walk.scopes.length .kept) :=
      body.resolvesAlike_of_kept kept fun node inBody => same _ node holds inBody
    have alike : Value.Matches lookups store.chart (.function ⟨identity, name, body, scope⟩)
        (.function ⟨identity, name, body.relabel ⟨id, id⟩, scope⟩) :=
          .function (mirrors.around outermost) code
    rwa [FunctionBody.relabel_id] at alike
  | _ => exact .plain _ nofun

end

/-- **A machine that fits matches itself with other distances,** if those of the nodes
in the texts are the same. -/
theorem Machine.Fits.matches_self {past : Past} {machine : Machine} {frames : List Lox.Frame}
    {walk : Walk} (fits : machine.Fits past)
    (mirrors : past.Mirrors machine.store machine.globals machine.scope frames walk.scopes)
    {distances : Distances} (same : ∀ site node, past.Holds site → node ∈ site.part.nodes →
      distances.get? node = machine.distances.get? node) :
    machine.Matches ⟨machine.distances, distances⟩ machine.store.chart
      (List.replicate walk.scopes.length .kept) { machine with distances := distances } := by
  obtain ⟨bindings, outermost⟩ := fits.globals
  exact ⟨.self fun scope name value bound => (fits.values scope name value bound).matches_self
    outermost same, mirrors.around outermost, Store.at?_chart_outermost outermost,
    rfl, rfl, rfl, rfl, rfl, rfl, rfl, rfl⟩

/-! ### After a run -/

/-- Two runs have come from a machine to machines that match, where the first one is back where it
began. -/
def Machine.BothCome (lookups : Lookups) (stack : List Standing) (start machine other : Machine) :
    Prop :=
  start.SameControl machine ∧ ∃ chart : Chart, start.store.chart <+: chart ∧
    machine.Matches lookups chart stack other

section

variable {lookups : Lookups} {stack : List Standing} {start machine other : Machine}

/-- What has come so far may be told apart by no scope that was there at the beginning. -/
theorem Machine.BothCome.sameOutside (come : start.BothCome lookups stack machine other)
    (kept : stack.head? ≠ some .skipped) (isScope : (start.store.scope? start.scope).isSome)
    (isGlobals : (start.store.scope? start.globals).isSome) :
    machine.SameOutside start.store other := by
  obtain ⟨control, chart, extension, alike⟩ := come
  have image {scope : ScopeId} (found : (start.store.scope? scope).isSome) : chart.image? scope =
      some scope :=
    Chart.image?_mono extension (Store.image?_chart.mpr ⟨rfl, found⟩)
  constructor
  · have scope : other.scope = machine.scope := by
      have here := alike.around.image? kept
      rw [control.scope, image isScope] at here
      rw [control.scope]
      exact (Option.some.inj here).symm
    have globals : other.globals = machine.globals := by
      have here := Chart.image?_of_kept alike.globals
      rw [control.globals, image isGlobals] at here
      rw [control.globals]
      exact (Option.some.inj here).symm
    have depth := alike.depth
    have output := alike.output
    have sink := alike.sink
    have clock := alike.clock
    have ticks := alike.ticks
    have nextFunction := alike.nextFunction
    cases machine
    cases other
    simp_all only
  · intro scope found name
    have values := alike.store.values scope scope (image found) name
    generalize machine.store.local? scope name = first at values
    generalize other.store.local? scope name = second at values
    cases values with
    | some alikeValue => exact .some alikeValue.resembles
    | none => exact .none

/-- A value that has come may be bound in a scope that was there at the beginning. -/
theorem Machine.BothCome.define (control : start.SameControl machine) {chart : Chart}
    (extension : start.store.chart <+: chart) (alike : machine.Matches lookups chart stack other)
    {value another : Value} (alikeValue : value.Matches lookups chart another) {scope : ScopeId}
    (found : (start.store.scope? scope).isSome) (name : String) :
    start.BothCome lookups stack (machine.define scope name value)
      (other.define scope name another) := by
  have image := Chart.image?_mono extension (Store.image?_chart.mpr ⟨rfl, found⟩)
  exact ⟨⟨control.scope, control.globals, control.distances, control.depth⟩, chart, extension,
    alike.ofStore List.prefix_rfl (alike.store.define image name alikeValue)⟩

/-- Runs that match end alike. -/
theorem Outcome.Matches.sameEnd {related : Machine → Machine → Prop} {chart : Chart}
    {first second : Outcome Machine RuntimeError Flow}
    (both : Outcome.Matches lookups chart stack (Flow.Matches lookups) first second)
    (extension : start.store.chart <+: chart)
    (control : ∀ later, first.state? = some later → start.SameControl later)
    (come : ∀ machine other, start.BothCome lookups stack machine other → related machine other) :
    Outcome.SameEnd start.store related first second := by
  cases both with
  | @done later _ _ machine other further alikeFlow alike =>
    have back := control machine rfl
    have now := come _ _ ⟨back, later, extension.trans further, alike⟩
    cases alikeFlow with
    | normal => exact .normal now
    | returned alikeValue =>
      exact .returned alikeValue.resembles now fun scope found name =>
        come _ _ (.define back (extension.trans further) alike alikeValue found name)
  | @failed later _ machine _ further alike =>
    exact .failed (come _ _ ⟨control machine rfl, later, extension.trans further, alike⟩)
  | outOfFuel => exact .outOfFuel

/-- **What has come so far stays the same outside, whatever comes next.** -/
theorem Machine.BothCome.indistinct (come : start.BothCome lookups stack machine other)
    (kept : ∀ standing ∈ stack, standing = .kept)
    (isScope : (start.store.scope? start.scope).isSome)
    (isGlobals : (start.store.scope? start.globals).isSome) {next : Nat}
    (same : ∀ node : NodeId, node.index < next →
      lookups.sparser.get? node = lookups.fuller.get? node) :
    machine.Indistinct start.store next other := by
  refine ⟨come.sameOutside (head_of_kept kept) isScope isGlobals, fun fuel forms before => ?_⟩
  obtain ⟨control, chart, extension, alike⟩ := come
  have code : statementsResolveAlike lookups id stack forms :=
    statementsResolveAlike_of_kept kept forms fun node isNode => same node (before node isNode)
  have ran := (evaluatesMatching lookups fuel).executeAll code chart List.prefix_rfl
    machine other alike
  rw [relabelStatements_id] at ran
  exact ran.sameEnd extension
    (fun later left => IsTrans.trans _ _ _ control
      ((restoring fuel).executeAll forms machine later left))
    fun _ _ further => further.sameOutside (head_of_kept kept) isScope isGlobals

end

/-! ### Loops -/

namespace ForLoop

/-- The loop with nodes from this one on. Distances are known by nodes, so that a copy can have
others. -/
def copy (loop : ForLoop) (next : Nat) : ForLoop :=
  loop.relabel fun node => ⟨node.index + next⟩

variable {past : Past} {loop : ForLoop}

/-- Where a loop stands in the texts does not matter, as it stands in one place
only if it has references. -/
theorem references_unique (proper : past.Proper) {frames others : List Frame} {walk other : Walk}
    (holds : past.Holds ⟨.statement loop.lowered, frames, walk⟩)
    (holdsOther : past.Holds ⟨.statement loop.lowered, others, other⟩) :
    loop.references walk = loop.references other := by
  cases nodes : loop.lowered.nodes with
  | nil =>
    have nothing (walk : Walk) : loop.references walk = [] := by
      have none := loop.nodes_references walk
      rwa [nodes, List.map_eq_nil_iff] at none
    rw [nothing, nothing]
  | cons node rest =>
    have isNode : node ∈ loop.lowered.nodes := nodes ▸ List.mem_cons_self
    cases proper.unique holds holdsOther rfl isNode
    rfl

/-- The loop on a machine that first learns the references of a copy, where this is what the walk
knows when it comes to the loop. -/
def runCopy (loop : ForLoop) (next : Nat) (walk : Walk) (fuel : Nat) : Run Flow := fun machine =>
  (loop.copy next).run fuel (machine.learn ((loop.copy next).references walk))

/-- The distances that a machine knows, and those that it knows once it has learnt
the references of a copy. -/
def lookups (loop : ForLoop) (next : Nat) (walk : Walk) (machine : Machine) : Lookups :=
  ⟨machine.distances, (machine.learn ((loop.copy next).references walk)).distances⟩

/-- The nodes of a copy come after those before which it begins. -/
theorem copy_nodes_ge (loop : ForLoop) (next : Nat) (walk : Walk) {node : NodeId}
    (isNode : node ∈ ((loop.copy next).references walk).map Reference.node) :
    next ≤ node.index := by
  rw [copy, references_relabel, List.map_map] at isNode
  obtain ⟨reference, -, rfl⟩ := List.mem_map.mp isNode
  exact Nat.le_add_left next _

/-- What is known of the nodes before a copy stays as it is. -/
theorem lookups_before (loop : ForLoop) {next : Nat} (walk : Walk) (machine : Machine)
    {node : NodeId} (before : node.index < next) :
    (loop.lookups next walk machine).sparser.get? node =
      (loop.lookups next walk machine).fuller.get? node := by
  have unknown : node ∉ ((loop.copy next).references walk).map Reference.node := fun isNode =>
    absurd (loop.copy_nodes_ge next walk isNode) (Nat.not_le_of_lt before)
  unfold lookups
  rw [Machine.learn, Distances.get?_append, Distances.get?_ofReferences_none unknown,
    Option.none_or]

/-- A loop in the texts and its copy resolve alike, if all nodes of which a distance is
known come before the copy. -/
theorem resolvesAlike_copy (proper : past.Proper) {machine : Machine} {frames : List Frame}
    {walk : Walk} {next : Nat} (fits : machine.Fits past)
    (holds : past.Holds ⟨.statement loop.lowered, frames, walk⟩)
    (known : ∀ node distance, machine.distances.get? node = some distance → node.index < next) :
    loop.ResolvesAlike (loop.lookups next walk machine) (fun node => ⟨node.index + next⟩)
      (List.replicate walk.scopes.length .kept) := by
  have injective : Function.Injective fun node : NodeId => (⟨node.index + next⟩ : NodeId) := by
    rintro ⟨first⟩ ⟨second⟩ equal
    cases Nat.add_right_cancel (congrArg NodeId.index equal)
    rfl
  have fresh (node : NodeId) : machine.distances.get? ⟨node.index + next⟩ = none := by
    cases found : machine.distances.get? ⟨node.index + next⟩ with
    | none => rfl
    | some distance => exact absurd (known _ _ found) (Nat.not_lt_of_le (Nat.le_add_left next _))
  have wellFormed := proper.wellFormed_of_holds holds
  obtain ⟨root, isRoot, toLoop⟩ := holds
  have nodup : loop.lowered.nodes.Nodup :=
    toLoop.nodup ((List.nodup_flatMap.mp proper.nodup).1 root isRoot)
  have fuller : Site.Resolves ⟨.statement loop.lowered, frames, walk⟩ id machine.distances := by
    rintro ⟨part, frames, inner⟩ node access name within rfl
    exact fits.distances node access name frames inner ⟨root, isRoot, toLoop.trans within⟩
  have sparser := resolves_copy injective (fun node _ => fresh node) nodup walk
  exact resolvesAlike (.refl walk.scopes) wellFormed fuller sparser

end ForLoop

/-- **A `for` loop does what it says, whatever tree it is read as.** In every program that is read
and resolved, after any past, at each moment when a statement is come to: if it is read from tokens
that start with `for`, it is the tree of the loop that these tokens say. If it is the tree of a
loop, then the tree, which has a scope more around the body and the increment, and the loop in
rounds, with one scope and the references that belong to that, end alike. They print the same, they
end normally, with a value that is returned or with an error in the same way, and what they leave is
the same in all scopes that were there before, also after any more statements, which may call what
was made in the loop. If either ends, so does the other. -/
theorem lowering_is_unobservable {clock : Nat → Float} {past : Past} {session : Session}
    {request : Request} {root : Site} {start : Moment} {next fuel : Nat} {form : Stmt}
    {machine : Machine} {frames : List Frame} {walk : Walk}
    (after : Session.After clock past session) (begins : session.Begins request root start next)
    (reaches : Reaches start ⟨fuel, .statement form, machine⟩)
    (holds : (past.add root start).Holds ⟨.statement form, frames, walk⟩) :
    (∀ {nearest dangling : Bool} {keyword : Token} {tokens : List Token}
      {tree : Numbered Stmt} {index : Nat},
      Derives nearest (.statement dangling) (keyword :: tokens) tree →
      keyword.kind = .keyword .for → (tree index).1 = form →
      ∃ loop : ForLoop, loop.ReadFrom nearest dangling index (keyword :: tokens) ∧
        loop.lowered = form) ∧
    ∀ loop : ForLoop, loop.lowered = form →
      (∀ fuel, execute fuel form machine ≠ .outOfFuel →
        Outcome.SameEnd machine.store (Machine.Indistinct machine.store next)
          (execute fuel form machine) (loop.runCopy next walk fuel machine)) ∧
      ∀ fuel, loop.runCopy next walk fuel machine ≠ .outOfFuel →
        Outcome.SameEnd machine.store (Machine.Indistinct machine.store next)
          (execute (fuel + 10) form machine) (loop.runCopy next walk fuel machine) := by
  constructor
  · intro nearest dangling keyword tokens tree index derives isFor isForm
    exact isForm ▸ ForLoop.exists_of_derives derives isFor index
  rintro loop rfl
  have upheld := after.upheld
  obtain ⟨accepted, learnt⟩ := begins.accepts
  obtain ⟨proper, firstStands⟩ := upheld.begins begins
  obtain ⟨fits, frames', walk', holds', mirrors⟩ :=
    stands_of_reaches proper reaches (.inr .refl) firstStands
  -- the loop has come to where it stands in the texts
  have place (fuel : Nat) : loop.runCopy next walk fuel machine =
      loop.runCopy next walk' fuel machine := by
    unfold ForLoop.runCopy ForLoop.copy
    rw [ForLoop.references_relabel, ForLoop.references_relabel,
      ForLoop.references_unique proper holds holds']
  have known (node : NodeId) (distance : Nat)
      (found : machine.distances.get? node = some distance) :
      node.index < next := by
    rw [show machine.distances = _ from distances_of_reaches reaches, learnt] at found
    exact upheld.known_learn accepted found
  have used (site : Site) (node : NodeId) (held : (past.add root start).Holds site)
      (inSite : node ∈ site.part.nodes) : node.index < next := by
    obtain ⟨any, isRoot, within⟩ := held
    exact upheld.used_add accepted any isRoot node (within.nodes_subset inSite)
  have machines : machine.Matches (loop.lookups next walk' machine) machine.store.chart
      (List.replicate walk'.scopes.length .kept)
        (machine.learn ((loop.copy next).references walk')) :=
    fits.matches_self mirrors fun site node held inSite =>
      loop.lookups_before walk' machine (used site node held inSite)
  have ran (fuel : Nat) : Outcome.Matches (loop.lookups next walk' machine) machine.store.chart
      (List.replicate walk'.scopes.length .kept) (Flow.Matches (loop.lookups next walk' machine))
      (loop.runInBlocks fuel machine) (loop.runCopy next walk fuel machine) := by
    rw [place]
    exact ForLoop.runInBlocks_matches (ForLoop.resolvesAlike_copy proper fits holds' known)
      fuel _ List.prefix_rfl machine _ machines
  have ends (fuel longer : Nat) (executed : execute longer loop.lowered machine =
      loop.runInBlocks fuel machine) :
      Outcome.SameEnd machine.store (Machine.Indistinct machine.store next)
        (execute longer loop.lowered machine) (loop.runCopy next walk fuel machine) := by
    have matched := ran fuel
    rw [← executed] at matched
    exact matched.sameEnd List.prefix_rfl ((restoring longer).execute loop.lowered machine)
        fun _ _ come =>
      come.indistinct (fun _ => List.eq_of_mem_replicate)
        (mirrors.isSome_scope? fits.isSome_globals)
        fits.isSome_globals fun _ => loop.lookups_before walk' machine
  constructor
  · intro fuel finishes
    exact ends fuel fuel (loop.lowered_continued fuel machine finishes).symm
  · intro fuel finishes
    refine ends fuel (fuel + 10) (loop.continued_lowered fuel machine fun exhausted => finishes ?_)
    have matched := ran fuel
    rw [exhausted] at matched
    exact matched.eq_outOfFuel

/-- A loop of two rounds, of which the first one makes a function that prints the variable of the
loop. -/
def loopWithFunction : ForLoop where
  initializer := some (.var ⟨.identifier, "a", 1⟩ (some (.literal .true)))
  condition :=
    some (.binary (.variable ⟨0⟩ ⟨.identifier, "a", 1⟩) ⟨.symbol .bangEqual, "!=", 1⟩
      (.literal .nil))
  increment :=
    some (.assign ⟨3⟩ ⟨.identifier, "a", 1⟩ (.ternary (.variable ⟨2⟩ ⟨.identifier, "a", 1⟩)
    ⟨.symbol .question, "?", 1⟩ (.literal .false) (.literal .nil)))
  body := .if (.variable ⟨4⟩ ⟨.identifier, "a", 1⟩)
    (.expression (.assign ⟨7⟩ ⟨.identifier, "f", 1⟩ (.lambda ⟨.keyword .fun, "fun", 1⟩
      ⟨[], [.print ⟨.keyword .print, "print", 1⟩ (.variable ⟨6⟩ ⟨.identifier, "a", 1⟩)]⟩))) none
  declaresNothing := rfl

/-- The text of a program in which that loop stands. -/
def textWithLoop : String :=
  "var f; for (var a = true; a != nil; a = a ? false : nil) if (a) f = fun () \x7b print a; \x7d;"

/-- The declaration of the variable that holds the function, and the loop. -/
def programWithLoop : List Stmt :=
  [.var ⟨.identifier, "f", 1⟩ none, loopWithFunction.lowered]

/-- The call of the function after the loop. -/
def callAfterLoop : Stmt :=
  .expression (.call (.variable ⟨7⟩ ⟨.identifier, "f", 1⟩) [] ⟨.symbol .rightParen, ")", 1⟩)

/-- A function that was made in the first round of a loop prints what the variable of the loop holds
after the second, since there is only one. -/
theorem rounds_share_loop_variable :
    ∃ (root : Site) (start : Moment) (walk : Walk) (machine later last : Machine),
      Session.Begins (.start fun _ => 0) (.run 20 textWithLoop) root start 8 ∧
      Reaches start ⟨20, .statement loopWithFunction.lowered, machine⟩ ∧
      loopWithFunction.runCopy 8 walk 20 machine = .done .normal later ∧
      executeAll 20 [callAfterLoop] later = .done .normal last ∧ last.output = "nil\n" := by
  let learnt := (Machine.start fun _ => 0).learn (referencesOf programWithLoop)
  let machine := learnt.define ⟨0⟩ "f" .nil
  have begins : Session.Begins (.start fun _ => 0) (.run 20 textWithLoop)
      (.outermost (.statements programWithLoop)) ⟨20, .program programWithLoop, learnt⟩ 8 :=
    .run rfl rfl
  have reaches : Reaches ⟨20, .program programWithLoop, learnt⟩
      ⟨20, .statement loopWithFunction.lowered, machine⟩ :=
    .tail (.single (.restOfProgram rfl)) .programStatement
  have holds : (Past.add ⟨[], fun _ => False⟩ (.outermost (.statements programWithLoop))
      ⟨20, .program programWithLoop, learnt⟩).Holds
        ⟨.statement loopWithFunction.lowered, [],
          (Stmt.var ⟨.identifier, "f", 1⟩ none).walk .start⟩ :=
    ⟨_, List.mem_cons_self, ((Within.refl _).step Site.moreStatements_child).step
      Site.firstStatement_child⟩
  obtain ⟨later, last, executed, called, printed⟩ : ∃ later last,
      execute 20 loopWithFunction.lowered machine = .done .normal later ∧
        executeAll 20 [callAfterLoop] later = .done .normal last ∧ last.output = "nil\n" := by
    have prints : (match execute 20 loopWithFunction.lowered machine with
        | .done .normal later =>
          match executeAll 20 [callAfterLoop] later with
          | .done .normal last => last.output == "nil\n"
          | _ => false
        | _ => false) = true := by decide +kernel
    split at prints
    · rename_i later executed
      split at prints
      · rename_i last called
        exact ⟨later, last, executed, called, beq_iff_eq.mp prints⟩
      · cases prints
    · cases prints
  have same := ((lowering_is_unobservable .start begins reaches holds).2 loopWithFunction rfl).1 20
    (by rw [executed]; nofun)
  rw [executed] at same
  generalize ran : loopWithFunction.runCopy 8 _ 20 machine = outcome at same
  cases same with
  | @normal _ other indistinct =>
    have sameCall := indistinct.later 20 [callAfterLoop] (by decide)
    rw [called] at sameCall
    generalize calls : executeAll 20 [callAfterLoop] other = outcome at sameCall
    cases sameCall with
    | normal outside =>
      exact ⟨_, _, _, machine, other, _, begins, reaches, ran,
        calls, by rw [outside.rest]; exact printed⟩

end Lox
