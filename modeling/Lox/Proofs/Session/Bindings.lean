/-
**Local variables are bound when they are accessed.**

* `Proper.not_own` — in an accepted text no variable is read in its own
  initializer, outside of functions.
* `Site.Delayed` — a site stands in a function in the initializer of a variable of some name.
* `Past.Unready` — the name that is read at a site was not readable yet when the walk came there.
* `Session.Begins.finds` — if a request raises an undefined variable, this one is missed at a
  moment.
* `resolved_accesses_succeed` — in every session, local variables are bound wherever the walk had
  found them readable or they are assigned, and an undefined variable that has a distance is read in
  a function that stands in the variable's own initializer.
-/

import Lox.Proofs.Evaluation.Undefined
import Lox.Proofs.Session.Environments

namespace Lox

/-! ### Names that may not be read yet -/

/-- The site stands in a function, which stands in the initializer of a variable of this name; that
variable is declared right in the frame at this distance. -/
def Site.Delayed (root site : Site) (distance : Nat) (name : String) : Prop :=
  ∃ token value walk inner kind body, token.lexeme = name ∧
    Within root ⟨.statement (.var token (some value)), site.frames.drop distance, walk⟩ ∧
    Within ⟨.expression value, site.frames.drop distance, walk.declare token⟩ inner ∧
    inner.part = .function kind body ∧ Within inner site

/-- A site in an initializer, but in another scope, stands in a function there. -/
theorem Within.InInitializer.delayed {root site : Site} {distance : Nat} {name : String}
    (inside : Within.InInitializer root site distance name) (positive : 0 < distance)
    (isFrame : distance < site.frames.length) : Site.Delayed root site distance name := by
  obtain ⟨token, value, walk, isName, declaration, within⟩ := inside
  rcases within.in_function trivial
    with ⟨-, same⟩ | ⟨kind, body, inner, isFunction, toInner, toSite⟩
  · have length : site.frames.length = (site.frames.drop distance).length :=
      congrArg List.length same
    rw [List.length_drop] at length
    omega
  · exact ⟨token, value, walk, inner, kind, body, isName, declaration, toInner, isFunction, toSite⟩

namespace Past

variable {past : Past}

/-- In the texts, no variable is read in its own initializer, outside of functions. -/
theorem Proper.not_own (proper : past.Proper) {node : NodeId} {name : Token} {frames : List Frame}
    {walk : Walk} (holds : past.Holds ⟨.target node .read name, frames, walk⟩) :
    walk.inOwnInitializer name = false := by
  obtain ⟨root, isRoot, within⟩ := holds
  have before := within.before.diagnostics
  rw [proper.clean root isRoot] at before
  have clean : (walk.readVariable node name).diagnostics = [] := List.prefix_nil.mp before
  by_contra own
  rw [Bool.not_eq_false] at own
  unfold Walk.readVariable at clean
  rw [if_pos own] at clean
  simp [Walk.refer, Walk.record] at clean

/-- The site reads a local variable, in a function in the initializer of that variable,
whose name was not readable yet when the walk came there; and the scope that the distance
leads to does not bind it. -/
structure Unready (past : Past) (machine : Machine) (site : Site) (name : String) (distance : Nat) :
    Prop where
  pending : ∃ names, site.walk.scopes[distance]? = some names ∧ names.get? name = some false
  delayed : ∃ root ∈ past.roots, Site.Delayed root site distance name
  unbound : ∃ scope, past.Leads machine site name distance scope ∧
    machine.store.local? scope name = none

end Past

/-! ### Requests that raise an undefined variable -/

namespace Session

variable {session later : Session} {request : Request} {root : Site} {start : Moment} {next : Nat}
  {error : RuntimeError}

/-- **If a request raises an undefined variable, this one is missed at a moment.** -/
theorem Begins.finds (begins : session.Begins request root start next)
    (raises : session.Raises request error later) (undefined : error.fault.IsUndefined) :
    start.Finds error :=
  (begins.raises raises).finds undefined

end Session

/-! ### All accesses of a session -/

section

variable {past : Past} {machine : Machine} {node : NodeId} {name : Token} {frames : List Frame}
  {walk : Walk} {distance : Nat}

/-- What the distance leads to binds the name if the walk had found it readable. -/
theorem Past.Mirrors.isSome_getAt? {names : Names Bool}
    (mirrors : past.Mirrors machine.store machine.globals machine.scope frames walk.scopes)
    (found : walk.scopes[distance]? = some names) (readable : names.get? name.lexeme = some true) :
    (machine.store.getAt? machine.scope distance name.lexeme).isSome := by
  obtain ⟨frame, scope, -, ancestor, -, bound⟩ := mirrors.ancestor found
  unfold Store.getAt?
  rw [ancestor]
  exact bound name.lexeme readable

/-- A local variable that is read but not bound is delayed. -/
theorem Past.Proper.unready (proper : past.Proper)
    (holds : past.Holds ⟨.target node .read name, frames, walk⟩)
    (mirrors : past.Mirrors machine.store machine.globals machine.scope frames walk.scopes)
    (isDistance : distanceTo? name.lexeme walk.scopes = some distance)
    (missing : machine.store.getAt? machine.scope distance name.lexeme = none) :
    past.Unready machine ⟨.target node .read name, frames, walk⟩ name.lexeme distance := by
  have leads : ∃ scope, past.Leads machine ⟨.target node .read name, frames, walk⟩
      name.lexeme distance scope := mirrors.leads isDistance
  obtain ⟨scope, leads⟩ := leads
  obtain ⟨names, isNames, has⟩ := leads.found
  -- it has a mark, and the mark for what is readable would mean that it is bound
  have isPending : names.get? name.lexeme = some false := by
    cases mark : names.get? name.lexeme with
    | none =>
      rw [Names.has, mark] at has
      cases has
    | some readable =>
      cases readable with
      | false => rfl
      | true =>
        have isBound := mirrors.isSome_getAt? isNames mark
        rw [missing] at isBound
        cases isBound
  refine ⟨⟨names, isNames, isPending⟩, ?_, scope, leads, ?_⟩
  · obtain ⟨root, isRoot, within⟩ := holds
    have pending := within.pending (proper.wellFormed root isRoot)
      (by rw [(proper.outermost root isRoot).1]; rfl) isNames isPending
    obtain ⟨frame, isFrame, -⟩ := leads.opened
    refine ⟨root, isRoot, pending.delayed ?_ (List.getElem?_eq_some_iff.mp isFrame).1⟩
    -- in the same scope, the walk would have found a defect
    by_contra atOnce
    obtain rfl : distance = 0 := by omega
    have isOwn := proper.not_own ⟨root, isRoot, within⟩
    unfold Walk.inOwnInitializer Walk.innermost? at isOwn
    rw [List.head?_eq_getElem?, isNames] at isOwn
    simp [isPending] at isOwn
  · have same := leads.ancestor
    unfold Store.getAt? at missing
    rw [same] at missing
    exact missing

end

/-- **Local variables are bound when they are accessed.** Whatever a session was asked before: where
a variable is read that has a distance, and that the walk had found readable, its scope binds it;
where a variable is assigned that has a distance, its scope is there; and if an undefined variable
is raised, then at a moment at which it is missed, and there it has no distance, or it is read in a
function that stands in its own initializer, and its scope does not bind it yet. -/
theorem resolved_accesses_succeed {clock : Nat → Float} {past : Past} {session : Session}
    {request : Request} {root : Site} {start : Moment} {next : Nat}
    (after : Session.After clock past session) (begins : session.Begins request root start next) :
    (∀ fuel node name machine site distance names,
      Reaches start ⟨fuel, .expression (.variable node name), machine⟩ →
      (past.add root start).Holds site → site.part = .target node .read name →
      machine.distances.get? node = some distance → site.walk.scopes[distance]? = some names →
      names.get? name.lexeme = some true →
      (machine.store.getAt? machine.scope distance name.lexeme).isSome) ∧
    (∀ fuel node name value machine distance,
      Reaches start ⟨fuel, .assignment node name value, machine⟩ →
      machine.distances.get? node = some distance →
      (machine.store.assignAt? machine.scope distance name.lexeme value).isSome) ∧
    (∀ moment node access name distance, Reaches start moment → moment.Misses node access name →
      moment.machine.distances.get? node = some distance →
      access = .read ∧ ∃ site, (past.add root start).Holds site ∧
      site.part = .target node .read name ∧
        (past.add root start).Unready moment.machine site name.lexeme distance) ∧
    ∀ error later, session.Raises request error later → error.fault.IsUndefined →
      start.Finds error := by
  obtain ⟨proper, firstStands⟩ := after.upheld.begins begins
  -- at each access the scopes mirror the frames, and the distance is that of the walk
  have reached : ∀ {moment node access name}, Reaches start moment →
      moment.Accesses node access name →
      ∃ frames walk, (past.add root start).Holds ⟨.target node access name, frames, walk⟩ ∧
        (past.add root start).Mirrors moment.machine.store moment.machine.globals
          moment.machine.scope frames walk.scopes ∧
        moment.machine.distances.get? node = distanceTo? name.lexeme walk.scopes := by
    intro moment node access name reaches accesses
    have stands := stands_of_reaches proper reaches (.inr .refl) firstStands
    obtain ⟨frames, walk, holds, mirrors⟩ := accesses.at_target stands
    exact ⟨frames, walk, holds, mirrors, stands.fits.distances node access name frames walk holds⟩
  have assigned : ∀ {moment node name distance}, Reaches start moment →
      moment.Accesses node .write name →
      moment.machine.distances.get? node = some distance →
      ∃ scope, moment.machine.store.ancestor? moment.machine.scope distance = some scope := by
    intro moment node name distance reaches accesses isDistance
    obtain ⟨frames, walk, holds, mirrors, known⟩ := reached reaches accesses
    have leads : ∃ scope, (past.add root start).Leads moment.machine
        ⟨.target node .write name, frames, walk⟩ name.lexeme distance scope :=
      mirrors.leads (known ▸ isDistance)
    obtain ⟨scope, leads⟩ := leads
    exact ⟨scope, leads.ancestor⟩
  refine ⟨?_, ?_, ?_, fun error later raises undefined => begins.finds raises undefined⟩
  · intro fuel node name machine site distance names reaches holds isTarget
      isDistance isNames readable
    obtain ⟨frames, walk, holds', mirrors, known⟩ := reached reaches .read
    obtain rfl := proper.unique_target holds holds' isTarget rfl
    exact mirrors.isSome_getAt? isNames readable
  · intro fuel node name value machine distance reaches isDistance
    obtain ⟨scope, ancestor⟩ := assigned reaches .write isDistance
    unfold Store.assignAt?
    rw [show machine.store.ancestor? machine.scope distance = some scope from ancestor]
    rfl
  · intro moment node access name distance reaches misses isDistance
    cases misses with
    | @read fuel _ _ machine missing =>
      obtain ⟨frames, walk, holds, mirrors, known⟩ := reached reaches .read
      refine ⟨rfl, _, holds, rfl, proper.unready holds mirrors (known ▸ isDistance) ?_⟩
      unfold Machine.valueAt? at missing
      rw [show machine.distances.get? node = some distance from isDistance] at missing
      exact missing
    | @write fuel _ _ value machine missing =>
      obtain ⟨scope, ancestor⟩ := assigned reaches .write isDistance
      unfold Machine.targetOf? at missing
      rw [show machine.distances.get? node = some distance from isDistance] at missing
      have none : machine.store.ancestor? machine.scope distance = none := missing
      rw [show machine.store.ancestor? machine.scope distance = some scope from ancestor] at none
      cases none

/-- A function that is called in the initializer of a variable does not find that variable bound. -/
theorem own_initializer_is_not_bound :
    ∃ (past : Past) (root : Site) (start moment : Moment) (node : NodeId)
      (name : Token) (site : Site), Session.Begins (.start fun _ => 0)
      (.run 20 "\x7b var a = fun () \x7b a; \x7d(); \x7d") root start 1 ∧
      Reaches start moment ∧ moment.Misses node .read name ∧
      past.Unready moment.machine site name.lexeme 1 := by
  have reached : ∃ root start, Session.Begins (.start fun _ => 0)
      (.run 20 "\x7b var a = fun () \x7b a; \x7d(); \x7d") root start 1 ∧
      ∃ moment, Reaches start moment ∧
      moment.Misses ⟨0⟩ .read ⟨.identifier, "a", 1⟩ ∧ moment.machine.distances.get? ⟨0⟩ = some 1 :=
    ⟨_, _, .run rfl rfl, _, .head .programStatement <| .head .block <| .head .firstStatement <|
      .head .variable <| .head .optional <| .head (.call rfl rfl) <| .head (.body rfl) <|
      .head .firstStatement <| .head .expressionStatement .refl, .read rfl, rfl⟩
  obtain ⟨root, start, begins, moment, reaches, misses, distance⟩ := reached
  obtain ⟨-, -, delayed, -⟩ := resolved_accesses_succeed .start begins
  obtain ⟨-, site, -, -, unready⟩ := delayed moment _ _ _ 1 reaches misses distance
  exact ⟨_, root, start, moment, _, _, site, begins, reaches, misses, unready⟩

end Lox
