/-
**The scopes at run time mirror the text.**

* `Past.Surrounds` — the scopes from the current one outward are one for each block and each body of
  a function around a site, innermost first, and then the global one.
* `environments_mirror_scopes` — so it is in every session, whenever a variable is accessed; a
  distance leads to the scope of the block or the body in which the walk found the name.
-/

import Lox.Proofs.Evaluation.Forests
import Lox.Proofs.Scoping.Frames
import Lox.Proofs.Session.History

namespace Lox

/-! ### Scopes that mirror frames -/

/-- Scopes that mirror frames are a chain that ends with the global one, and each was opened for its
frame. -/
theorem Past.Mirrors.chain {past : Past} {store : Store} {globals scope : ScopeId}
    {frames : List Frame} {stack : List (Names Bool)}
    (mirrors : past.Mirrors store globals scope frames stack) {bindings : Names Value}
    (outermost : store.scope? globals = some ⟨bindings, none⟩) :
    ∃ scopes, store.Chain scope (scopes ++ [globals]) ∧ List.Forall₂ past.Opened frames scopes := by
  induction mirrors with
  | globals => exact ⟨[], .last outermost, .nil⟩
  | @scope scope outer frame names frames stack opened enclosing _ _ ih =>
    obtain ⟨scopes, chain, each⟩ := ih
    exact ⟨scope :: scopes, .inside enclosing chain, .cons opened each⟩

/-- In each frame that is mirrored there is a scope, as many steps outward, which was opened for it
and binds what may be read there. -/
theorem Past.Mirrors.ancestor {past : Past} {store : Store} {globals scope : ScopeId}
    {frames : List Frame} {stack : List (Names Bool)}
    (mirrors : past.Mirrors store globals scope frames stack) {distance : Nat} {names : Names Bool}
    (found : stack[distance]? = some names) :
    ∃ frame target, frames[distance]? = some frame ∧ store.ancestor? scope distance = some target ∧
      past.Opened frame target ∧
      ∀ name, names.get? name = some true → (store.local? target name).isSome := by
  induction mirrors generalizing distance with
  | globals => cases found
  | @scope scope outer frame innermost frames stack opened enclosing bound _ ih =>
    cases distance with
    | zero =>
      obtain rfl := Option.some.inj found
      exact ⟨frame, scope, rfl, rfl, opened, bound⟩
    | succ distance =>
      rw [List.getElem?_cons_succ] at found
      obtain ⟨further, target, isFrame, ancestor, opened, bound⟩ := ih found
      refine ⟨further, target, isFrame, ?_, opened, bound⟩
      rw [Store.ancestor?, enclosing]
      exact ancestor

/-! ### One place for each node -/

namespace Past

variable {past : Past}

/-- A part that has a node stands at one site in all the texts. -/
theorem Proper.unique (proper : past.Proper) {first second : Site} {node : NodeId}
    (holdsFirst : past.Holds first) (holdsSecond : past.Holds second)
    (same : first.part = second.part) (inFirst : node ∈ first.part.nodes) : first = second := by
  obtain ⟨root, isRoot, toFirst⟩ := holdsFirst
  obtain ⟨other, isOther, toSecond⟩ := holdsSecond
  have inSecond : node ∈ second.part.nodes := same ▸ inFirst
  obtain rfl : root = other := eq_of_mem_nodes proper.nodup isRoot isOther
    (toFirst.nodes_subset inFirst) (toSecond.nodes_subset inSecond)
  exact toFirst.unique ((List.nodup_flatMap.mp proper.nodup).1 root isRoot) toSecond same inFirst

/-- A node stands for one access in all the texts. -/
theorem Proper.unique_target (proper : past.Proper) {first second : Site} {node : NodeId}
    {access otherAccess : Access} {name otherName : Token} (holdsFirst : past.Holds first)
    (holdsSecond : past.Holds second) (isFirst : first.part = .target node access name)
    (isSecond : second.part = .target node otherAccess otherName) : first = second := by
  have inFirst : node ∈ first.part.nodes := by
    rw [isFirst]
    exact List.mem_singleton.mpr rfl
  have inSecond : node ∈ second.part.nodes := by
    rw [isSecond]
    exact List.mem_singleton.mpr rfl
  obtain ⟨root, isRoot, toFirst⟩ := holdsFirst
  obtain ⟨other, isOther, toSecond⟩ := holdsSecond
  obtain rfl : root = other := eq_of_mem_nodes proper.nodup isRoot isOther
    (toFirst.nodes_subset inFirst) (toSecond.nodes_subset inSecond)
  -- nothing stands within an access, so neither site is within the other
  have nodup := (List.nodup_flatMap.mp proper.nodup).1 root isRoot
  rcases toFirst.comparable nodup toSecond inFirst inSecond with within | within
  · rcases Within.iff_children.mp within with same | ⟨child, isChild, -⟩
    · exact same.symm
    · exact absurd isFirst (Site.ne_target isChild node access name)
  · rcases Within.iff_children.mp within with same | ⟨child, isChild, -⟩
    · exact same
    · exact absurd isSecond (Site.ne_target isChild node otherAccess otherName)

/-! ### The scopes around an access -/

/-- The scopes of a machine mirror the text around a site. -/
structure Surrounds (past : Past) (machine : Machine) (site : Site) (scopes : List ScopeId) :
    Prop where
  /-- They are all scopes from the current one outward, up to the global one. -/
  chain : machine.store.Chain machine.scope (scopes ++ [machine.globals])
  /-- Each was opened by running its block, or by calling a function made from its body. -/
  opened : List.Forall₂ past.Opened site.frames scopes
  /-- These blocks and bodies are all those around the site, innermost first. -/
  around : ∀ frame outer, frame :: outer <:+ site.frames ↔
    ∃ around, past.Holds around ∧ around.part = frame.part ∧ around.frames = outer ∧
    Within around site
  /-- Each of them stands in one place only. -/
  alone : ∀ frame ∈ site.frames, ∃! around, past.Holds around ∧ around.part = frame.part

/-- What stands around an access in the texts is what its scopes were opened for. -/
theorem Proper.surrounds (proper : past.Proper) {machine : Machine} {node : NodeId}
    {access : Access} {name : Token} {frames : List Frame} {walk : Walk}
    (holds : past.Holds ⟨.target node access name, frames, walk⟩) {scopes : List ScopeId}
    (chain : machine.store.Chain machine.scope (scopes ++ [machine.globals]))
    (opened : List.Forall₂ past.Opened frames scopes) :
    past.Surrounds machine ⟨.target node access name, frames, walk⟩ scopes := by
  obtain ⟨root, isRoot, within⟩ := holds
  have outermost : ∀ root ∈ past.roots, root.frames = [] := fun root isRoot =>
    (proper.outermost root isRoot).2
  refine ⟨chain, opened, fun frame outer => ⟨fun suffix => ?_, ?_⟩, fun frame isFrame => ?_⟩
  · obtain ⟨around, child, toAround, isFrame, frames, isChild, toSite⟩ :=
      (within.frames_iff (outermost root isRoot)).mp suffix
    exact ⟨around, ⟨root, isRoot, toAround⟩, isFrame, frames,
      ((Within.refl around).step isChild).trans toSite⟩
  · rintro ⟨around, ⟨other, isOther, toAround⟩, isFrame, frames, toSite⟩
    refine ((toAround.trans toSite).frames_iff (outermost other isOther)).mpr ?_
    rcases Within.iff_children.mp toSite with same | ⟨child, isChild, toSite⟩
    · rw [← same] at isFrame
      cases frame <;> cases isFrame
    · exact ⟨around, child, toAround, isFrame, frames, isChild, toSite⟩
  · obtain ⟨inner, outer, split⟩ := List.append_of_mem isFrame
    have suffix : frame :: outer <:+ frames := ⟨inner, split.symm⟩
    obtain ⟨around, child, toAround, isFrame, -, isChild, toSite⟩ :=
      (within.frames_iff (outermost root isRoot)).mp suffix
    have inAround : node ∈ around.part.nodes :=
      (((Within.refl around).step isChild).trans toSite).nodes_subset (List.mem_singleton.mpr rfl)
    refine ⟨around, ⟨⟨root, isRoot, toAround⟩, isFrame⟩, ?_⟩
    rintro other ⟨holdsOther, isOther⟩
    exact (proper.unique ⟨root, isRoot, toAround⟩ holdsOther
      (isFrame.trans isOther.symm) inAround).symm

end Past

section

variable {past : Past} {moment : Moment} {node : NodeId} {access : Access} {name : Token}

/-- Where a moment stands, its access is come to in scopes that mirror its frames. -/
theorem Moment.Accesses.at_target (accesses : moment.Accesses node access name)
    (stands : moment.Stands past) :
    moment.machine.At past (.target node access name) := by
  obtain ⟨-, isAt⟩ := stands
  cases accesses with
  | read => exact isAt.first fun _ _ => by simp [Site.children, Expr.sites]
  | write => exact isAt.1

end

/-! ### All accesses of a session -/

/-- A distance leads to this scope, which was opened for the block or the body in which the walk
found the name, and this was the nearest one. -/
structure Past.Leads (past : Past) (machine : Machine) (site : Site) (name : String)
    (distance : Nat) (scope : ScopeId) : Prop where
  ancestor : machine.store.ancestor? machine.scope distance = some scope
  opened : ∃ frame, site.frames[distance]? = some frame ∧ past.Opened frame scope
  found : ∃ names, site.walk.scopes[distance]? = some names ∧ names.has name = true
  nearest : ∀ nearer < distance, ∀ names, site.walk.scopes[nearer]? = some names →
    names.has name = false

/-- Where the walk has found a name, the distance leads. -/
theorem Past.Mirrors.leads {past : Past} {machine : Machine} {site : Site} {name : String}
    {distance : Nat}
    (mirrors : past.Mirrors machine.store machine.globals machine.scope
      site.frames site.walk.scopes)
    (found : distanceTo? name site.walk.scopes = some distance) :
    ∃ scope, past.Leads machine site name distance scope := by
  obtain ⟨inside, has, before⟩ := List.findIdx?_eq_some_iff_getElem.mp found
  have isThere : site.walk.scopes[distance]? = some site.walk.scopes[distance] :=
    List.getElem?_eq_getElem inside
  obtain ⟨frame, scope, isFrame, ancestor, opened, -⟩ := mirrors.ancestor isThere
  refine ⟨scope, ancestor, ⟨frame, isFrame, opened⟩, ⟨_, isThere, has⟩,
    fun nearer isNearer names isNames => ?_⟩
  obtain ⟨inside', rfl⟩ := List.getElem?_eq_some_iff.mp isNames
  exact Bool.eq_false_iff.mpr (before nearer isNearer)

/-- **The scopes at run time mirror the text.** Whatever a session was asked before, whenever a
variable is read or assigned, its node stands in one place in all the texts, and the scopes from
the current one outward are those opened for the blocks and the bodies around that place, and
then the global one. If the node has a distance, that many steps outward is the scope in which
the walk found the name. -/
theorem environments_mirror_scopes {clock : Nat → Float} {past : Past} {session : Session}
    {request : Request} {root : Site} {start moment : Moment} {next : Nat} {node : NodeId}
    {access : Access} {name : Token} (after : Session.After clock past session)
    (begins : session.Begins request root start next) (reaches : Reaches start moment)
    (accesses : moment.Accesses node access name) :
    ∃ site scopes,
      site.part = .target node access name ∧ (past.add root start).Holds site ∧
      (∀ other otherAccess otherName, (past.add root start).Holds other →
        other.part = .target node otherAccess otherName → other = site) ∧
      (past.add root start).Surrounds moment.machine site scopes ∧
      moment.machine.distances.get? node = distanceTo? name.lexeme site.walk.scopes ∧
      ∀ distance, moment.machine.distances.get? node = some distance →
        ∃ scope, scopes[distance]? = some scope ∧
          (past.add root start).Leads moment.machine site name.lexeme distance scope := by
  obtain ⟨proper, firstStands⟩ := after.upheld.begins begins
  have stands := stands_of_reaches proper reaches (.inr .refl) firstStands
  obtain ⟨frames, walk, holds, mirrors⟩ := accesses.at_target stands
  obtain ⟨bindings, outermost⟩ := stands.fits.globals
  obtain ⟨scopes, chain, opened⟩ := mirrors.chain outermost
  have known := stands.fits.distances node access name frames walk holds
  refine ⟨_, scopes, rfl, holds, fun other otherAccess otherName holdsOther isOther => ?_,
    proper.surrounds holds chain opened, known, fun distance isDistance => ?_⟩
  · exact proper.unique_target holdsOther holds isOther rfl
  · rw [known] at isDistance
    obtain ⟨scope, leads⟩ : ∃ scope, (past.add root start).Leads moment.machine
        ⟨.target node access name, frames, walk⟩ name.lexeme distance scope :=
          mirrors.leads isDistance
    refine ⟨scope, ?_, leads⟩
    -- the scope is not the global one, since there are as many frames as scopes before that
    obtain ⟨frame, isFrame, -⟩ := leads.opened
    have inside : distance < scopes.length := by
      rw [← opened.length_eq]
      exact (List.getElem?_eq_some_iff.mp isFrame).1
    rw [← List.getElem?_append_left inside, ← chain.ancestor?]
    exact leads.ancestor

/-- A function that reads a variable of the block around it finds the scope of that block one step
outward. -/
theorem closure_reads_outer_block :
    ∃ (past : Past) (root : Site) (start moment : Moment) (node : NodeId)
      (name : Token) (site : Site) (scopes : List ScopeId) (scope : ScopeId),
      Session.Begins (.start fun _ => 0) (.run 20 "\x7b var a; fun f() \x7b a; \x7d f(); \x7d")
        root start 2 ∧
      Reaches start moment ∧ moment.Accesses node .read name ∧
      past.Surrounds moment.machine site scopes ∧
      past.Leads moment.machine site name.lexeme 1 scope := by
  have reached : ∃ root start, Session.Begins (.start fun _ => 0)
      (.run 20 "\x7b var a; fun f() \x7b a; \x7d f(); \x7d") root start 2 ∧
      ∃ moment, Reaches start moment ∧
      moment.Accesses ⟨0⟩ .read ⟨.identifier, "a", 1⟩ ∧
      moment.machine.distances.get? ⟨0⟩ = some 1 :=
    ⟨_, _, .run rfl rfl, _, .head .programStatement <| .head .block <|
      .head (.otherStatements rfl) <|
      .head (.otherStatements rfl) <| .head .firstStatement <| .head .expressionStatement <|
      .head (.call rfl rfl) <| .head (.body rfl) <| .head .firstStatement <|
      .head .expressionStatement .refl, .read, rfl⟩
  obtain ⟨root, start, begins, moment, reaches, accesses, distance⟩ := reached
  obtain ⟨site, scopes, -, -, -, surrounds, -, leads⟩ :=
    environments_mirror_scopes .start begins reaches accesses
  obtain ⟨scope, -, leads⟩ := leads 1 distance
  exact ⟨_, root, start, moment, _, _, site, scopes, scope, begins, reaches,
    accesses, surrounds, leads⟩

end Lox
