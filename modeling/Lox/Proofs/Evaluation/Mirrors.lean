/-
**The scopes of a machine, and the text that they were opened for.**

* `Past` — the texts that were run so far, and all moments of their runs.
* `Past.Opened frame scope` — the scope was opened by running this block, or by calling a function
  that was made from this body.
* `Past.Mirrors` — the scopes from one outward are those that were opened for these frames,
  innermost first, and then the global one; what may be read in a frame is bound in its scope. This
  stays so in all later stores (`Mirrors.extend`).
* `Past.ClosureFits` — a function was made at some moment from a body in the texts, in scopes that
  mirror the frames of that body.
* `Machine.Fits` — all functions that a machine holds are such, and its distances are those of the
  texts.
-/

import Lox.Proofs.Evaluation.Moments
import Lox.Proofs.Evaluation.Stores
import Lox.Proofs.Scoping.Marks
import Lox.Proofs.Scoping.Nodes

namespace Lox

/-! ### What has been run -/

/-- The texts that were run so far, and the moments of their runs. -/
structure Past where
  /-- One outermost site for each text. -/
  roots : List Site
  moments : Moment → Prop

/-- At this moment this function is made. -/
inductive Makes : Moment → Closure → Prop
  | lambda {fuel keyword body machine} :
      Makes ⟨fuel + 1, .expression (.lambda keyword body), machine⟩
        ⟨machine.nextFunction, none, body, machine.scope⟩
  | declaration {fuel name body machine} :
      Makes ⟨fuel + 1, .statement (.function name body), machine⟩
        ⟨machine.nextFunction, some name.lexeme, body, machine.scope⟩

namespace Past

variable (past : Past)

/-- A site somewhere in the texts. -/
def Holds (site : Site) : Prop :=
  ∃ root ∈ past.roots, Within root site

/-- The function was made at some moment. -/
def Made (closure : Closure) : Prop :=
  ∃ maker, past.moments maker ∧ Makes maker closure

/-- The scope was opened at some moment, for this frame: by running the block, or by calling a
function made from the body. -/
inductive Opened : Frame → ScopeId → Prop
  | block {fuel forms machine} :
      past.moments ⟨fuel + 1, .statement (.block forms), machine⟩ →
      Opened (.block forms) machine.store.nextId
  | function {fuel closure closing arguments machine} :
      past.moments ⟨fuel + 1, .call (.function closure) closing arguments, machine⟩ →
      Run.checkCall closing closure.body.arity arguments.length machine = .done () machine →
      past.Made closure →
      Opened (.function (.ofName closure.name) closure.body) machine.store.nextId

/-- The scopes from this one outward are those that were opened for the frames, and then the global
one. What the marks allow to be read in a frame is bound in its scope. -/
inductive Mirrors (store : Store) (globals : ScopeId) :
    ScopeId → List Frame → List (Names Bool) → Prop
  | globals : Mirrors store globals globals [] []
  | scope {scope outer : ScopeId} {frame : Frame} {names : Names Bool} {frames : List Frame}
      {stack : List (Names Bool)} :
      past.Opened frame scope → store.enclosing? scope = some outer →
      (∀ name, names.get? name = some true → (store.local? scope name).isSome) →
      Mirrors store globals outer frames stack →
      Mirrors store globals scope (frame :: frames) (names :: stack)

/-- The function was made at some moment, from a body in the texts whose frames are mirrored by the
scopes it was made in. -/
def ClosureFits (store : Store) (globals : ScopeId) (closure : Closure) : Prop :=
  past.Made closure ∧ ∃ frames walk,
    past.Holds ⟨.function (.ofName closure.name) closure.body, frames, walk⟩ ∧
    past.Mirrors store globals closure.scope frames walk.scopes

/-- If the value is a function that a program has made, it fits. -/
def ValueFits (store : Store) (globals : ScopeId) : Value → Prop
  | .function closure => past.ClosureFits store globals closure
  | _ => True

/-- All texts are outermost, the walk found no defect in them, no branch and no body of a
loop in them declares anything, and no node stands in two places. Each moment that
another one enters is one, too. -/
structure Proper : Prop where
  outermost : ∀ root ∈ past.roots, root.walk = .start ∧ root.frames = []
  clean : ∀ root ∈ past.roots, root.after.diagnostics = []
  wellFormed : ∀ root ∈ past.roots, root.WellFormed
  nodup : (past.roots.flatMap fun root => root.part.nodes).Nodup
  closed : ∀ {before after}, past.moments before → Enters before after → past.moments after

variable {past}

theorem Holds.of_child {site child : Site} (holds : past.Holds site)
    (isChild : child ∈ site.children) :
    past.Holds child := by
  obtain ⟨root, isRoot, within⟩ := holds
  exact ⟨root, isRoot, within.step isChild⟩

theorem Proper.wellFormed_of_holds (proper : past.Proper) {site : Site} (holds : past.Holds site) :
    site.WellFormed := by
  obtain ⟨root, isRoot, within⟩ := holds
  exact (proper.wellFormed root isRoot).within within

/-! ### Scopes that mirror frames -/

namespace Mirrors

variable {store later : Store} {globals scope : ScopeId} {frames : List Frame}
  {stack : List (Names Bool)}

/-- **Scopes that mirror frames do so in all later stores.** -/
theorem extend (mirrors : past.Mirrors store globals scope frames stack)
    (extension : store.Extends later) :
    past.Mirrors later globals scope frames stack := by
  induction mirrors with
  | globals => exact .globals
  | scope opened enclosing bound _ ih =>
    refine .scope opened ?_ (fun name readable => extension.isSome_local? (bound name readable)) ih
    rw [extension.enclosing? (Store.isSome_of_enclosing? enclosing)]
    exact enclosing

/-- Where frames are mirrored, there is a scope. -/
theorem isSome_scope? (mirrors : past.Mirrors store globals scope frames stack)
    (found : (store.scope? globals).isSome) : (store.scope? scope).isSome := by
  cases mirrors with
  | globals => exact found
  | scope _ enclosing => exact Store.isSome_of_enclosing? enclosing

/-- A name may be marked in the innermost frame, but as readable only if it is bound. -/
theorem mark (mirrors : past.Mirrors store globals scope frames stack) {name : String}
    {isReady : Bool} (bound : isReady = true → (store.local? scope name).isSome) :
    past.Mirrors store globals scope frames
      (stack.modifyHead fun innermost => innermost.set name isReady) := by
  cases mirrors with
  | globals => exact .globals
  | scope opened enclosing readable outer =>
    refine .scope opened enclosing (fun other isReadable => ?_) outer
    rw [Names.get?_set] at isReadable
    split at isReadable
    case isTrue same =>
      rw [same]
      exact bound (Option.some.inj isReadable)
    case isFalse => exact readable other isReadable

/-- A name that is bound may be marked as readable. -/
theorem define {walk : Walk} (mirrors : past.Mirrors store globals scope frames walk.scopes)
    (name : Token) (bound : (store.local? scope name.lexeme).isSome) :
    past.Mirrors store globals scope frames (walk.define name).scopes := by
  rw [Walk.define, Walk.scopes_mark]
  exact mirrors.mark fun _ => bound

/-- Any name may be marked as not readable yet. -/
theorem declare {walk : Walk} (mirrors : past.Mirrors store globals scope frames walk.scopes)
    (name : Token) : past.Mirrors store globals scope frames (walk.declare name).scopes := by
  rw [Walk.scopes_declare, Walk.scopes_mark]
  exact mirrors.mark nofun

end Mirrors

theorem ValueFits.extend {store later : Store} {globals : ScopeId} {value : Value}
    (fits : past.ValueFits store globals value) (extension : store.Extends later) :
    past.ValueFits later globals value := by
  cases value with
  | function closure =>
    obtain ⟨made, frames, walk, holds, mirrors⟩ := fits
    exact ⟨made, frames, walk, holds, mirrors.extend extension⟩
  | _ => trivial

end Past

/-! ### Machines -/

variable {past : Past}

/-- The global scope is there and in no other, all values that are bound fit, and each variable that
is read or assigned in the texts has the distance that the walk has found. -/
structure Machine.Fits (past : Past) (machine : Machine) : Prop where
  globals : ∃ bindings, machine.store.scope? machine.globals = some ⟨bindings, none⟩
  values : ∀ scope name value, machine.store.local? scope name = some value →
    past.ValueFits machine.store machine.globals value
  distances : ∀ node access name frames walk, past.Holds ⟨.target node access name, frames, walk⟩ →
    machine.distances.get? node = distanceTo? name.lexeme walk.scopes

/-- A part of the texts is come to in scopes that mirror its frames. -/
def Machine.At (past : Past) (machine : Machine) (part : Part) : Prop :=
  ∃ frames walk, past.Holds ⟨part, frames, walk⟩ ∧
    past.Mirrors machine.store machine.globals machine.scope frames walk.scopes

/-- A machine that evaluation leaves in the scope it started in. -/
structure Machine.Follows (past : Past) (machine later : Machine) : Prop where
  fits : later.Fits past
  store : machine.store.Extends later.store
  scope : later.scope = machine.scope
  globals : later.globals = machine.globals
  distances : later.distances = machine.distances

namespace Machine

variable {machine middle later : Machine}

theorem Fits.isSome_globals (fits : machine.Fits past) :
    (machine.store.scope? machine.globals).isSome := by
  obtain ⟨bindings, found⟩ := fits.globals
  rw [found]
  rfl

/-- What fits does not depend on the scope, the calls in progress, the output or the clock. -/
theorem Fits.of_same (fits : machine.Fits past) (store : later.store = machine.store)
    (globals : later.globals = machine.globals) (distances : later.distances = machine.distances) :
    later.Fits past := by
  refine ⟨?_, ?_, ?_⟩
  · rw [store, globals]
    exact fits.globals
  · rw [store, globals]
    exact fits.values
  · rw [distances]
    exact fits.distances

/-- A scope may be opened anywhere. -/
theorem Fits.add (fits : machine.Fits past) (enclosing : Option ScopeId) :
    Fits past { machine with store := machine.store.add enclosing } := by
  have extension := Store.extends_add machine.store enclosing
  refine ⟨?_, fun scope name value bound => ?_, fits.distances⟩
  · obtain ⟨bindings, found⟩ := fits.globals
    refine ⟨bindings, ?_⟩
    have isOld : machine.globals ≠ machine.store.nextId := by
      intro isNew
      rw [isNew, Store.scope?_nextId] at found
      cases found
    rw [Store.scope?_add, if_neg isOld, found]
  · rw [Store.local?_add] at bound
    split at bound
    · cases bound
    · exact (fits.values scope name value bound).extend extension

/-- A name may be bound to a value that fits after it is bound. -/
theorem Fits.define (fits : machine.Fits past) {target : ScopeId} {name : String} {value : Value}
    (valueFits : past.ValueFits (machine.store.define target name value) machine.globals value) :
    (machine.define target name value).Fits past := by
  have extension := Store.extends_define machine.store target name value
  refine ⟨?_, fun scope other found bound => ?_, fits.distances⟩
  · obtain ⟨bindings, found⟩ := fits.globals
    unfold Machine.define
    dsimp only
    rw [Store.scope?_define, found]
    split <;> exact ⟨_, rfl⟩
  · have bound : (machine.store.define target name value).local? scope other = some found := bound
    rw [Store.local?_define] at bound
    split at bound
    · obtain rfl := Option.some.inj bound
      exact valueFits
    · exact (fits.values scope other found bound).extend extension

/-- Names may be bound to values that fit. -/
theorem Fits.defineAll (fits : machine.Fits past) (target : ScopeId)
    (bindings : List (String × Value))
    (valuesFit : ∀ binding ∈ bindings, past.ValueFits machine.store machine.globals binding.2) :
    Fits past { machine with store := machine.store.defineAll target bindings } := by
  induction bindings generalizing machine with
  | nil => exact fits
  | cons binding rest ih =>
    have extension := Store.extends_define machine.store target binding.1 binding.2
    have defined : (machine.define target binding.1 binding.2).Fits past :=
      fits.define ((valuesFit binding List.mem_cons_self).extend extension)
    exact ih defined fun other isOther =>
      (valuesFit other (List.mem_cons_of_mem _ isOther)).extend extension

namespace Follows

theorem refl (fits : machine.Fits past) : machine.Follows past machine :=
  ⟨fits, .refl _, rfl, rfl, rfl⟩

theorem trans (first : machine.Follows past middle) (second : middle.Follows past later) :
    machine.Follows past later :=
  ⟨second.fits, first.store.trans second.store, second.scope.trans first.scope,
    second.globals.trans first.globals, second.distances.trans first.distances⟩

theorem valueFits (follows : machine.Follows past later) {value : Value}
    (fits : past.ValueFits machine.store machine.globals value) :
    past.ValueFits later.store later.globals value := by
  rw [follows.globals]
  exact fits.extend follows.store

end Follows

/-- What is come to in a machine could be come to in all that follow. -/
theorem At.follow {part : Part} (isAt : machine.At past part)
    (follows : machine.Follows past later) :
    later.At past part := by
  obtain ⟨frames, walk, holds, mirrors⟩ := isAt
  refine ⟨frames, walk, holds, ?_⟩
  rw [follows.scope, follows.globals]
  exact mirrors.extend follows.store

end Machine

end Lox
