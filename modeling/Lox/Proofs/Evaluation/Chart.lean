/-
**Machines that match, though some scopes are missing in one of them.**

* `Correspondence`, `Chart` — for each scope of a fuller store, the scope that it is in a sparser
  one, or that the sparser one does not have it.
* `Chart.Around` — from a scope of the fuller store outward, and from one of the sparser store
  outward, there are the same scopes, but for the skipped ones.
* `Value.Matches`, `Store.Matches`, `Machine.Matches` — the same values, stores and
  machines, where functions are made in scopes around which there are the same, and have
  bodies that resolve alike there.
* `Store.Matches.ancestor?` — distances that lead to the same scope do so in both stores. What is
  read, assigned and declared is then the same (`valueAt?`, `targetOf?`, `define`), and scopes may
  be opened in both stores or in the fuller one alone (`open`, `openSkipped`).
-/

import Lox.Proofs.Evaluation.Accord
import Lox.Proofs.Scoping.Skipped

namespace Lox

/-! ### Charts -/

/-- What a scope of the fuller store is in the sparser one. -/
inductive Correspondence where
  /-- It is this scope there. These are the scopes around it, in either store. -/
  | kept (image : ScopeId) (enclosing enclosing' : Option ScopeId)
  /-- It is not there. -/
  | skipped (enclosing : ScopeId)

namespace Correspondence

/-- The scope around it in the fuller store. -/
def enclosing : Correspondence → Option ScopeId
  | .kept _ enclosing _ => enclosing
  | .skipped enclosing => some enclosing

/-- The scope that it is in the sparser store. -/
def image? : Correspondence → Option ScopeId
  | .kept image _ _ => some image
  | .skipped _ => none

end Correspondence

/-- All scopes of the fuller store. -/
abbrev Chart : Type :=
  List Correspondence

namespace Chart

variable {chart later : Chart} {scope image : ScopeId} {entry : Correspondence}
  {stack : List Standing}

/-- What is known about a scope of the fuller store. -/
def at? (chart : Chart) (scope : ScopeId) : Option Correspondence :=
  chart[scope.index]?

/-- The scope that a scope is in the sparser store. -/
def image? (chart : Chart) (scope : ScopeId) : Option ScopeId :=
  (chart.at? scope).bind Correspondence.image?

theorem image?_of_kept {enclosing enclosing' : Option ScopeId}
    (known : chart.at? scope = some (.kept image enclosing enclosing')) :
    chart.image? scope = some image := by
  rw [image?, known]
  rfl

theorem at?_mono (extension : chart <+: later) (known : chart.at? scope = some entry) :
    later.at? scope = some entry := by
  obtain ⟨more, rfl⟩ := extension
  obtain ⟨inside, -⟩ := List.getElem?_eq_some_iff.mp known
  exact (List.getElem?_append_left inside).trans known

theorem image?_mono (extension : chart <+: later) (known : chart.image? scope = some image) :
    later.image? scope = some image := by
  obtain ⟨entry, isEntry, isImage⟩ := Option.bind_eq_some_iff.mp known
  exact Option.bind_eq_some_iff.mpr ⟨entry, at?_mono extension isEntry, isImage⟩

theorem at?_append (chart : Chart) (entry : Correspondence) (scope : ScopeId) :
    at? (chart ++ [entry]) scope =
      if scope = ⟨chart.length⟩ then some entry else chart.at? scope := by
  obtain ⟨index⟩ := scope
  unfold at?
  by_cases isNew : index = chart.length
  · subst isNew
    rw [if_pos rfl]
    exact List.getElem?_concat_length
  · rw [if_neg fun same => isNew (congrArg ScopeId.index same), List.getElem?_append]
    split
    · rfl
    · rename_i outside
      have beyond : chart.length < index :=
        Nat.lt_of_le_of_ne (Nat.le_of_not_lt outside) (Ne.symm isNew)
      rw [List.getElem?_eq_none (by rw [List.length_singleton]; exact Nat.sub_pos_of_lt beyond),
        List.getElem?_eq_none (Nat.le_of_lt beyond)]

theorem image?_append (chart : Chart) (entry : Correspondence) (scope : ScopeId) :
    image? (chart ++ [entry]) scope =
      if scope = ⟨chart.length⟩ then entry.image? else chart.image? scope := by
  unfold image?
  rw [at?_append]
  split <;> rfl

/-- From the two scopes outward there are the same scopes, but for the skipped ones. -/
inductive Around (chart : Chart) : List Standing → ScopeId → ScopeId → Prop
  | outermost {scope image : ScopeId} : chart.at? scope = some (.kept image none none) →
      Around chart [] scope image
  | kept {stack : List Standing} {scope image outer outer' : ScopeId} :
      chart.at? scope = some (.kept image (some outer) (some outer')) →
      Around chart stack outer outer' →
      Around chart (.kept :: stack) scope image
  | skipped {stack : List Standing} {scope outer image : ScopeId} :
      chart.at? scope = some (.skipped outer) → Around chart stack outer image →
      Around chart (.skipped :: stack) scope image

theorem Around.mono (around : chart.Around stack scope image) (extension : chart <+: later) :
    later.Around stack scope image := by
  induction around with
  | outermost known => exact .outermost (at?_mono extension known)
  | kept known _ ih => exact .kept (at?_mono extension known) ih
  | skipped known _ ih => exact .skipped (at?_mono extension known) ih

/-- A scope that is not skipped is its counterpart. -/
theorem Around.image? (around : chart.Around stack scope image)
    (kept : stack.head? ≠ some .skipped) :
    chart.image? scope = some image := by
  cases around with
  | outermost known | kept known => exact Chart.image?_of_kept known
  | skipped => exact absurd rfl kept

end Chart

/-! ### Values -/

/-- The same values, but for functions. Those are made in scopes around which there are the same,
and one of the bodies is the other with other nodes, and resolves alike. -/
inductive Value.Matches (lookups : Lookups) (chart : Chart) : Value → Value → Prop
  | function {identity : Nat} {name : Option String} {body : FunctionBody}
      {change : NodeId → NodeId} {stack : List Standing} {scope image : ScopeId} :
      chart.Around stack scope image → body.ResolvesAlike lookups change stack →
      Matches lookups chart (.function ⟨identity, name, body, scope⟩)
        (.function ⟨identity, name, body.relabel ⟨change, id⟩, image⟩)
  | plain (value : Value) : (∀ closure, value ≠ .function closure) →
      Matches lookups chart value value

namespace Value.Matches

variable {lookups : Lookups} {chart later : Chart} {value other : Value}

theorem mono (both : Matches lookups chart value other) (extension : chart <+: later) :
    Matches lookups later value other := by
  cases both with
  | function around body => exact .function (around.mono extension) body
  | plain value notFunction => exact .plain value notFunction

theorem resembles (both : Matches lookups chart value other) : value.Resembles other := by
  cases both with
  | function => exact .function rfl rfl
  | plain => exact .plain _

end Value.Matches

/-! ### Stores -/

/-- The scopes of the stores are those of the chart, and what is kept binds values that match. -/
structure Store.Matches (lookups : Lookups) (chart : Chart) (store other : Store) : Prop where
  size : store.size = chart.length
  enclosing : ∀ scope, store.enclosing? scope = (chart.at? scope).bind Correspondence.enclosing
  enclosing' : ∀ scope image outer outer', chart.at? scope = some (.kept image outer outer') →
    other.enclosing? image = outer'
  isSome : ∀ scope image, chart.image? scope = some image → (other.scope? image).isSome
  injective : ∀ first second image, chart.image? first = some image →
    chart.image? second = some image → first = second
  values : ∀ scope image, chart.image? scope = some image → ∀ name,
    Option.Rel (Value.Matches lookups chart) (store.local? scope name) (other.local? image name)

namespace Store.Matches

variable {lookups : Lookups} {chart : Chart} {store other : Store}

theorem nextId (both : Matches lookups chart store other) : store.nextId = ⟨chart.length⟩ :=
  congrArg ScopeId.mk both.size

/-- A scope of the chart is there. -/
theorem isSome_scope? (both : Matches lookups chart store other) {scope image : ScopeId}
    (known : chart.image? scope = some image) : (store.scope? scope).isSome := by
  obtain ⟨entry, isEntry, -⟩ := Option.bind_eq_some_iff.mp known
  obtain ⟨inside, -⟩ := List.getElem?_eq_some_iff.mp isEntry
  rw [isSome_scope?_iff, both.size]
  exact inside

/-- Values that match go on to do so when more is known. -/
theorem mono_values (both : Matches lookups chart store other) {later : Chart}
    (extension : chart <+: later) {scope image : ScopeId} (known : chart.image? scope = some image)
    (name : String) :
    Option.Rel (Value.Matches lookups later) (store.local? scope name)
      (other.local? image name) := by
  have before := both.values scope image known name
  generalize store.local? scope name = first at before ⊢
  generalize other.local? image name = second at before ⊢
  cases before with
  | some value => exact .some (value.mono extension)
  | none => exact .none

/-- The new scope of the sparser store is none that was there. -/
theorem ne_nextId (both : Matches lookups chart store other) {scope image : ScopeId}
    (known : chart.image? scope = some image) : image ≠ other.nextId := by
  rintro rfl
  have found := both.isSome _ _ known
  rw [Store.scope?_nextId] at found
  cases found

/-- A scope is opened in both stores. -/
theorem «open» (both : Matches lookups chart store other) (outer outer' : ScopeId) :
    Matches lookups (chart ++ [.kept other.nextId (some outer) (some outer')])
      (store.add (some outer)) (other.add (some outer')) := by
  have extension : chart <+: chart ++ [.kept other.nextId (some outer) (some outer')] :=
    List.prefix_append _ _
  have images (scope image : ScopeId)
      (known : Chart.image? (chart ++ [.kept other.nextId (some outer) (some outer')]) scope =
        some image) :
      scope = ⟨chart.length⟩ ∧ image = other.nextId ∨ scope ≠ ⟨chart.length⟩ ∧
        chart.image? scope = some image := by
    rw [Chart.image?_append] at known
    by_cases isNew : scope = ⟨chart.length⟩
    · rw [if_pos isNew] at known
      exact .inl ⟨isNew, (Option.some.inj known).symm⟩
    · rw [if_neg isNew] at known
      exact .inr ⟨isNew, known⟩
  refine ⟨?_, fun scope => ?_, fun scope image around around' known => ?_,
    fun scope image known => ?_, fun first second image known known' => ?_,
    fun scope image known name => ?_⟩
  · rw [size_add, both.size, List.length_append]
    rfl
  · rw [enclosing?_add, both.nextId, both.enclosing, Chart.at?_append]
    split <;> rfl
  · rw [Chart.at?_append] at known
    by_cases isNew : scope = ⟨chart.length⟩
    · rw [if_pos isNew] at known
      cases known
      rw [enclosing?_add, if_pos rfl]
    · rw [if_neg isNew] at known
      have isOld := both.ne_nextId (Chart.image?_of_kept known)
      rw [enclosing?_add, if_neg isOld]
      exact both.enclosing' scope image around around' known
  · rcases images scope image known with ⟨-, rfl⟩ | ⟨-, old⟩
    · rw [scope?_add, if_pos rfl]
      rfl
    · rw [scope?_add, if_neg (both.ne_nextId old)]
      exact both.isSome scope image old
  · rcases images first image known with ⟨rfl, isNew⟩ | ⟨-, old⟩
    · rcases images second image known' with ⟨rfl, -⟩ | ⟨-, old'⟩
      · rfl
      · exact absurd isNew (both.ne_nextId old')
    · rcases images second image known' with ⟨-, isNew⟩ | ⟨-, old'⟩
      · exact absurd isNew (both.ne_nextId old)
      · exact both.injective first second image old old'
  · rw [local?_add, local?_add, both.nextId]
    rcases images scope image known with ⟨rfl, rfl⟩ | ⟨isOld, old⟩
    · rw [if_pos rfl, if_pos rfl]
      exact .none
    · rw [if_neg isOld, if_neg (both.ne_nextId old)]
      exact both.mono_values extension old name

/-- A scope is opened in the fuller store alone. -/
theorem openSkipped (both : Matches lookups chart store other) (outer : ScopeId) :
    Matches lookups (chart ++ [.skipped outer]) (store.add (some outer)) other := by
  have extension : chart <+: chart ++ [.skipped outer] := List.prefix_append _ _
  have images (scope image : ScopeId)
      (known : Chart.image? (chart ++ [.skipped outer]) scope = some image) :
      scope ≠ ⟨chart.length⟩ ∧ chart.image? scope = some image := by
    rw [Chart.image?_append] at known
    by_cases isNew : scope = ⟨chart.length⟩
    · rw [if_pos isNew] at known
      cases known
    · rw [if_neg isNew] at known
      exact ⟨isNew, known⟩
  refine ⟨?_, fun scope => ?_, fun scope image around around' known => ?_,
    fun scope image known => both.isSome scope image (images scope image known).2,
    fun first second image known known' => both.injective first second image
      (images first image known).2 (images second image known').2, fun scope image known name => ?_⟩
  · rw [size_add, both.size, List.length_append]
    rfl
  · rw [enclosing?_add, both.nextId, both.enclosing, Chart.at?_append]
    split <;> rfl
  · rw [Chart.at?_append] at known
    split at known
    · cases known
    · exact both.enclosing' scope image around around' known
  · obtain ⟨isOld, old⟩ := images scope image known
    rw [local?_add, both.nextId, if_neg isOld]
    exact both.mono_values extension old name

/-- A name is bound in a scope that both stores have. -/
theorem define {value another : Value} {target image : ScopeId}
    (both : Matches lookups chart store other) (known : chart.image? target = some image)
    (name : String) (alike : Value.Matches lookups chart value another) :
    Matches lookups chart (store.define target name value) (other.define image name another) := by
  refine ⟨?_, fun scope => ?_, fun scope image around around' known => ?_,
    fun scope image known => ?_, both.injective, fun scope image' known' asked => ?_⟩
  · rw [size_define, both.size]
  · rw [enclosing?_define, both.enclosing]
  · rw [enclosing?_define]
    exact both.enclosing' scope image around around' known
  · exact (extends_define _ _ _ _).isSome_scope? (both.isSome scope image known)
  · have isThere := both.isSome_scope? known'
    have isThere' := both.isSome scope image' known'
    rw [local?_define, local?_define]
    by_cases isHere : scope = target ∧ asked = name
    · obtain ⟨rfl, rfl⟩ := isHere
      obtain rfl := Option.some_inj.mp (known'.symm.trans known)
      rw [if_pos ⟨rfl, rfl, isThere⟩, if_pos ⟨rfl, rfl, isThere'⟩]
      exact .some alike
    · have isNotHere : ¬(image' = image ∧ asked = name) := by
        rintro ⟨rfl, rfl⟩
        exact isHere ⟨both.injective _ _ _ known' known, rfl⟩
      rw [if_neg fun here => isHere ⟨here.1, here.2.1⟩,
        if_neg fun here => isNotHere ⟨here.1, here.2.1⟩]
      exact both.values scope image' known' asked

theorem defineAll {values others : List Value} {target image : ScopeId}
    (both : Matches lookups chart store other) (known : chart.image? target = some image)
    (names : List String) (alike : List.Forall₂ (Value.Matches lookups chart) values others) :
    Matches lookups chart (store.defineAll target (names.zip values))
      (other.defineAll image (names.zip others)) := by
  unfold Store.defineAll
  induction alike generalizing store other names with
  | nil =>
    rw [List.zip_nil_right]
    exact both
  | cons alikeFirst _ ih =>
    cases names with
    | nil => exact both
    | cons name names => exact ih (both.define known name alikeFirst) names

/-- **Distances that lead to the same scope do so in both stores.** -/
theorem ancestor? {scope image : ScopeId} {stack : List Standing} {distance distance' : Nat}
    (both : Matches lookups chart store other) (around : chart.Around stack scope image)
    (same : sparse? stack distance = some distance') :
    Option.Rel (fun target image => chart.image? target = some image)
      (store.ancestor? scope distance) (other.ancestor? image distance') := by
  induction around generalizing distance distance' with
  | @outermost scope image known =>
    obtain rfl := Option.some.inj same
    cases distance with
    | zero => exact .some (Chart.image?_of_kept known)
    | succ distance =>
      rw [Store.ancestor?, Store.ancestor?, both.enclosing, known, both.enclosing' _ _ _ _ known]
      exact .none
  | @kept stack scope image outer outer' known _ ih =>
    cases distance with
    | zero =>
      obtain rfl := Option.some.inj same
      exact .some (Chart.image?_of_kept known)
    | succ distance =>
      rw [sparse?] at same
      obtain ⟨further, isFurther, rfl⟩ := Option.map_eq_some_iff.mp same
      rw [Store.ancestor?, Store.ancestor?, both.enclosing, known, both.enclosing' _ _ _ _ known]
      exact ih isFurther
  | @skipped stack scope outer image known _ ih =>
    cases distance with
    | zero => cases same
    | succ distance =>
      rw [Store.ancestor?, both.enclosing, known]
      exact ih same

/-- Walking outward from the outermost scope finds the same in both stores. -/
theorem outermost {scope image : ScopeId} (both : Matches lookups chart store other)
    (known : chart.at? scope = some (.kept image none none)) (name : String) :
    Option.Rel (Value.Matches lookups chart) (store.get? scope name) (other.get? image name) ∧
      Option.Rel (fun target image => chart.image? target = some image) (store.holder? scope name)
        (other.holder? image name) := by
  have isImage := Chart.image?_of_kept known
  have alone : store.enclosing? scope = none := by
    rw [both.enclosing, known]
    rfl
  have alone' := both.enclosing' _ _ _ _ known
  have isThere := isSome_scope?_iff.mp (both.isSome_scope? isImage)
  have isThere' := isSome_scope?_iff.mp (both.isSome _ _ isImage)
  obtain ⟨steps, size⟩ : ∃ steps, store.size = steps + 1 := ⟨store.size - 1, by omega⟩
  obtain ⟨steps', size'⟩ : ∃ steps, other.size = steps + 1 := ⟨other.size - 1, by omega⟩
  have found := both.values scope image isImage name
  unfold Store.get? Store.holder?
  rw [size, size', Accords.getWithin_outermost alone, Accords.getWithin_outermost alone',
    Accords.holderWithin_outermost alone, Accords.holderWithin_outermost alone']
  generalize store.local? scope name = first at found ⊢
  generalize other.local? image name = second at found ⊢
  cases found with
  | some alike => exact ⟨.some alike, .some isImage⟩
  | none => exact ⟨.none, .none⟩

end Store.Matches

/-! ### Machines -/

/-- The same machines, but for the scopes that one of them does not have. -/
structure Machine.Matches (lookups : Lookups) (chart : Chart) (stack : List Standing)
    (machine other : Machine) :
    Prop where
  store : machine.store.Matches lookups chart other.store
  around : chart.Around stack machine.scope other.scope
  globals : chart.at? machine.globals = some (.kept other.globals none none)
  distances : machine.distances = lookups.fuller
  distances' : other.distances = lookups.sparser
  depth : other.depth = machine.depth
  output : other.output = machine.output
  sink : other.sink = machine.sink
  clock : other.clock = machine.clock
  ticks : other.ticks = machine.ticks
  nextFunction : other.nextFunction = machine.nextFunction

namespace Machine.Matches

variable {lookups : Lookups} {chart later : Chart} {stack : List Standing} {machine other : Machine}

/-- The machines go on with other stores, of which perhaps more scopes are known. -/
theorem ofStore {store another : Store} (both : Matches lookups chart stack machine other)
    (extension : chart <+: later) (alike : store.Matches lookups later another) :
    Matches lookups later stack { machine with store := store } { other with store := another } :=
  { both with
    store := alike
    around := both.around.mono extension
    globals := Chart.at?_mono extension both.globals }

section

variable {change : NodeId → NodeId} {node : NodeId}

/-- What a variable holds is found in both machines. -/
theorem valueAt? (both : Matches lookups chart stack machine other)
    (same : lookups.Same change stack node) (name : String) :
    Option.Rel (Value.Matches lookups chart) (machine.valueAt? node name)
      (other.valueAt? (change node) name) := by
  unfold Machine.valueAt?
  rw [both.distances, both.distances']
  unfold Lookups.Same SameScope at same
  generalize lookups.fuller.get? node = distance at same
  generalize lookups.sparser.get? (change node) = distance' at same
  cases same with
  | none => exact (both.store.outermost both.globals name).1
  | some same =>
    have targets := both.store.ancestor? both.around same
    unfold Store.getAt?
    dsimp only
    generalize machine.store.ancestor? machine.scope _ = target at targets
    generalize other.store.ancestor? other.scope _ = image at targets
    cases targets with
    | none => exact .none
    | some known => exact both.store.values _ _ known name

/-- An assignment goes to the same scope. -/
theorem targetOf? (both : Matches lookups chart stack machine other)
    (same : lookups.Same change stack node) (name : String) :
    Option.Rel (fun target image => chart.image? target = some image) (machine.targetOf? node name)
      (other.targetOf? (change node) name) := by
  unfold Machine.targetOf?
  rw [both.distances, both.distances']
  unfold Lookups.Same SameScope at same
  generalize lookups.fuller.get? node = distance at same
  generalize lookups.sparser.get? (change node) = distance' at same
  cases same with
  | none => exact (both.store.outermost both.globals name).2
  | some same => exact both.store.ancestor? both.around same

end

end Machine.Matches

end Lox
