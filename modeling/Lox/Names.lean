/-
**Names bound to things.**

* `Names α` — bindings of names, each name at most once, in the order in which they were first
  bound.
* `Names.get?`, `Names.has`, `Names.set` — looking a name up, and binding it anew. What `set` binds
  is what `get?` finds, and it leaves all other names alone (`get?_set`).
-/

namespace Lox

/-- Bindings of names. -/
abbrev Names (α : Type) : Type :=
  List (String × α)

namespace Names

variable {α : Type}

/-- What a name is bound to. -/
def get? : Names α → (name : String) → Option α
  | [], _ => none
  | (other, value) :: rest, name => if name = other then some value else get? rest name

/-- Whether a name is bound. -/
def has (names : Names α) (name : String) : Bool :=
  (names.get? name).isSome

/-- Binds a name, in the place of its old binding if it has one. -/
def set : Names α → (name : String) → (value : α) → Names α
  | [], name, value => [(name, value)]
  | (other, old) :: rest, name, value =>
    if name = other then (name, value) :: rest else (other, old) :: set rest name value

theorem get?_set (names : Names α) (name other : String) (value : α) :
    (names.set name value).get? other = if other = name then some value else names.get? other := by
  induction names with
  | nil => simp [set, get?]
  | cons binding rest ih =>
    obtain ⟨first, old⟩ := binding
    by_cases here : name = first
    · subst here
      by_cases same : other = name <;> simp [set, get?, same]
    · by_cases same : other = first
      · subst same
        simp [set, get?, here, Ne.symm here]
      · simp [set, get?, here, same, ih]

end Names

end Lox
