/-
**Words and lists in parentheses.**

* `Form` — a word, or a list of forms. `Form.chars` writes a list in parentheses with spaces in
  between, and `charsOfAll` writes forms with any separator in between.
* `IsWord`, `Form.Legible` — the words of a form have no separators and no parentheses in them.
* `Form.decompose`, `decomposeAll` — a text starts with at most one legible form, and with at most
  one sequence of them, if what follows could not belong to it.
-/

import Mathlib.Tactic.MkIffOfInductiveProp

namespace Lox

/-! ### Forms as text -/

/-- A word, or a list of forms. -/
inductive Form where
  | word (text : String)
  | list (forms : List Form)

mutual

/-- The text of a form. -/
@[simp]
def Form.chars : Form → List Char
  | .word text => text.toList
  | .list forms => '(' :: (charsOfAll ' ' forms ++ [')'])

/-- The texts of forms with a separator between them. -/
@[simp]
def charsOfAll (separator : Char) : List Form → List Char
  | [] => []
  | first :: rest => first.chars ++ charsOfRest separator rest

/-- The texts of forms with a separator before each of them. -/
@[simp]
def charsOfRest (separator : Char) : List Form → List Char
  | [] => []
  | first :: rest => separator :: (first.chars ++ charsOfRest separator rest)

end

theorem charsOfAll_eq (separator : Char) (forms : List Form) :
    charsOfAll separator forms = [separator].intercalate (forms.map Form.chars) := by
  induction forms with
  | nil => rfl
  | cons first rest ih =>
    cases rest with
    | nil => simp
    | cons second others =>
      rw [List.map_cons, List.map_cons, List.intercalate_cons_cons, ← List.map_cons, ← ih]
      simp

/-- A character that no word has. -/
def IsBreak (c : Char) : Prop :=
  c = ' ' ∨ c = '\n' ∨ c = '(' ∨ c = ')'

instance (c : Char) : Decidable (IsBreak c) :=
  inferInstanceAs (Decidable (_ ∨ _ ∨ _ ∨ _))

/-- At least one character, and none that no word has. -/
@[mk_iff]
structure IsWord (text : String) : Prop where
  ne_nil : text.toList ≠ []
  noBreak : ∀ c ∈ text.toList, ¬ IsBreak c

mutual

/-- All words in a form are words. -/
def Form.Legible : Form → Prop
  | .word text => IsWord text
  | .list forms => AllLegible forms

/-- All words in forms are words. -/
def AllLegible : List Form → Prop
  | [] => True
  | first :: rest => first.Legible ∧ AllLegible rest

end

/-! ### One way to read a text -/

/-- What comes after a word is no part of it. -/
def Stops (after : List Char) : Prop :=
  ∀ c ∈ after.head?, IsBreak c

/-- What comes after forms is no part of the last one and starts no other. -/
def Closes (separator : Char) (after : List Char) : Prop :=
  ∀ c ∈ after.head?, IsBreak c ∧ c ≠ separator ∧ c ≠ '('

theorem Form.Legible.opens {form : Form} (legible : form.Legible) :
    ∃ c others, form.chars = c :: others ∧ (IsBreak c → c = '(') := by
  cases form with
  | word text =>
    obtain ⟨c, others, isText⟩ := List.exists_cons_of_ne_nil legible.ne_nil
    refine ⟨c, others, isText, fun isBreak => absurd isBreak (legible.noBreak c ?_)⟩
    rw [isText]
    exact List.mem_cons_self
  | list forms => exact ⟨'(', _, rfl, fun _ => rfl⟩

theorem Closes.stops {separator : Char} {after : List Char} (closes : Closes separator after) :
    Stops after :=
  fun c isNext => (closes c isNext).1

theorem stops_charsOfRest {separator : Char} (isBreak : IsBreak separator) (forms : List Form)
    {after : List Char} (closes : Closes separator after) :
    Stops (charsOfRest separator forms ++ after) := by
  cases forms with
  | nil => exact closes.stops
  | cons first rest =>
    rintro c isNext
    obtain rfl := Option.some.inj isNext
    exact isBreak

/-- What closes a sequence of forms starts no further form. -/
theorem Closes.ne_chars {separator : Char} {after : List Char} (closes : Closes separator after)
    {form : Form} (legible : form.Legible) (others : List Char) : after ≠ form.chars ++ others := by
  rintro rfl
  obtain ⟨c, more, isText, onlyList⟩ := legible.opens
  rw [isText] at closes
  obtain ⟨isBreak, -, notList⟩ := closes c rfl
  exact notList (onlyList isBreak)

theorem takeWhile_word {text : String} (isWord : IsWord text) {after : List Char}
    (stops : Stops after) :
    (text.toList ++ after).takeWhile (¬ IsBreak ·) = text.toList := by
  have all : ∀ c ∈ text.toList, decide (¬ IsBreak c) = true :=
    fun c isOne => decide_eq_true (isWord.noBreak c isOne)
  rw [List.takeWhile_append_of_pos all]
  cases after with
  | nil => exact List.append_nil _
  | cons c others => rw [List.takeWhile_cons_of_neg (by simpa using stops c rfl), List.append_nil]

/-- Words end where something comes that is no part of a word. -/
theorem word_unique {first second : String} (isWord : IsWord first) (isWordToo : IsWord second)
    {rest after : List Char} (stops : Stops rest) (stopsToo : Stops after)
    (same : first.toList ++ rest = second.toList ++ after) : first = second ∧ rest = after := by
  have sameLetters : first.toList = second.toList := by
    rw [← takeWhile_word isWord stops, same, takeWhile_word isWordToo stopsToo]
  rw [sameLetters] at same
  exact ⟨String.toList_inj.mp sameLetters, List.append_cancel_left same⟩

theorem word_ne_list {text : String} (isWord : IsWord text) (rest others : List Char) :
    text.toList ++ rest ≠ '(' :: others := by
  intro same
  obtain ⟨c, letters, isText⟩ := List.exists_cons_of_ne_nil isWord.ne_nil
  have noBreak := isWord.noBreak c (by rw [isText]; exact List.mem_cons_self)
  rw [isText] at same
  obtain rfl := (List.cons.inj same).1
  exact noBreak (by decide)

theorem closes_parenthesis (after : List Char) : Closes ' ' (')' :: after) := by
  rintro c isNext
  obtain rfl := Option.some.inj isNext
  decide

theorem charsOfAll_of_rest {separator : Char} {forms others : List Form} {rest after : List Char}
    (closes : Closes separator rest) (closesToo : Closes separator after)
    (same : charsOfRest separator forms ++ rest = charsOfRest separator others ++ after) :
    charsOfAll separator forms ++ rest = charsOfAll separator others ++ after := by
  cases forms <;> cases others
  · exact same
  · obtain rfl : rest = _ := same
    exact absurd rfl (closes separator rfl).2.1
  · obtain rfl : _ = after := same
    exact absurd rfl (closesToo separator rfl).2.1
  · exact (List.cons.inj same).2

mutual

/-- **A text starts with at most one form,** if what comes after it could not belong to it. -/
theorem Form.decompose :
    (first second : Form) → first.Legible → second.Legible → {rest after : List Char} →
    Stops rest → Stops after → first.chars ++ rest = second.chars ++ after →
    first = second ∧ rest = after
  | .word _, .word _, legible, legibleToo, _, _, stops, stopsToo, same => by
    obtain ⟨rfl, sameRest⟩ := word_unique legible legibleToo stops stopsToo same
    exact ⟨rfl, sameRest⟩
  | .word _, .list _, legible, _, _, _, _, _, same => absurd same (word_ne_list legible _ _)
  | .list _, .word _, _, legible, _, _, _, _, same => absurd same.symm (word_ne_list legible _ _)
  | .list forms, .list others, legible, legibleToo, rest, after, _, _, same => by
    have inside : charsOfAll ' ' forms ++ ')' :: rest = charsOfAll ' ' others ++ ')' :: after := by
      simpa [Form.chars] using same
    obtain ⟨rfl, sameRest⟩ :=
      decomposeAll (.inl rfl) forms others legible legibleToo (closes_parenthesis rest)
      (closes_parenthesis after) inside
    exact ⟨rfl, (List.cons.inj sameRest).2⟩

/-- **A text starts with at most one sequence of forms,** if what comes after it could not belong to
it. -/
theorem decomposeAll {separator : Char} (isBreak : IsBreak separator) : (forms others : List Form) →
    AllLegible forms → AllLegible others → {rest after : List Char} → Closes separator rest →
    Closes separator after →
    charsOfAll separator forms ++ rest = charsOfAll separator others ++ after →
    forms = others ∧ rest = after
  | [], [], _, _, _, _, _, _, same => ⟨rfl, same⟩
  | [], _ :: _, _, legible, _, _, closes, _, same => by
    rw [charsOfAll, charsOfAll, List.append_assoc] at same
    exact absurd same (closes.ne_chars legible.1 _)
  | _ :: _, [], legible, _, _, _, _, closes, same => by
    rw [charsOfAll, charsOfAll, List.append_assoc] at same
    exact absurd same.symm (closes.ne_chars legible.1 _)
  | first :: forms, second :: others, legible, legibleToo, _, _, closes, closesToo, same => by
    rw [charsOfAll, charsOfAll, List.append_assoc, List.append_assoc] at same
    obtain ⟨rfl, sameRest⟩ := Form.decompose first second legible.1 legibleToo.1
      (stops_charsOfRest isBreak forms closes) (stops_charsOfRest isBreak others closesToo) same
    obtain ⟨rfl, sameAfter⟩ :=
      decomposeAll isBreak forms others legible.2 legibleToo.2 closes closesToo
      (charsOfAll_of_rest closes closesToo sameRest)
    exact ⟨rfl, sameAfter⟩

end

/-- Legible forms on lines of their own are determined by their text. -/
theorem forms_of_lines {forms others : List Form} (legible : AllLegible forms)
    (legibleToo : AllLegible others) (same : charsOfAll '\n' forms = charsOfAll '\n' others) :
    forms = others := by
  have ends : Closes '\n' [] := nofun
  exact (decomposeAll (.inr (.inl rfl)) forms others legible legibleToo ends ends
    (congrArg (· ++ []) same)).1

end Lox
