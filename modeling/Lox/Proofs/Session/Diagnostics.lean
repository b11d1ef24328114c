/-
**All that is wrong with a text is reported, in the order of the lines.**

* `Parse.Records` — what a parser finds wrong with a token list, in the order in which it records
  it. Of a list that ends with an end token, it is found with any amount of fuel from some amount on
  (`Settles.records`).
* `Merged` — the diagnostics of two lists, each once, in the order of the lines; on the same line,
  those of the first list come first, and each list keeps its order.
* `merged_inLineOrder` — a stable sort by lines does that. With no diagnostic of tokens there is
  nothing to sort, since a scanner hands out its items in the order of the lines
  (`merged_characters`).
* `reports_everything_in_order` — so programs and expressions are refused exactly if anything is
  wrong with their characters or their tokens, and all of it is reported.
-/

import Lox.Proofs.Grammar.Bounds
import Lox.Proofs.Scanning.Lines

namespace Lox

open Parse

/-! ### What a parser records -/

/-- What the parser records on the tokens, in this order; last is what ended the reading, if
anything did. More fuel does not matter. -/
inductive Parse.Records {α : Type} (parse : Nat → Parse α) (tokens : List Token) (nextNode : Nat) :
    List Diagnostic → Prop
  | done (value : α) (later : Cursor) :
      (∀ fuel, fuelFor tokens ≤ fuel → parse fuel ⟨tokens, [], nextNode⟩ = .done value later) →
      Records parse tokens nextNode later.diagnostics
  | failed (diagnostic : Diagnostic) (later : Cursor) :
      (∀ fuel, fuelFor tokens ≤ fuel →
        parse fuel ⟨tokens, [], nextNode⟩ = .failed diagnostic later) →
      Records parse tokens nextNode (later.diagnostics ++ [diagnostic])

/-- The result holds a value if nothing was recorded, and otherwise all that was. -/
def Finds {α : Type} (recorded : List Diagnostic) : Except (List Diagnostic) α → Prop
  | .ok _ => recorded = []
  | .error found => recorded ≠ [] ∧ found = recorded

section

variable {α : Type} {parse : Nat → Parse α} {tokens : List Token} {nextNode : Nat}

/-- What is read of a token list is what the parser records on it. -/
theorem Parse.Records.finds {recorded : List Diagnostic}
    (records : Records parse tokens nextNode recorded) :
    Finds recorded (run parse tokens nextNode).1 := by
  unfold run
  cases records with
  | failed diagnostic later ran =>
    rw [ran _ (Nat.le_refl _)]
    exact ⟨List.append_ne_nil_of_right_ne_nil _ (List.cons_ne_nil _ _), rfl⟩
  | done value later ran =>
    rw [ran _ (Nat.le_refl _)]
    dsimp only
    split
    case isTrue nothing => exact List.isEmpty_iff.mp nothing
    case isFalse something => exact ⟨fun nothing => something (List.isEmpty_iff.mpr nothing), rfl⟩

/-- A parser that settles on a token list records something on it, be it nothing. -/
theorem Settles.records {taking : Taking} {whole : List Token}
    (settles : Settles taking .finish whole (fuelFor tokens) parse tokens nextNode) :
    ∃ recorded, Records parse tokens nextNode recorded := by
  cases settles with
  | done value left found next _ ran =>
    refine ⟨_, .done value ⟨left ++ [], [] ++ found, next⟩ fun fuel enough => ?_⟩
    have read := ran fuel [] [] enough trivial
    rwa [List.append_nil] at read
  | failed diagnostic left found next _ ran =>
    refine ⟨_, .failed diagnostic ⟨left ++ [], [] ++ found, next⟩ fun fuel enough => ?_⟩
    have read := ran fuel [] [] enough trivial
    rwa [List.append_nil] at read

end

/-- The tokens of a text end with an end token. -/
theorem segment_tokensOf (source : List UInt8) : Segment .finish (tokensOf source) := by
  rw [tokensOf_eq]
  exact .append (.singleton (endToken source).2) _

theorem settles_program {tokens : List Token} (segment : Segment .finish tokens) (nextNode : Nat) :
    Settles .some .finish tokens (fuelFor tokens) program tokens nextNode := by
  have enough : 32 * tokens.length + 19 ≤ fuelFor tokens := by
    rw [fuelFor]
    omega
  exact (settled (fuelFor tokens)).declarations (fun _ => false) nextNode (.refl segment) enough

/-! ### Two lists in the order of their lines -/

/-- The diagnostics are those of both lists, each as often as it is there, in the order of the
lines. Those of one line are in the order of the lists, and those of the first list come before
those of the second. -/
structure Merged (first second diagnostics : List Diagnostic) : Prop where
  all : diagnostics.Perm (first ++ second)
  lines : diagnostics.Pairwise fun one other => one.line ≤ other.line
  order : ∀ line, diagnostics.filter (·.line = line) =
    first.filter (·.line = line) ++ second.filter (·.line = line)

/-- Sorting by lines keeps the order on each line. -/
theorem filter_inLineOrder (diagnostics : List Diagnostic) (line : Nat) :
    (inLineOrder diagnostics).filter (·.line = line) = diagnostics.filter (·.line = line) := by
  have sameLine : (diagnostics.filter (·.line = line)).Pairwise
      fun one other => decide (one.line ≤ other.line) = true := by
    refine List.pairwise_of_forall_mem_list fun one isOne other isOther => ?_
    have first := of_decide_eq_true (List.mem_filter.mp isOne).2
    have second := of_decide_eq_true (List.mem_filter.mp isOther).2
    exact decide_eq_true (by omega)
  -- they are there in their order, and there are no more of them
  have within := List.sublist_mergeSort (by simp; omega)
    (by simp; omega) sameLine List.filter_sublist
  have kept := within.filter (·.line = line)
  rw [List.filter_filter] at kept
  simp only [Bool.and_self] at kept
  refine (kept.eq_of_length ?_).symm
  exact ((List.mergeSort_perm _ _).filter _).length_eq.symm

/-- **A stable sort by lines merges two lists.** -/
theorem merged_inLineOrder (first second : List Diagnostic) :
    Merged first second (inLineOrder (first ++ second)) where
  all := List.mergeSort_perm _ _
  lines := by
    have sorted : (inLineOrder (first ++ second)).Pairwise
        fun one other => decide (one.line ≤ other.line) = true :=
      List.pairwise_mergeSort (by simp; omega) (by simp; omega) (first ++ second)
    exact sorted.imp fun inOrder => of_decide_eq_true inOrder
  order line := by rw [filter_inLineOrder, List.filter_append]

/-- What is wrong with the characters of a text is found in the order of the lines. -/
theorem merged_characters (source : List UInt8) :
    Merged (diagnosticsOf source) [] (diagnosticsOf source) where
  all := by rw [List.append_nil]
  lines := by
    refine List.pairwise_filterMap.mpr
      ((items_inLineOrder source).imp fun {one other} inOrder => ?_)
    intro first isFirst second isSecond
    cases one <;> cases isFirst
    cases other <;> cases isSecond
    exact inOrder
  order line := (List.append_nil _).symm

/-! ### Whole texts -/

/-- The result holds a value if there is no diagnostic of either kind, and otherwise all diagnostics
in the order of their lines. -/
def Reports {α : Type} (characters tokens : List Diagnostic) : Except (List Diagnostic) α → Prop
  | .ok _ => characters = [] ∧ tokens = []
  | .error diagnostics => (characters ≠ [] ∨ tokens ≠ []) ∧ Merged characters tokens diagnostics

/-- What is wrong with the characters and what is wrong with the tokens is reported together. -/
theorem Finds.reports {α : Type} {source : List UInt8} {recorded : List Diagnostic}
    {result : Except (List Diagnostic) α} (finds : Finds recorded result) :
    Reports (diagnosticsOf source) recorded (withCharacters (diagnosticsOf source) result) := by
  cases result with
  | error found =>
    obtain ⟨something, rfl⟩ := finds
    exact ⟨.inr something, merged_inLineOrder _ _⟩
  | ok value =>
    obtain rfl : recorded = [] := finds
    rw [withCharacters]
    split
    case isTrue none => exact ⟨List.isEmpty_iff.mp none, rfl⟩
    case isFalse some =>
      exact ⟨.inl fun none => some (List.isEmpty_iff.mpr none), merged_characters source⟩

/-- **All that is wrong with a text is reported, in the order of the lines.** A scanner hands out
tokens and diagnostics. A text is no program if and only if there is such a diagnostic, or the
parser records one on the tokens. Then all of these are reported, each once, in the order of the
lines; on the same line, what the scanner handed out comes first, in its order, and then what the
parser recorded, in its order. The same holds of single expressions. -/
theorem reports_everything_in_order (source : String) (nextNode : Nat) :
    ∃ given, Scanner.HandsOut (Utf8.encode source) given ∧
      (∃ recorded, Records program (given.filterMap Item.token?) nextNode recorded ∧
        Reports (given.filterMap Item.diagnostic?) recorded (readProgram source nextNode).1) ∧
      ∃ recorded, Records wholeExpression (given.filterMap Item.token?) nextNode recorded ∧
        Reports (given.filterMap Item.diagnostic?) recorded (readExpression source nextNode).1 := by
  have segment := segment_tokensOf (Utf8.encode source)
  obtain ⟨onProgram, recordsProgram⟩ := (settles_program segment nextNode).records
  obtain ⟨onExpression, recordsExpression⟩ := (settles_wholeExpression segment nextNode).records
  exact ⟨items (Utf8.encode source), Scanner.handsOut_items _,
    ⟨onProgram, recordsProgram, recordsProgram.finds.reports⟩,
    onExpression, recordsExpression, recordsExpression.finds.reports⟩

end Lox
