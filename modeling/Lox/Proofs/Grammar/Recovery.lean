/-
**An error stays in its statement.**

* `syntaxErrors` — the diagnostics of parsing a token list as a program, in the order in which they
  are recorded. They do not depend on the node identities that were used before (`syntaxErrors_eq`).
* `syntaxErrors_declaration` — they are those of the first declaration, and then
  those of the tokens after it.
* `recovery_is_local` — so, where a token list ends with the semicolon of a statement and has no
  brace and no `for` in it, its errors and those of the tokens after it have nothing to do with each
  other: no declaration, be it well-formed or not, goes on over the last semicolon, nor does the
  search for the next one.
-/

import Lox.Proofs.Grammar.Exact
import Lox.Proofs.Grammar.Segments
import Lox.Proofs.Grammar.Shifting

namespace Lox

open Parse

/-- What is wrong with the grammar of a program, in the order in which it is found. -/
def syntaxErrors (tokens : List Token) (nextNode : Nat) : List Diagnostic :=
  match (parseProgram tokens nextNode).1 with
  | .ok _ => []
  | .error diagnostics => diagnostics

/-! ### The end of a program -/

section

variable {tokens : List Token} {nextNode : Nat}

theorem declaration_ne_failed (fuel : Nat) (cursor later : Cursor) (diagnostic : Diagnostic) :
    declaration fuel cursor ≠ .failed diagnostic later := by
  cases fuel with
  | zero => nofun
  | succ fuel =>
    intro failed
    unfold declaration Parse.recover at failed
    split at failed <;> cases failed

/-- Declarations that fail are left out, so that all of them together do not. -/
theorem declarations_ne_failed (stop : Kind → Bool) (fuel : Nat) (cursor later : Cursor)
    (diagnostic : Diagnostic) : declarations stop fuel cursor ≠ .failed diagnostic later := by
  induction fuel generalizing cursor with
  | zero => nofun
  | succ fuel ih =>
    intro failed
    unfold declarations at failed
    rw [Step.bind_done (Step.view_apply _ cursor)] at failed
    split at failed
    · cases failed
    · rw [Step.bind_apply] at failed
      cases first : declaration fuel cursor with
      | failed => exact declaration_ne_failed _ _ _ _ first
      | outOfFuel => rw [first] at failed; cases failed
      | done form between =>
        rw [first] at failed
        dsimp only at failed
        rw [Step.bind_apply] at failed
        cases others : declarations stop fuel between with
        | failed =>
          rw [others] at failed
          cases failed
          exact ih _ others
        | done | outOfFuel => rw [others] at failed; cases failed

/-- However much fuel there is from some amount on, and whatever was found before, a program is read
to its end, with its errors. -/
theorem program_segment (segment : Segment .finish tokens) (nextNode : Nat) :
    ∃ value left next, ∀ fuel diagnostics, fuelFor tokens ≤ fuel →
      program fuel ⟨tokens, diagnostics, nextNode⟩ =
        .done value ⟨left, diagnostics ++ syntaxErrors tokens nextNode, next⟩ := by
  have enough : 32 * tokens.length + 19 ≤ fuelFor tokens := by
    rw [fuelFor]
    omega
  cases (settled (fuelFor tokens)).declarations (fun _ => false) nextNode
    (.refl segment) enough with
  | failed diagnostic left found next _ ran =>
    exact absurd (ran _ [] [] (Nat.le_refl _) trivial) (declarations_ne_failed _ _ _ _ _)
  | done value left found next _ ran =>
    have isFound : syntaxErrors tokens nextNode = found := by
      have parsed := ran _ [] [] (Nat.le_refl _) trivial
      rw [List.append_nil, List.append_nil] at parsed
      rw [syntaxErrors, parseProgram, Parse.run, program, parsed]
      cases found <;> rfl
    refine ⟨value, left, next, fun fuel diagnostics enough => ?_⟩
    have read := ran fuel diagnostics [] enough trivial
    rwa [List.append_nil, List.append_nil, ← isFound] at read

/-- The errors do not depend on the identities that were used before. -/
theorem syntaxErrors_eq (tokens : List Token) (nextNode : Nat) :
    syntaxErrors tokens nextNode = syntaxErrors tokens 0 := by
  have same := Shifts.run (fun fuel => (shifts nextNode fuel).declarations fun _ => false) tokens 0
  rw [Nat.zero_add] at same
  unfold syntaxErrors parseProgram
  rw [show Parse.program = declarations fun _ => false from rfl, same]
  dsimp only [shiftRead]
  cases (Parse.run (declarations fun _ => false) tokens 0).1 <;> rfl

/-! ### One declaration after the other -/

/-- If the first declaration ends in one way whatever was found before it, the errors are those of
the first declaration and those of the tokens after it. -/
theorem syntaxErrors_declaration {size next : Nat} {form : Option Stmt} {left : List Token}
    {found : List Diagnostic} (segment : Segment .finish tokens)
    (noEnd : (firstToken tokens).kind ≠ .eof) (segmentLeft : Segment .finish left)
    (ran : ∀ fuel diagnostics, size ≤ fuel →
      declaration fuel ⟨tokens, diagnostics, nextNode⟩ =
        .done form ⟨left, diagnostics ++ found, next⟩) :
    syntaxErrors tokens nextNode = found ++ syntaxErrors left next := by
  obtain ⟨value, last, later, read⟩ := program_segment segment nextNode
  obtain ⟨others, lastLeft, laterLeft, readLeft⟩ := program_segment segmentLeft next
  let fuel := size + fuelFor tokens + fuelFor left
  have goesOn : ((Cursor.mk tokens [] nextNode).atEnd || (Cursor.mk tokens [] nextNode).sees
      fun _ => false) = false := by
    simp [Cursor.atEnd, Cursor.sees, Cursor.peek, noEnd]
  have all := read (fuel + 1) [] (by omega)
  have rest := readLeft fuel ([] ++ found) (by omega)
  unfold program at all rest
  have first := ran fuel [] (by omega)
  rw [declarations, Step.bind_done (Step.view_apply _ _), goesOn, if_neg Bool.false_ne_true,
    Step.bind_done first, Step.bind_done rest] at all
  obtain ⟨-, same⟩ := Step.of_pure_done all
  have diagnostics := congrArg Cursor.diagnostics same
  exact diagnostics.symm

end

/-- Before whatever other tokens, the first declaration of a segment is the same, and takes a token
of it at least and none after it. -/
theorem syntaxErrors_first {first : List Token} (segment : Segment .semicolon first) :
    ∃ found left, Beyond .semicolon first left ∧
      ∀ more, Segment .finish more → (firstToken more).kind ≠ .keyword .else →
        syntaxErrors (first ++ more) 0 = found ++ syntaxErrors (left ++ more) 0 := by
  have noEnd : (firstToken first).kind ≠ .eof := by
    obtain ⟨token, rest, rfl⟩ := segment.eq_cons
    intro isEnd
    have plain := segment.first_plain
    rw [show token.kind = .eof from isEnd] at plain
    cases plain
  cases (settled (32 * first.length + 18)).declaration 0 (.refl segment) noEnd (Nat.le_refl _) with
  | failed diagnostic left found next _ ran =>
    have allows : Terminator.semicolon.Allows [.finish 0] := nofun
    exact absurd (ran _ [] _ (Nat.le_refl _) allows) (declaration_ne_failed _ _ _ _)
  | done form left found next beyond ran =>
    refine ⟨found, left, beyond, fun more segmentMore noElse => ?_⟩
    have noEndMore : (firstToken (first ++ more)).kind ≠ .eof := by
      obtain ⟨token, rest, rfl⟩ := segment.eq_cons
      exact noEnd
    rw [← syntaxErrors_eq (left ++ more) next]
    exact syntaxErrors_declaration (segmentMore.append first) noEndMore (segmentMore.append left)
      fun fuel diagnostics enough => ran fuel diagnostics more enough noElse

/-- The errors of tokens that end with the semicolon of a statement come before
those of the tokens after it. -/
theorem syntaxErrors_append {first more : List Token}
    (segment : first = [] ∨ Segment .semicolon first) (segmentMore : Segment .finish more)
    (noElse : (firstToken more).kind ≠ .keyword .else) (finish : Terminal .eof) :
    syntaxErrors (first ++ more) 0 =
      syntaxErrors (first ++ [finish.1]) 0 ++ syntaxErrors more 0 := by
  induction size : first.length using Nat.strongRecOn generalizing first with
  | ind length ih =>
    rcases segment with rfl | segment
    · have nothing : syntaxErrors [finish.1] 0 = [] := by
        have parsed : parseProgram [finish.1] 0 = (.ok [], 0) :=
          parseProgram_of_derives .noDeclarations finish 0
        rw [syntaxErrors, parsed]
      rw [List.nil_append, List.nil_append, nothing, List.nil_append]
    · obtain ⟨found, left, beyond, before⟩ := syntaxErrors_first segment
      have less : left.length < length := size ▸ beyond.less
      have segmentLeft : left = [] ∨ Segment .semicolon left := beyond.segment.symm.imp And.right id
      have noElseFinish : (firstToken [finish.1]).kind ≠ .keyword .else := by
        rw [firstToken_cons, finish.2]
        nofun
      calc syntaxErrors (first ++ more) 0
          = found ++ syntaxErrors (left ++ more) 0 := before more segmentMore noElse
        _ = found ++ (syntaxErrors (left ++ [finish.1]) 0 ++ syntaxErrors more 0) := by
            rw [ih left.length less segmentLeft rfl]
        _ = found ++ syntaxErrors (left ++ [finish.1]) 0 ++ syntaxErrors more 0 :=
          (List.append_assoc _ _ _).symm
        _ = syntaxErrors (first ++ [finish.1]) 0 ++ syntaxErrors more 0 := by
            rw [before _ (.singleton finish.2) noElseFinish]

/-- **Error recovery is local to a statement.** Where some tokens end with a semicolon, with no
brace, no `for` and no end token among them, and those after them do not start with `else`, the
errors of all of them are those of the first, and then those of the others, each as it is found by
itself. So errors in the first neither hide an error of the others nor cause one. -/
theorem recovery_is_local {first second : List Token}
    (ends : first = [] ∨ ∃ before, ∃ semicolon : Terminal (.symbol .semicolon),
      first = before ++ [semicolon.1])
    (plain : ∀ token ∈ first, token.kind.isPlain = true)
    (noElse : (firstToken second).kind ≠ .keyword .else) (finish other : Terminal .eof)
    (nextNode : Nat) :
    syntaxErrors (first ++ second ++ [finish.1]) nextNode =
      syntaxErrors (first ++ [other.1]) nextNode ++
        syntaxErrors (second ++ [finish.1]) nextNode := by
  have segment : first = [] ∨ Segment .semicolon first := by
    refine ends.imp id fun ⟨before, semicolon, isFirst⟩ =>
      ⟨⟨semicolon.1, ?_, semicolon.2⟩, fun _ => plain⟩
    rw [isFirst, List.getLast?_append]
    rfl
  have segmentSecond : Segment .finish (second ++ [finish.1]) :=
    Segment.append (.singleton finish.2) second
  have noElseSecond : (firstToken (second ++ [finish.1])).kind ≠ .keyword .else := by
    cases second with
    | nil =>
      rw [List.nil_append, firstToken_cons, finish.2]
      nofun
    | cons => exact noElse
  rw [syntaxErrors_eq, syntaxErrors_eq (first ++ [other.1]), syntaxErrors_eq (second ++ [finish.1]),
    List.append_assoc]
  exact syntaxErrors_append segment segmentSecond noElseSecond other

/-- The tokens of `); nil nil;`, of which neither statement is well-formed. -/
def malformedStatements : List Token :=
  [⟨.symbol .rightParen, ")", 1⟩, ⟨.symbol .semicolon, ";", 1⟩, ⟨.keyword .nil, "nil", 1⟩,
    ⟨.keyword .nil, "nil", 1⟩, ⟨.symbol .semicolon, ";", 1⟩]

/-- Both errors are found, and after them the one of `var` without a name. -/
theorem recovers_after_each_statement :
    syntaxErrors (malformedStatements ++ [⟨.keyword .var, "var", 2⟩] ++ [.finish 2]) 0 =
      [⟨1, .atToken ")", .missing .expression⟩, ⟨1, .atToken "nil", .missing .statementEnd⟩] ++
        [⟨2, .atEnd, .missing .variableName⟩] := by
  have plain : ∀ token ∈ malformedStatements, token.kind.isPlain =
    true := by simp [malformedStatements, Kind.isPlain]
  have ends : malformedStatements = [] ∨ ∃ before, ∃ semicolon : Terminal (.symbol .semicolon),
      malformedStatements = before ++ [semicolon.1] :=
    .inr ⟨malformedStatements.dropLast, ⟨⟨.symbol .semicolon, ";", 1⟩, rfl⟩, rfl⟩
  exact recovery_is_local ends plain (by decide) ⟨.finish 2, rfl⟩ ⟨.finish 1, rfl⟩ 0

end Lox
