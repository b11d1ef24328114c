/-
**A token list is parsed exactly if it derives from the grammar, and the parse is
the derivation's tree.**

* `ReadsExactly phrase read tokens finish` — reading the tokens and the end token after them
  succeeds exactly if the tokens derive from the phrase. The result is then the tree of the
  derivation in which each `else` belongs to the nearest `if`, and there is one such tree only.
* `parses_exactly_its_grammar` — so are programs and single expressions read.
-/

import Lox.Proofs.Grammar.Nearest
import Lox.Proofs.Grammar.Recognition

namespace Lox

open Parse

variable {tokens : List Token}

/-! ### What is left at the end -/

/-- What is left at the end token is that token alone. -/
theorem eq_of_append_end {taken rest : List Token} {finish : Terminal .eof}
    (inner : ∀ token ∈ tokens, token.kind ≠ .eof) (takenInner : ∀ token ∈ taken, token.kind ≠ .eof)
    (same : tokens ++ [finish.1] = taken ++ rest) (ends : (firstToken rest).kind = .eof) :
    taken = tokens ∧ rest = [finish.1] := by
  rcases List.append_eq_append_iff.mp same with ⟨between, rfl, left⟩ | ⟨between, rfl, left⟩
  · cases between with
    | nil => exact ⟨List.append_nil tokens, left.symm⟩
    | cons token others =>
      obtain ⟨rfl, -⟩ := List.cons.inj left
      exact absurd finish.2 (takenInner _ (by simp))
  · cases between with
    | nil => exact ⟨(List.append_nil taken).symm, left⟩
    | cons token others =>
      rw [left, List.cons_append, firstToken_cons] at ends
      exact absurd ends (inner token (by simp))

namespace Parse

variable {α : Type} {parse : Nat → Parse α}

/-- Reading a whole token list succeeds if no diagnostic is left. -/
theorem run_eq_ok {nextNode : Nat} {value : α} {later : Nat} :
    run parse tokens nextNode = (.ok value, later) ↔
      ∃ cursor, parse (fuelFor tokens) ⟨tokens, [], nextNode⟩ = .done value cursor ∧
        cursor.diagnostics = [] ∧ cursor.nextNode = later := by
  rw [run]
  cases ran : parse (fuelFor tokens) ⟨tokens, [], nextNode⟩ with
  | done found cursor =>
    constructor
    · intro parsed
      cases clean : cursor.diagnostics with
      | nil => simp_all
      | cons => simp [clean] at parsed
    · rintro ⟨_, same, clean, rfl⟩
      cases same
      simp [clean]
  | failed | outOfFuel => simp

end Parse

/-! ### Programs -/

variable {finish : Terminal .eof} {nextNode later : Nat}

theorem parseProgram_of_derives {tree : Numbered (List Stmt)}
    (derives : Derives true .declarations tokens tree) (finish : Terminal .eof) (nextNode : Nat) :
    parseProgram (tokens ++ [finish.1]) nextNode = (.ok (tree nextNode).1, (tree nextNode).2) := by
  have enough : 32 * tokens.length + 3 ≤ fuelFor (tokens ++ [finish.1]) := by
    rw [fuelFor, List.length_append, List.length_singleton]
    omega
  have stops : Kind.StopsAtBrace fun _ => false := fun _ never => absurd never Bool.false_ne_true
  exact run_eq_ok.mpr ⟨_, derives.reads _ stops _ _ [] nextNode enough (.inl finish.2), rfl, rfl⟩

theorem derives_of_parseProgram (inner : ∀ token ∈ tokens, token.kind ≠ .eof)
    {statements : List Stmt}
    (parsed : parseProgram (tokens ++ [finish.1]) nextNode = (.ok statements, later)) :
    ∃ tree, Derives true .declarations tokens tree ∧ tree nextNode = (statements, later) := by
  obtain ⟨cursor, ran, clean, rfl⟩ := run_eq_ok.mp parsed
  obtain ⟨-, taken, tree, same, ⟨derives, ends⟩, numbered⟩ :=
    (recognized _).declarations _ _ _ _ _ _ ran clean
  have ends : (firstToken cursor.rest).kind = .eof := ends.resolve_right Bool.false_ne_true
  obtain ⟨rfl, -⟩ := eq_of_append_end inner derives.no_end same ends
  exact ⟨tree, derives, numbered⟩

/-! ### Single expressions -/

theorem parseExpression_of_derives {tree : Numbered Expr}
    (derives : Derives true .expression tokens tree) (finish : Terminal .eof) (nextNode : Nat) :
    parseExpression (tokens ++ [finish.1]) nextNode =
      (.ok (tree nextNode).1, (tree nextNode).2) := by
  have enough : 32 * tokens.length + 15 ≤ fuelFor (tokens ++ [finish.1]) := by
    rw [fuelFor, List.length_append, List.length_singleton]
    omega
  have follows : (firstToken [finish.1]).kind.continuesExpression = false := by
    rw [firstToken_cons, finish.2]
    decide
  refine run_eq_ok.mpr ⟨⟨[finish.1], [], (tree nextNode).2⟩, ?_, rfl, rfl⟩
  rw [wholeExpression, Step.bind_done (derives.reads _ _ [] nextNode enough follows),
    Step.bind_done (Step.view_apply _ _)]
  rw [if_pos (by simp [Cursor.atEnd, Cursor.peek])]
  rfl

theorem derives_of_parseExpression (inner : ∀ token ∈ tokens, token.kind ≠ .eof) {value : Expr}
    (parsed : parseExpression (tokens ++ [finish.1]) nextNode = (.ok value, later)) :
    ∃ tree, Derives true .expression tokens tree ∧ tree nextNode = (value, later) := by
  obtain ⟨cursor, ran, clean, rfl⟩ := run_eq_ok.mp parsed
  rw [wholeExpression] at ran
  obtain ⟨found, middle, read, ran⟩ := Step.of_bind_done ran
  obtain ⟨_, _, viewed, ran⟩ := Step.of_bind_done ran
  obtain ⟨rfl, rfl⟩ := Step.of_view_done viewed
  split at ran
  · rename_i ends
    obtain ⟨rfl, rfl⟩ := Step.of_pure_done ran
    obtain ⟨-, taken, tree, same, derives, numbered⟩ :=
      (recognized _).expression _ _ _ _ _ read clean
    obtain ⟨rfl, -⟩ := eq_of_append_end inner derives.no_end same (of_decide_eq_true ends)
    exact ⟨tree, derives, numbered⟩
  · cases ran

/-! ### The grammar is what is read -/

/-- Reading the tokens and the end token after them succeeds exactly if they derive from the phrase,
and gives the tree of their only derivation with each `else` at the nearest `if`. -/
structure ReadsExactly (phrase : Phrase)
    (read : List Token → Nat → Except (List Diagnostic) phrase.Tree × Nat)
    (tokens : List Token) (finish : Terminal .eof) : Prop where
  accepts : ∀ nextNode, (∃ value later, read (tokens ++ [finish.1]) nextNode = (.ok value, later)) ↔
    ∃ tree, Derives false phrase tokens tree
  gives : ∀ nextNode value later, read (tokens ++ [finish.1]) nextNode = (.ok value, later) ↔
    ∃ tree, Derives true phrase tokens tree ∧ tree nextNode = (value, later)
  unique : ∀ tree other, Derives true phrase tokens tree →
    Derives true phrase tokens other → tree = other

/-- What is read soundly and completely is read exactly. -/
theorem ReadsExactly.of_sound_complete {phrase : Phrase}
    {read : List Token → Nat → Except (List Diagnostic) phrase.Tree × Nat}
    (nearest : ∀ tree, Derives false phrase tokens tree → ∃ other, Derives true phrase tokens other)
    (sound : ∀ nextNode value later, read (tokens ++ [finish.1]) nextNode = (.ok value, later) →
      ∃ tree, Derives true phrase tokens tree ∧ tree nextNode = (value, later))
    (complete : ∀ tree, Derives true phrase tokens tree → ∀ nextNode,
      read (tokens ++ [finish.1]) nextNode = (.ok (tree nextNode).1, (tree nextNode).2)) :
    ReadsExactly phrase read tokens finish where
  accepts nextNode := by
    constructor
    · rintro ⟨value, later, parsed⟩
      obtain ⟨tree, derives, -⟩ := sound nextNode value later parsed
      exact ⟨tree, derives.anywhere⟩
    · rintro ⟨tree, derives⟩
      obtain ⟨other, derives⟩ := nearest tree derives
      exact ⟨_, _, complete other derives nextNode⟩
  gives nextNode value later := by
    refine ⟨sound nextNode value later, ?_⟩
    rintro ⟨tree, derives, numbered⟩
    rw [complete tree derives nextNode, numbered]
  unique tree other derives derivesOther := by
    funext nextNode
    have same := (complete tree derives nextNode).symm.trans (complete other derivesOther nextNode)
    obtain ⟨value, later⟩ := Prod.mk.inj same
    exact Prod.ext (Except.ok.inj value) later

/-- **The parser accepts exactly its grammar and builds the tree that the grammar gives.** -/
theorem parses_exactly_its_grammar (tokens : List Token) (finish : Terminal .eof)
    (inner : ∀ token ∈ tokens, token.kind ≠ .eof) :
    ReadsExactly .declarations parseProgram tokens finish ∧
      ReadsExactly .expression parseExpression tokens finish := by
  constructor
  · refine .of_sound_complete (fun _ derives => derives.nearest)
      (fun _ _ _ parsed => derives_of_parseProgram inner parsed)
      (fun _ derives nextNode => parseProgram_of_derives derives finish nextNode)
  · refine .of_sound_complete (fun _ derives => derives.nearest)
      (fun _ _ _ parsed => derives_of_parseExpression inner parsed)
      (fun _ derives nextNode => parseExpression_of_derives derives finish nextNode)

/-- The tokens of `if (nil) if (nil) {} else {}`, on one line. -/
def nestedConditional : List Token :=
  let opening := ⟨.symbol .leftParen, "(", 1⟩
  let closing := ⟨.symbol .rightParen, ")", 1⟩
  let condition := [⟨.keyword .if, "if", 1⟩, opening, ⟨.keyword .nil, "nil", 1⟩, closing]
  let block := [⟨.symbol .leftBrace, "\x7b", 1⟩, ⟨.symbol .rightBrace, "\x7d", 1⟩]
  condition ++ condition ++ block ++ ⟨.keyword .else, "else", 1⟩ :: block

/-- The `else` of a nested conditional belongs to the inner `if`, and there is no other tree. -/
theorem parses_nested_conditional :
    (∀ token ∈ nestedConditional, token.kind ≠ .eof) ∧
      (∃ tree, Derives true .declarations nestedConditional tree ∧
        tree 0 = ([.if (.literal .nil) (.if (.literal .nil) (.block []) (some (.block []))) none],
          0)) ∧
      ¬ ∃ tree, Derives false .expression nestedConditional tree := by
  have inner : ∀ token ∈ nestedConditional, token.kind ≠ .eof := by simp [nestedConditional]
  obtain ⟨program, expression⟩ :=
    parses_exactly_its_grammar nestedConditional ⟨.finish 1, rfl⟩ inner
  refine ⟨inner, (program.gives 0 _ _).mp rfl, fun derives => ?_⟩
  obtain ⟨value, later, parsed⟩ := (expression.accepts 0).mpr derives
  cases parsed

end Lox
