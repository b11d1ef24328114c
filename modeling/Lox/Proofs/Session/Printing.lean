/-
**Evaluating an expression, and printing it.**

* `innerTokens_print`, `diagnosticsOf_print` — a text after `print` and a blank is
  cut into its own pieces.
* `AcceptedExpression` — a text is an expression, as far as its characters and its grammar go.
* `AcceptedExpression.readPrint` — after `print` and before a semicolon on a line of its own, it is
  read as the statement that prints this expression.
* `prints_what_it_evaluates` — so, where the output is open, running that statement does what
  evaluating the expression does, and prints the value.

The semicolon stands on a line of its own because the expression may end in a comment.
-/

import Lox.Proofs.Evaluation.Framing
import Lox.Proofs.Session.Concatenation

namespace Lox

/-! ### The text -/

/-- The keyword before a text, which is on its first line. -/
def printKeyword : Terminal (.keyword .print) :=
  ⟨⟨.keyword .print, "print", 1⟩, rfl⟩

/-- The keyword and the blank are cut off as pieces of their own, whatever comes next. -/
theorem pieces_print (source : List UInt8) :
    pieces (Utf8.encode "print " ++ source) =
      ⟨.word, Utf8.encode "print"⟩ :: ⟨.blank, [0x20]⟩ :: pieces source := by
  have blank : pieces (0x20 :: source) = ⟨.blank, [0x20]⟩ :: pieces source :=
    pieces_cons 0x20 source
  have stops : isWordByte 0x20 = false := by decide
  have bytes : Utf8.encode "print " ++ source =
      0x70 :: ([0x72, 0x69, 0x6E, 0x74] ++ 0x20 :: source) := by
    have encoded : Utf8.encode "print " = [0x70, 0x72, 0x69, 0x6E, 0x74, 0x20] := by decide
    rw [encoded]
    rfl
  have word : Piece.cut 0x70 ([0x72, 0x69, 0x6E, 0x74] ++ 0x20 :: source) =
      (⟨.word, Utf8.encode "print"⟩, 0x20 :: source) := by
    have encoded : Utf8.encode "print" = [0x70, 0x72, 0x69, 0x6E, 0x74] := by decide
    show Piece.run .word 0x70 isWordByte _ = _
    rw [Piece.run, takeWhile_before stops, dropWhile_before stops, encoded]
    rfl
  rw [bytes, pieces_cons, word, blank]

/-- The tokens after the keyword are those of the text by itself, on the same lines. -/
theorem innerTokens_print (source : List UInt8) :
    innerTokens (Utf8.encode "print " ++ source) = printKeyword.1 :: innerTokens source := by
  unfold innerTokens
  rw [pieces_print]
  rfl

theorem diagnosticsOf_print (source : List UInt8) :
    diagnosticsOf (Utf8.encode "print " ++ source) = diagnosticsOf source := by
  unfold diagnosticsOf items
  rw [pieces_print]
  rfl

/-! ### The statement -/

/-- The text is an expression: no character of it is wrong, and it follows the grammar. -/
def AcceptedExpression (source : String) : Prop :=
  ∃ value next, readExpression source 0 = (.ok value, next)

/-- The statement that prints an expression, as a program. -/
theorem Derives.printOnly {nearest : Bool} {tokens : List Token} {value : Numbered Expr}
    (derives : Derives nearest .expression tokens value) (keyword : Terminal (.keyword .print))
    (semicolon : Terminal (.symbol .semicolon)) :
    Derives nearest .declarations (keyword.1 :: tokens ++ [semicolon.1])
      (do return [.print keyword (← value)]) := by
  have printed := Derives.moreDeclarations
    (.statementDeclaration (.print keyword semicolon derives)) .noDeclarations
  rwa [List.append_nil] at printed

/-- It is read from any node on, and as well in the statement that prints it. -/
theorem AcceptedExpression.readPrint {source : String} (accepted : AcceptedExpression source)
    (index : Nat) :
    ∃ value next, readExpression source index = (.ok value, next) ∧
      readProgram ("print " ++ source ++ "\n;") index =
        (.ok [.print printKeyword value], next) := by
  obtain ⟨_, _, read⟩ := accepted
  obtain ⟨tree, derives, -⟩ := derives_of_readExpression read
  obtain ⟨clean, -⟩ := readWith_eq_ok.mp read
  refine ⟨(tree index).1, (tree index).2, readWith_eq_ok.mpr ⟨clean, ?_⟩,
    readWith_eq_ok.mpr ⟨?_, ?_⟩⟩
  · rw [tokensOf_eq]
    exact parseExpression_of_derives derives (endToken _) index
  all_goals
    have whole : "print " ++ source ++ "\n;" = ("print " ++ source) ++ "\n" ++ ";" := by
      have lines : "\n;" = "\n" ++ ";" := rfl
      rw [lines, ← String.append_assoc]
    have cleanFirst : diagnosticsOf (Utf8.encode ("print " ++ source)) = [] := by
      rw [encode_append, diagnosticsOf_print, clean]
    rw [whole]
  · rw [encode_newline_append]
    exact diagnosticsOf_append cleanFirst (by decide)
  · -- the expression stands between the keyword and the semicolon
    have semicolon : innerTokens (Utf8.encode ";") = [⟨.symbol .semicolon, ";", 1⟩] := by decide
    rw [tokensOf_eq, innerTokens_newline_append cleanFirst, encode_append,
      innerTokens_print, semicolon]
    exact parseProgram_of_derives
      (derives.printOnly printKeyword ⟨Token.below _ ⟨.symbol .semicolon, ";", 1⟩, rfl⟩)
      (endToken _) index

/-! ### The run -/

/-- The machine after it has printed a value. -/
def Machine.printing (machine : Machine) (value : Value) : Machine :=
  { machine with output := machine.output ++ value.text ++ "\n" }

/-- The session after it has printed a value. All else is as it was. -/
def Session.printing (session : Session) (value : Value) : Session :=
  { session with machine := session.machine.printing value }

theorem Run.print_open {machine : Machine} (accepting : machine.sink = .open) (keyword : Token)
    (value : Value) :
    Run.print keyword value machine = .done () (machine.printing value) := by
  unfold Run.print
  split
  · rfl
  · rename_i isClosed
    rw [accepting] at isClosed
    cases isClosed

/-- A program that only prints an expression evaluates it and then prints the value. -/
theorem interpret_print {machine : Machine} (accepting : machine.sink = .open) (fuel : Nat)
    (keyword : Token) (value : Expr) :
    interpret (fuel + 1) [.print keyword value] machine =
      match evaluate fuel value machine with
      | .done found later => .done () (later.printing found)
      | .failed error later => .failed error later
      | .outOfFuel => .outOfFuel := by
  have same := (framed Machine.SameSink fuel).evaluate value machine
  unfold interpret
  rw [Step.bind_apply, execute.eq_def]
  dsimp only
  rw [Step.bind_apply]
  cases ran : evaluate fuel value machine with
  | done found later =>
    rw [ran] at same
    have isOpen : later.sink = .open := (same later rfl).trans accepting
    simp only [Step.bind_apply, Run.print_open isOpen]
    rfl
  | failed | outOfFuel => rfl

/-- **Running `print` with an expression is evaluating the expression and printing its value.** In
every session whose output is open, and for every text that is an expression: if evaluating it is
refused for the names in it, the program is refused with the same diagnostics; if it has a value,
the program ends well, and its output is that of the evaluation with the text of the value and a
line end after it; if it raises an error, the program raises the same one at the same token. All
else that the session is left with is the same. -/
theorem prints_what_it_evaluates {session : Session} {source : String}
    (accepting : session.machine.sink = .open) (accepted : AcceptedExpression source) (fuel : Nat) :
    Session.run (fuel + 1) ("print " ++ source ++ "\n;") session =
      match Session.evaluate fuel source session with
      | .done value later => .done () (later.printing value)
      | .failed failure later => .failed failure later
      | .outOfFuel => .outOfFuel := by
  obtain ⟨value, next, read, readPrint⟩ := accepted.readPrint session.nextNode
  have sameNames : resolve [.print printKeyword value] = resolveExpression value := rfl
  cases resolved : resolveExpression value with
  | error diagnostics =>
    unfold Session.run Session.evaluate
    simp only [Step.bind_apply, Session.read, read, readPrint, sameNames, resolved, Session.learn]
  | ok references =>
    rw [Session.run_of_read readPrint (sameNames.trans resolved),
      Session.evaluate_of_read read resolved]
    have isOpen : (session.machine.learn references).sink = .open := accepting
    unfold Session.onMachine
    dsimp only
    rw [interpret_print isOpen]
    cases evaluate fuel value (session.machine.learn references) <;> rfl

/-- A comment after a call of a function that prints. -/
theorem prints_call_before_comment :
    ∃ later, Session.evaluate 9 "(fun() \x7b print nil; \x7d)() // n" (.start fun _ => 0) =
      .done .nil later ∧
      Session.run 10 ("print " ++ "(fun() \x7b print nil; \x7d)() // n" ++ "\n;")
        (.start fun _ => 0) = .done () (later.printing .nil) := by
  have accepted : AcceptedExpression "(fun() \x7b print nil; \x7d)() // n" := ⟨_, _, rfl⟩
  obtain ⟨later, evaluated⟩ : ∃ later,
      Session.evaluate 9 "(fun() \x7b print nil; \x7d)() // n" (.start fun _ => 0) =
        .done .nil later := ⟨_, rfl⟩
  have accepting : (Session.start fun _ => 0).machine.sink = .open := rfl
  have printed := prints_what_it_evaluates accepting accepted 9
  rw [evaluated] at printed
  exact ⟨later, evaluated, printed⟩

end Lox
