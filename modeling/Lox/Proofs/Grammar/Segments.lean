/-
**Reading does not look beyond the end of a segment.**

* `Segment terminator tokens` — the tokens end with an end token; or they end with a semicolon,
  and have no brace, no `for` and no end token among them, so that no statement that starts in
  them goes on after them.
* `Settles taking terminator whole size parse tokens nextNode` — with fuel from `size` on, `parse`
  reads a segment in one way: whatever was found before and whatever tokens come after the
  segment, it ends with the same value or the same diagnostic, finds the same on the way, and
  leaves the same tokens of the segment, fewer of them after a statement. One lemma for each way
  to put readings together.
* `settled` — all productions settle on segments, with one lemma for each. Where a segment ends with
  a semicolon, what comes next must not be an `else`, which would belong to the last statement.
* `resumption_segment` — going on after a failure does not leave the segment either.

How much fuel is enough grows with the number of tokens, so that each production ends.
-/

import Lox.Proofs.Grammar.Reading

namespace Lox

open Parse

/-! ### Segments -/

/-- What a segment of tokens ends with. -/
inductive Terminator where
  | finish
  | semicolon

namespace Terminator

/-- The kind of the last token. -/
def kind : Terminator → Kind
  | .finish => .eof
  | .semicolon => .symbol .semicolon

/-- Whether these tokens may come after the segment. -/
def Allows : Terminator → List Token → Prop
  | .finish, _ => True
  | .semicolon, more => (firstToken more).kind ≠ .keyword .else

end Terminator

/-- Whether a token of this kind leaves it to the next semicolon to end a statement. -/
def Kind.isPlain : Kind → Bool
  | .symbol .leftBrace => false
  | .symbol .rightBrace => false
  | .keyword .for => false
  | .eof => false
  | _ => true

/-- Tokens up to an end token; or up to a semicolon that ends a statement, wherever among the tokens
before it that statement starts. -/
structure Segment (terminator : Terminator) (tokens : List Token) : Prop where
  ends : ∃ last, tokens.getLast? = some last ∧ last.kind = terminator.kind
  plain : terminator = .semicolon → ∀ token ∈ tokens, token.kind.isPlain = true

namespace Segment

variable {terminator : Terminator} {token : Token} {tokens others : List Token}

theorem finish (ends : ∃ last, tokens.getLast? = some last ∧ last.kind = .eof) :
    Segment .finish tokens :=
  ⟨ends, nofun⟩

/-- An end token alone. -/
theorem singleton (isEnd : token.kind = .eof) : Segment .finish [token] :=
  finish ⟨token, rfl, isEnd⟩

theorem eq_cons (segment : Segment terminator tokens) : ∃ token rest, tokens = token :: rest := by
  obtain ⟨⟨last, isLast, -⟩, -⟩ := segment
  cases tokens with
  | nil => cases isLast
  | cons token rest => exact ⟨token, rest, rfl⟩

/-- Whatever stands before an end token. -/
theorem append (segment : Segment .finish others) (tokens : List Token) :
    Segment .finish (tokens ++ others) := by
  obtain ⟨⟨last, isLast, isKind⟩, -⟩ := segment
  refine finish ⟨last, ?_, isKind⟩
  rw [List.getLast?_append, isLast, Option.some_or]

/-- What is left of a segment without its first token is a segment, unless it is nothing. -/
theorem rest (segment : Segment terminator (token :: others)) (nonempty : others ≠ []) :
    Segment terminator others := by
  obtain ⟨last, isLast, isKind⟩ := segment.ends
  refine ⟨⟨last, ?_, isKind⟩, fun isSemicolon other isOther => ?_⟩
  · rwa [List.getLast?_cons_of_ne_nil nonempty] at isLast
  · exact segment.plain isSemicolon other (List.mem_cons_of_mem _ isOther)

/-- A token of another kind than the last one has tokens after it. -/
theorem tail (segment : Segment terminator (token :: others))
    (notLast : token.kind ≠ terminator.kind) :
    Segment terminator others := by
  refine segment.rest fun isNil => ?_
  obtain ⟨last, isLast, isKind⟩ := segment.ends
  rw [isNil] at isLast
  cases isLast
  exact notLast isKind

/-- After a token that is no end token there is a segment, or the token is the semicolon that ends
it. -/
theorem cons_cases (segment : Segment terminator (token :: others)) (noEnd : token.kind ≠ .eof) :
    Segment terminator others ∨ terminator = .semicolon ∧ token.kind = .symbol .semicolon ∧
      others = [] := by
  by_cases isNil : others = []
  · obtain ⟨last, isLast, isKind⟩ := segment.ends
    rw [isNil] at isLast
    cases isLast
    cases terminator with
    | finish => exact absurd isKind noEnd
    | semicolon => exact .inr ⟨rfl, isKind, isNil⟩
  · exact .inl (segment.rest isNil)

/-- So has a token that is neither an end token nor a semicolon. -/
theorem tail_of_inner {kind : Kind} (token : Terminal kind)
    (segment : Segment terminator (token.1 :: others)) (noEnd : kind ≠ .eof)
    (inner : kind ≠ .symbol .semicolon) : Segment terminator others := by
  refine segment.tail ?_
  rw [token.2]
  cases terminator with
  | finish => exact noEnd
  | semicolon => exact inner

/-- The first token of a segment that ends with a semicolon is plain. -/
theorem first_plain (segment : Segment .semicolon (token :: others)) : token.kind.isPlain = true :=
  segment.plain rfl token List.mem_cons_self

end Segment

/-- What is left of some tokens is a segment. -/
structure Inside (terminator : Terminator) (whole left : List Token) : Prop where
  segment : Segment terminator left
  suffix : left <:+ whole

/-- What a statement leaves of some tokens if it ends well: fewer than all of them, and nothing only
if the segment ends with a semicolon. -/
structure Beyond (terminator : Terminator) (whole left : List Token) : Prop where
  segment : Segment terminator left ∨ terminator = .semicolon ∧ left = []
  suffix : left <:+ whole
  less : left.length < whole.length

namespace Inside

variable {terminator : Terminator} {whole longer left : List Token}

theorem refl (segment : Segment terminator whole) : Inside terminator whole whole :=
  ⟨segment, List.suffix_rfl⟩

theorem mono (inside : Inside terminator whole left) (suffix : whole <:+ longer) :
    Inside terminator longer left :=
  ⟨inside.segment, inside.suffix.trans suffix⟩

theorem le (inside : Inside terminator whole left) : left.length ≤ whole.length :=
  inside.suffix.length_le

theorem tail {token : Token} (inside : Inside terminator whole (token :: left))
    (notLast : token.kind ≠ terminator.kind) : Inside terminator whole left :=
  ⟨inside.segment.tail notLast, (List.suffix_cons _ _).trans inside.suffix⟩

/-- What is left after the first token, if that is neither an end token nor a semicolon. -/
theorem after {token : Token} (inside : Inside terminator whole (token :: left))
    (noEnd : token.kind ≠ .eof) (inner : token.kind ≠ .symbol .semicolon) :
    Inside terminator whole left :=
  ⟨inside.segment.tail_of_inner ⟨token, rfl⟩ noEnd inner,
    (List.suffix_cons _ _).trans inside.suffix⟩

theorem rest {kind : Kind} {token : Terminal kind}
    (inside : Inside terminator whole (token.1 :: left)) (noEnd : kind ≠ .eof)
    (inner : kind ≠ .symbol .semicolon) : Inside terminator whole left :=
  inside.after (by rwa [token.2]) (by rwa [token.2])

theorem beyond (inside : Inside terminator whole left) (less : left.length < whole.length) :
    Beyond terminator whole left :=
  ⟨.inl inside.segment, inside.suffix, less⟩

end Inside

namespace Beyond

variable {terminator : Terminator} {whole longer left : List Token}

theorem mono (beyond : Beyond terminator whole left) (suffix : whole <:+ longer) :
    Beyond terminator longer left :=
  ⟨beyond.segment, beyond.suffix.trans suffix, Nat.lt_of_lt_of_le beyond.less suffix.length_le⟩

/-- A segment that ends with an end token still does after a statement. -/
theorem inside (beyond : Beyond .finish whole left) : Inside .finish whole left := by
  obtain ⟨segment | ⟨isSemicolon, -⟩, suffix, -⟩ := beyond
  · exact ⟨segment, suffix⟩
  · cases isSemicolon

end Beyond

/-! ### Settling -/

/-- What a reading takes off a segment if it ends well: perhaps nothing, and never the last token;
or a token at least, and perhaps all of them. -/
inductive Taking where
  | some
  | statement

/-- What such a reading leaves of a segment if it ends well. If it fails, it leaves a segment. -/
def Taking.Leaves : Taking → Terminator → (whole left : List Token) → Prop
  | .some => Inside
  | .statement => Beyond

/-- With enough fuel, reading these tokens ends in one way, whatever was found
before and comes after them. -/
inductive Settles {α : Type} (taking : Taking) (terminator : Terminator) (whole : List Token)
    (size : Nat) (parse : Nat → Parse α) (tokens : List Token) (nextNode : Nat) : Prop
  | done (value : α) (left : List Token) (found : List Diagnostic) (next : Nat)
    (leaves : taking.Leaves terminator whole left)
    (ran : ∀ fuel diagnostics more, size ≤ fuel → terminator.Allows more →
      parse fuel ⟨tokens ++ more, diagnostics, nextNode⟩ =
        .done value ⟨left ++ more, diagnostics ++ found, next⟩)
  | failed (diagnostic : Diagnostic) (left : List Token) (found : List Diagnostic) (next : Nat)
    (inside : Inside terminator whole left)
    (ran : ∀ fuel diagnostics more, size ≤ fuel → terminator.Allows more →
      parse fuel ⟨tokens ++ more, diagnostics, nextNode⟩ =
        .failed diagnostic ⟨left ++ more, diagnostics ++ found, next⟩)

/-- Reading settles on segments that are so much shorter than the fuel is large. -/
def SettlesWithin {α : Type} (taking : Taking) (terminator : Terminator) (size slack : Nat)
    (parse : Nat → Parse α) :
    Prop :=
  ∀ ⦃tokens whole⦄ nextNode, Inside terminator whole tokens → 32 * tokens.length + slack ≤ size →
    Settles taking terminator whole size parse tokens nextNode

namespace Settles

variable {taking : Taking} {terminator : Terminator} {size nextNode : Nat}
  {tokens whole : List Token} {α β : Type}

/-- One unit of fuel goes into the production itself. -/
theorem of_succ {parse : Nat → Parse α}
    (settles : Settles taking terminator whole size (fun fuel => parse (fuel + 1))
      tokens nextNode) :
    Settles taking terminator whole (size + 1) parse tokens nextNode := by
  cases settles with
  | done value left found next leaves ran =>
    refine .done value left found next leaves fun fuel diagnostics more enough allows => ?_
    obtain ⟨less, rfl⟩ : ∃ less, fuel = less + 1 := ⟨fuel - 1, by omega⟩
    exact ran less diagnostics more (by omega) allows
  | failed diagnostic left found next inside ran =>
    refine .failed diagnostic left found next inside fun fuel diagnostics more enough allows => ?_
    obtain ⟨less, rfl⟩ : ∃ less, fuel = less + 1 := ⟨fuel - 1, by omega⟩
    exact ran less diagnostics more (by omega) allows

theorem pure {value : α} (leaves : taking.Leaves terminator whole tokens) :
    Settles taking terminator whole size (fun _ => pure value) tokens nextNode :=
  .done value tokens [] nextNode leaves fun _ diagnostics _ _ _ => by rw [List.append_nil]; rfl

theorem missing {expected : Expected} (inside : Inside terminator whole tokens) :
    Settles taking terminator whole size (fun _ => (Parse.missing expected : Parse α))
      tokens nextNode := by
  obtain ⟨token, rest, rfl⟩ := inside.segment.eq_cons
  refine .failed (.atToken token (.missing expected)) (token :: rest) [] nextNode inside
    fun _ diagnostics _ _ _ => ?_
  rw [List.append_nil]
  rfl

/-- A sequence whose first part ends in one way with a value settles if the rest does after it. -/
theorem after {first : Nat → Parse β} {next : β → Nat → Parse α} {value : β} {left : List Token}
    {found : List Diagnostic} {node : Nat}
    (ran : ∀ fuel diagnostics more, size ≤ fuel → terminator.Allows more →
      first fuel ⟨tokens ++ more, diagnostics, nextNode⟩ =
        .done value ⟨left ++ more, diagnostics ++ found, node⟩)
    (settles : Settles taking terminator whole size (next value) left node) :
    Settles taking terminator whole size
      (fun fuel => first fuel >>= fun value => next value fuel) tokens nextNode := by
  cases settles with
  | done result last others later leaves ranNext =>
    refine .done result last (found ++ others) later leaves
      fun fuel diagnostics more enough allows => ?_
    rw [Step.bind_done (ran fuel diagnostics more enough allows), ranNext fuel _ more enough allows,
      List.append_assoc]
  | failed diagnostic last others later inside ranNext =>
    refine .failed diagnostic last (found ++ others) later inside
      fun fuel diagnostics more enough allows => ?_
    rw [Step.bind_done (ran fuel diagnostics more enough allows), ranNext fuel _ more enough allows,
      List.append_assoc]

/-- A sequence settles if its first part does, and the rest on what is left by the first. -/
theorem bind {taking' : Taking} {part : List Token} {first : Nat → Parse β}
    {next : β → Nat → Parse α}
    (settles : Settles taking' terminator part size first tokens nextNode) (suffix : part <:+ whole)
    (rest : ∀ value left node, taking'.Leaves terminator part left →
      Settles taking terminator whole size (next value) left node) :
    Settles taking terminator whole size
      (fun fuel => first fuel >>= fun value => next value fuel) tokens nextNode := by
  cases settles with
  | done value left found node leaves ran => exact after ran (rest value left node leaves)
  | failed diagnostic left found node inside ran =>
    refine .failed diagnostic left found node (inside.mono suffix)
      fun fuel diagnostics more enough allows => ?_
    rw [Step.bind_apply, ran fuel diagnostics more enough allows]

/-- A call of a production that never takes the last token, before something that
settles on what it leaves. -/
theorem call {slack : Nat} {first : Nat → Parse β} {next : β → Nat → Parse α}
    (callee : SettlesWithin .some terminator size slack first)
    (inside : Inside terminator whole tokens) (enough : 32 * tokens.length + slack ≤ size)
    (rest : ∀ value left node, Inside terminator whole left → left.length ≤ tokens.length →
      Settles taking terminator whole size (next value) left node) :
    Settles taking terminator whole size
      (fun fuel => first fuel >>= fun value => next value fuel) tokens nextNode :=
  bind (callee nextNode (.refl inside.segment) enough) inside.suffix fun value left node isLeft =>
    rest value left node (isLeft.mono inside.suffix) isLeft.le

/-- A call of a production that reads a statement, with which the reading ends. -/
theorem callLast {slack : Nat} {first : Nat → Parse β} {make : β → α}
    (callee : SettlesWithin .statement terminator size slack first)
    (inside : Inside terminator whole tokens) (enough : 32 * tokens.length + slack ≤ size) :
    Settles .statement terminator whole size
      (fun fuel => first fuel >>= fun value => Pure.pure (make value)) tokens nextNode :=
  bind (callee nextNode (.refl inside.segment) enough) inside.suffix fun _ _ _ beyond =>
    pure (Beyond.mono beyond inside.suffix)

/-- Something that takes tokens and does nothing else, before something that settles. -/
theorem takingOnly {first : Parse β} {next : β → Nat → Parse α} {value : β} {left : List Token}
    (ran : ∀ diagnostics more, terminator.Allows more →
      first ⟨tokens ++ more, diagnostics, nextNode⟩ =
        .done value ⟨left ++ more, diagnostics, nextNode⟩)
    (settles : Settles taking terminator whole size (next value) left nextNode) :
    Settles taking terminator whole size (fun fuel => first >>= fun value => next value fuel)
      tokens nextNode := by
  have same : ∀ fuel diagnostics more, size ≤ fuel → terminator.Allows more →
      (fun _ => first) fuel ⟨tokens ++ more, diagnostics, nextNode⟩ =
        .done value ⟨left ++ more, diagnostics ++ [], nextNode⟩ := by
    intro _ diagnostics more _ allows
    rw [List.append_nil]
    exact ran diagnostics more allows
  exact after same settles

theorem view {look : Cursor → β} {next : β → Nat → Parse α} {value : β}
    (same : ∀ diagnostics more, look ⟨tokens ++ more, diagnostics, nextNode⟩ = value)
    (settles : Settles taking terminator whole size (next value) tokens nextNode) :
    Settles taking terminator whole size
      (fun fuel => Step.view look >>= fun value => next value fuel) tokens nextNode :=
  takingOnly (fun diagnostics more _ => congrArg (Outcome.done · _) (same diagnostics more)) settles

theorem peek {next : Token → Nat → Parse α} (inside : Inside terminator whole tokens)
    (settles : ∀ token rest, tokens = token :: rest →
      Settles taking terminator whole size (next token) tokens nextNode) :
    Settles taking terminator whole size
      (fun fuel => Parse.peek >>= fun token => next token fuel) tokens nextNode := by
  obtain ⟨token, rest, rfl⟩ := inside.segment.eq_cons
  exact view (fun _ _ => rfl) (settles token rest rfl)

theorem report {token : Token} {defect : Defect} {next : Nat → Parse α}
    (settles : Settles taking terminator whole size next tokens nextNode) :
    Settles taking terminator whole size
      (fun fuel => Parse.report token defect >>= fun _ => next fuel) tokens nextNode := by
  have ran : ∀ fuel diagnostics more, size ≤ fuel → terminator.Allows more →
      (fun _ => Parse.report token defect) fuel ⟨tokens ++ more, diagnostics, nextNode⟩ =
        .done () ⟨tokens ++ more, diagnostics ++ [.atToken token defect], nextNode⟩ :=
          fun _ _ _ _ _ => rfl
  exact after ran settles

theorem freshNode {next : NodeId → Nat → Parse α}
    (settles : Settles taking terminator whole size (next ⟨nextNode⟩) tokens (nextNode + 1)) :
    Settles taking terminator whole size
      (fun fuel => Parse.freshNode >>= fun node => next node fuel) tokens nextNode := by
  have ran : ∀ fuel diagnostics more, size ≤ fuel → terminator.Allows more →
      (fun _ => Parse.freshNode) fuel ⟨tokens ++ more, diagnostics, nextNode⟩ =
        .done ⟨nextNode⟩ ⟨tokens ++ more, diagnostics ++ [], nextNode + 1⟩ := by
    intro _ diagnostics more _ _
    rw [List.append_nil]
    rfl
  exact after ran settles

theorem ite {condition : Prop} [Decidable condition] {yes no : Nat → Parse α}
    (settles : condition → Settles taking terminator whole size yes tokens nextNode)
    (otherwise : ¬condition → Settles taking terminator whole size no tokens nextNode) :
    Settles taking terminator whole size (fun fuel => if condition then yes fuel else no fuel)
      tokens nextNode := by
  by_cases holds : condition
  · simp only [if_pos holds]
    exact settles holds
  · simp only [if_neg holds]
    exact otherwise holds

/-! #### Taking tokens -/

/-- Taking a token that was looked at. -/
theorem advance {token : Token} {rest : List Token} {next : Nat → Parse α}
    (inside : Inside terminator whole (token :: rest)) (noEnd : token.kind ≠ .eof)
    (inner : token.kind ≠ .symbol .semicolon)
    (settles : Inside terminator whole rest →
      Settles taking terminator whole size next rest nextNode) :
    Settles taking terminator whole size
      (fun fuel => Step.update Cursor.advance >>= fun _ => next fuel) (token :: rest) nextNode :=
  takingOnly (fun _ _ _ => rfl) (settles (inside.after noEnd inner))

/-- Whether the next token passes a test is seen in the segment. -/
theorem sees {test : Kind → Bool} {next : Bool → Nat → Parse α}
    (inside : Inside terminator whole tokens)
    (settles : ∀ seen, Settles taking terminator whole size (next seen) tokens nextNode) :
    Settles taking terminator whole size
      (fun fuel => Parse.sees test >>= fun seen => next seen fuel) tokens nextNode := by
  obtain ⟨token, rest, rfl⟩ := inside.segment.eq_cons
  have same : ∀ diagnostics more, Cursor.sees ⟨token :: rest ++ more, diagnostics, nextNode⟩ test =
      Cursor.sees ⟨token :: rest, [], nextNode⟩ test := fun _ _ => rfl
  exact view same (settles _)

/-- Taking a token that passes a test, which a semicolon does not. -/
theorem takeIf {test : Kind → Bool} {next : Option Token → Nat → Parse α}
    (inside : Inside terminator whole tokens) (inner : test (.symbol .semicolon) = false)
    (taken : ∀ token rest, Inside terminator whole rest → rest.length < tokens.length →
      Settles taking terminator whole size (next (some token)) rest nextNode)
    (left : Settles taking terminator whole size (next none) tokens nextNode) :
    Settles taking terminator whole size
      (fun fuel => Parse.takeIf test >>= fun found => next found fuel) tokens nextNode := by
  obtain ⟨token, rest, rfl⟩ := inside.segment.eq_cons
  by_cases isEnd : token.kind = .eof
  · have unseen : ∀ diagnostics more,
        Cursor.sees ⟨token :: rest ++ more, diagnostics, nextNode⟩ test = false := by
      intro diagnostics more
      simp [Cursor.sees, Cursor.atEnd, Cursor.peek, isEnd]
    refine takingOnly (fun diagnostics more _ => ?_) left
    rw [Parse.takeIf, if_neg (by rw [unseen]; exact Bool.false_ne_true)]
  · cases passes : test token.kind with
    | false => exact takingOnly (fun _ _ _ => takeIf_none passes) left
    | true =>
      have isInner : token.kind ≠ .symbol .semicolon := by
        intro isSemicolon
        rw [isSemicolon] at passes
        exact Bool.false_ne_true (inner.symm.trans passes)
      have isRest := inside.after isEnd isInner
      exact takingOnly (fun _ _ _ => takeIf_some isEnd passes)
        (taken token rest isRest (Nat.lt_succ_self _))

theorem takes {kind : Kind} {next : Bool → Nat → Parse α} (inside : Inside terminator whole tokens)
    (noEnd : kind ≠ .eof)
    (taken : ∀ (token : Terminal kind) rest, tokens = token.1 :: rest →
      Settles taking terminator whole size (next true) rest nextNode)
    (left : Settles taking terminator whole size (next false) tokens nextNode) :
    Settles taking terminator whole size
      (fun fuel => Parse.takes kind >>= fun took => next took fuel) tokens nextNode := by
  obtain ⟨token, rest, rfl⟩ := inside.segment.eq_cons
  by_cases isKind : token.kind = kind
  · exact takingOnly (fun _ _ _ => takes_true ⟨token, isKind⟩ noEnd)
      (taken ⟨token, isKind⟩ rest rfl)
  · exact takingOnly (fun _ _ _ => takes_false isKind) left

/-- Taking a token of a kind other than a semicolon, if it is there. -/
theorem takesInner {kind : Kind} {next : Bool → Nat → Parse α}
    (inside : Inside terminator whole tokens) (noEnd : kind ≠ .eof)
    (inner : kind ≠ .symbol .semicolon)
    (taken : ∀ rest, Inside terminator whole rest → rest.length < tokens.length →
      Settles taking terminator whole size (next true) rest nextNode)
    (left : Settles taking terminator whole size (next false) tokens nextNode) :
    Settles taking terminator whole size
      (fun fuel => Parse.takes kind >>= fun took => next took fuel) tokens nextNode := by
  refine takes inside noEnd (fun token rest isTokens => ?_) left
  subst isTokens
  exact taken rest (inside.rest noEnd inner) (Nat.lt_succ_self _)

theorem expect {kind : Kind} {expected : Expected} {next : Token → Nat → Parse α}
    (inside : Inside terminator whole tokens) (noEnd : kind ≠ .eof)
    (taken : ∀ (token : Terminal kind) rest, tokens = token.1 :: rest →
      Settles taking terminator whole size (next token.1) rest nextNode) :
    Settles taking terminator whole size
      (fun fuel => Parse.expect kind expected >>= fun token => next token fuel)
      tokens nextNode := by
  obtain ⟨token, rest, rfl⟩ := inside.segment.eq_cons
  by_cases isKind : token.kind = kind
  · exact takingOnly (fun _ _ _ => expect_terminal ⟨token, isKind⟩ noEnd expected)
      (taken ⟨token, isKind⟩ rest rfl)
  · refine .failed (.atToken token (.missing expected)) (token :: rest) [] nextNode inside
      fun _ diagnostics more _ _ => ?_
    have other : decide (token.kind = kind) = false := by simpa using isKind
    rw [Step.bind_apply, Parse.expect, Step.bind_done (takeIf_none (by exact other)),
      List.append_nil]
    rfl

/-- Insisting on a token of a kind other than a semicolon. -/
theorem expectInner {kind : Kind} {expected : Expected} {next : Token → Nat → Parse α}
    (inside : Inside terminator whole tokens) (noEnd : kind ≠ .eof)
    (inner : kind ≠ .symbol .semicolon)
    (taken : ∀ (token : Terminal kind) rest, Inside terminator whole rest →
    rest.length < tokens.length →
      Settles taking terminator whole size (next token.1) rest nextNode) :
    Settles taking terminator whole size
      (fun fuel => Parse.expect kind expected >>= fun token => next token fuel)
      tokens nextNode := by
  refine expect inside noEnd fun token rest isTokens => ?_
  subst isTokens
  exact taken token rest (inside.rest noEnd inner) (Nat.lt_succ_self _)

/-- The semicolon after a statement. -/
theorem expectSemicolon {expected : Expected} {value : α}
    (inside : Inside terminator whole tokens) :
    Settles .statement terminator whole size
      (fun _ => Parse.expect (.symbol .semicolon) expected >>= fun _ => (Pure.pure value : Parse α))
        tokens
      nextNode := by
  refine expect inside nofun fun token rest isTokens => pure ?_
  subst isTokens
  refine ⟨?_, (List.suffix_cons _ _).trans inside.suffix, inside.le⟩
  have noEnd : token.1.kind ≠ .eof := by
    rw [token.2]
    nofun
  exact (inside.segment.cons_cases noEnd).imp id fun ⟨isSemicolon, _, isNil⟩ => ⟨isSemicolon, isNil⟩

theorem parametersAfter (count size : Nat) :
    SettlesWithin .some terminator size 0 (Parse.parametersAfter count) := by
  induction size generalizing count with
  | zero =>
    intro tokens whole nextNode inside enough
    obtain ⟨token, rest, rfl⟩ := inside.segment.eq_cons
    rw [List.length_cons] at enough
    omega
  | succ size ih =>
    intro tokens whole nextNode inside enough
    have rest : Settles .some terminator whole size (fun fuel => do
        let name ← Parse.expect .identifier .parameterName
        if ← Parse.takes (.symbol .comma) then
          return name :: (← Parse.parametersAfter (count + 1) fuel)
        let _ ← Parse.expect (.symbol .rightParen) .parametersEnd
        return [name]) tokens nextNode := by
      refine expectInner inside nofun nofun fun name rest inside less => ?_
      refine takesInner inside nofun nofun (fun rest inside less => ?_) ?_
      · exact call (ih (count + 1)) inside (by omega) fun others left node inside le => pure inside
      · exact expectInner inside nofun nofun fun closing rest inside less => pure inside
    refine .of_succ (ite (fun _ => ?_) fun _ => rest)
    exact peek inside fun token _ _ => report rest

theorem parameters (size : Nat) : SettlesWithin .some terminator size 0 Parse.parameters := by
  intro tokens whole nextNode inside enough
  refine sees inside fun closed => ite (fun _ => ?_)
    fun _ => parametersAfter 0 size nextNode inside enough
  exact expectInner inside nofun nofun fun closing rest inside less => pure inside

end Settles

/-! ### Going on after a failure -/

section

variable {terminator : Terminator} {tokens : List Token}

/-- The next statement boundary is in the segment, or right after the semicolon that ends it. -/
theorem skipToBoundary_segment {previous : Token}
    (segment : Segment terminator tokens ∨ terminator = .semicolon ∧
      previous.kind = .symbol .semicolon ∧ tokens = []) :
    ∃ left, (Segment terminator left ∨ terminator = .semicolon ∧ left = []) ∧ left <:+ tokens ∧
      ∀ more, skipToBoundary previous (tokens ++ more) = left ++ more := by
  induction tokens generalizing previous with
  | nil =>
    rcases segment with segment | ⟨isSemicolon, isPrevious, -⟩
    · obtain ⟨_, _, isCons⟩ := segment.eq_cons
      cases isCons
    · refine ⟨[], .inr ⟨isSemicolon, rfl⟩, List.suffix_rfl, fun more => ?_⟩
      cases more with
      | nil => rfl
      | cons token rest =>
        rw [List.nil_append, skipToBoundary, if_pos (.inr (.inl isPrevious))]
  | cons token rest ih =>
    have segment : Segment terminator (token :: rest) :=
      segment.resolve_right fun ⟨_, _, isNil⟩ => nomatch isNil
    by_cases stops : token.kind = .eof ∨ previous.kind = .symbol .semicolon ∨
      token.kind.startsStatement = true
    · refine ⟨token :: rest, .inl segment, List.suffix_rfl, fun more => ?_⟩
      rw [List.cons_append, skipToBoundary, if_pos stops]
    · have noEnd : token.kind ≠ .eof := fun isEnd => stops (.inl isEnd)
      obtain ⟨left, isLeft, suffix, same⟩ := ih (segment.cons_cases noEnd)
      refine ⟨left, isLeft, suffix.trans (List.suffix_cons _ _), fun more => ?_⟩
      rw [List.cons_append, skipToBoundary, if_neg stops, same]

/-- Going on after a failure skips a token at least, and stays in the segment. -/
theorem resumption_segment (segment : Segment terminator tokens)
    (noEnd : (firstToken tokens).kind ≠ .eof) :
    ∃ left, Beyond terminator tokens left ∧ ∀ more, resumption (tokens ++ more) = left ++ more := by
  obtain ⟨token, rest, rfl⟩ := segment.eq_cons
  obtain ⟨left, isLeft, suffix, same⟩ := skipToBoundary_segment (segment.cons_cases noEnd)
  refine ⟨left, ⟨isLeft, suffix.trans (List.suffix_cons _ _), Nat.lt_succ_of_le suffix.length_le⟩,
    fun more => ?_⟩
  rw [List.cons_append, resumption, if_neg (by exact noEnd), same]

/-- A failure at the end of the segment goes nowhere. -/
theorem resumption_finish (isEnd : (firstToken tokens).kind = .eof) (more : List Token)
    (segment : Segment terminator tokens) : resumption (tokens ++ more) = tokens ++ more := by
  obtain ⟨token, rest, rfl⟩ := segment.eq_cons
  rw [List.cons_append, resumption, if_pos (by exact isEnd)]

end

/-- What is read from before the end of a segment, with going on after a failure, takes a token at
least. -/
theorem Settles.recover {terminator : Terminator} {size nextNode : Nat} {tokens whole : List Token}
    {α : Type} {parse : Nat → Parse α}
    (settles : Settles .statement terminator tokens size parse tokens nextNode)
    (noEnd : (firstToken tokens).kind ≠ .eof) (suffix : tokens <:+ whole) :
    Settles .statement terminator whole size (fun fuel => Parse.recover (parse fuel))
      tokens nextNode := by
  cases settles with
  | done value left found next leaves ran =>
    refine .done (some value) left found next (Beyond.mono leaves suffix)
      fun fuel diagnostics more enough allows => ?_
    rw [Parse.recover, ran fuel diagnostics more enough allows]
  | failed diagnostic left found next inside ran =>
    obtain ⟨resumed, beyond, same⟩ : ∃ resumed, Beyond terminator tokens resumed ∧
        ∀ more, resumption (left ++ more) = resumed ++ more := by
      by_cases isEnd : (firstToken left).kind = .eof
      · -- the failure is at the end token, which is not where the reading started
        have other : left.length ≠ tokens.length := by
          intro same
          rw [inside.suffix.eq_of_length same] at isEnd
          exact noEnd isEnd
        have less : left.length < tokens.length := Nat.lt_of_le_of_ne inside.le other
        exact ⟨left, ⟨.inl inside.segment, inside.suffix, less⟩, fun more =>
          resumption_finish isEnd more inside.segment⟩
      · obtain ⟨resumed, beyond, same⟩ := resumption_segment inside.segment isEnd
        exact ⟨resumed, beyond.mono inside.suffix, same⟩
    refine .done none resumed (found ++ [diagnostic]) next (beyond.mono suffix)
      fun fuel diagnostics more enough allows => ?_
    rw [Parse.recover, ran fuel diagnostics more enough allows]
    dsimp only [Cursor.record]
    rw [same, List.append_assoc]

/-! ### Productions -/

/-- With fuel from this size on, all productions settle on segments that are short enough. -/
structure AllSettle (size : Nat) : Prop where
  expression : ∀ terminator, SettlesWithin .some terminator size 15 Parse.expression
  ternary : ∀ terminator, SettlesWithin .some terminator size 14 Parse.ternary
  binary : ∀ terminator (level : Level),
    SettlesWithin .some terminator size level.height (Parse.binary level)
  operand : ∀ terminator (level : Level),
    SettlesWithin .some terminator size (level.height - 1) (Parse.operand level)
  joined : ∀ terminator level left, SettlesWithin .some terminator size 0 (Parse.joined level left)
  unary : ∀ terminator, SettlesWithin .some terminator size 1 Parse.unary
  calls : ∀ terminator callee, SettlesWithin .some terminator size 0 (Parse.calls callee)
  arguments : ∀ terminator, SettlesWithin .some terminator size 17 Parse.arguments
  argumentsAfter : ∀ terminator count,
    SettlesWithin .some terminator size 16 (Parse.argumentsAfter count)
  primary : ∀ terminator, SettlesWithin .some terminator size 0 Parse.primary
  functionBody : ∀ terminator beforeParameters beforeBody,
    SettlesWithin .some terminator size 0 (Parse.functionBody beforeParameters beforeBody)
  block : SettlesWithin .statement .finish size 20 Parse.block
  declarations : ∀ stop, SettlesWithin .some .finish size 19 (Parse.declarations stop)
  declaration : ∀ ⦃terminator tokens whole⦄ nextNode, Inside terminator whole tokens →
    (firstToken tokens).kind ≠ .eof → 32 * tokens.length + 18 ≤ size →
    Settles .statement terminator whole size Parse.declaration tokens nextNode
  varDeclaration : ∀ terminator, SettlesWithin .statement terminator size 0 Parse.varDeclaration
  initializer : ∀ terminator, SettlesWithin .some terminator size 0 Parse.initializer
  statement : ∀ terminator, SettlesWithin .statement terminator size 17 Parse.statement
  expressionStatement : ∀ terminator,
    SettlesWithin .statement terminator size 16 Parse.expressionStatement
  unlessSeen : ∀ terminator kind, SettlesWithin .some terminator size 16 (Parse.unlessSeen kind)
  ifStatement : ∀ terminator, SettlesWithin .statement terminator size 0 Parse.ifStatement
  forStatement : SettlesWithin .statement .finish size 0 Parse.forStatement
  forInitializer : SettlesWithin .statement .finish size 17 Parse.forInitializer

section

open Settles

variable {size : Nat} {terminator : Terminator} (ih : AllSettle size)

include ih

theorem settles_expression : SettlesWithin .some terminator (size + 1) 15 Parse.expression := by
  intro tokens whole nextNode inside enough
  refine .of_succ (call (ih.ternary terminator) inside (by omega)
    fun target left node inside le => ?_)
  refine takeIf inside (by decide) (fun equals rest inside less => ?_) (pure inside)
  refine call (ih.expression terminator) inside (by omega) fun value left node inside le => ?_
  cases target with
  | «variable» => exact freshNode (pure inside)
  | _ => exact report (pure inside)

theorem settles_ternary : SettlesWithin .some terminator (size + 1) 14 Parse.ternary := by
  intro tokens whole nextNode inside enough
  refine .of_succ (call (ih.binary terminator .or) inside (Nat.le_of_lt_succ enough)
    fun condition left node inside le => ?_)
  refine takeIf inside (by decide) (fun question rest inside less => ?_) (pure inside)
  refine call (ih.expression terminator) inside (by omega) fun yes left node inside le => ?_
  refine expectInner inside nofun nofun fun colon rest inside less => ?_
  exact call (ih.ternary terminator) inside (by omega) fun no left node inside le => pure inside

theorem settles_binary (level : Level) :
    SettlesWithin .some terminator (size + 1) level.height (Parse.binary level) := by
  intro tokens whole nextNode inside enough
  have high := level.two_lt_height
  refine .of_succ (call (ih.operand terminator level) inside (by omega)
    fun first left node inside le => ?_)
  exact ih.joined terminator level first node inside (by omega)

theorem settles_operand (level : Level) :
    SettlesWithin .some terminator (size + 1) (level.height - 1) (Parse.operand level) := by
  intro tokens whole nextNode inside enough
  have high := level.two_lt_height
  refine .of_succ ?_
  unfold Parse.operand
  cases next : level.tighter? with
  | none => exact ih.unary terminator nextNode inside (by omega)
  | some tighter =>
    rw [Level.height_of_tighter next] at enough
    exact ih.binary terminator tighter nextNode inside (by omega)

theorem settles_joined (level : Level) (left : Expr) :
    SettlesWithin .some terminator (size + 1) 0 (Parse.joined level left) := by
  intro tokens whole nextNode inside enough
  have inner : level.holds (.symbol .semicolon) = false := by cases level <;> decide
  have low : level.height ≤ 13 := by cases level <;> decide
  refine .of_succ (takeIf inside inner (fun operator rest inside less => ?_) (pure inside))
  refine call (ih.operand terminator level) inside (by omega) fun right left node inside le => ?_
  exact ih.joined terminator level _ node inside (by omega)

theorem settles_unary : SettlesWithin .some terminator (size + 1) 1 Parse.unary := by
  intro tokens whole nextNode inside enough
  refine .of_succ (takeIf inside (by decide) (fun operator rest inside less => ?_) ?_)
  · exact call (ih.unary terminator) inside (by omega) fun right left node inside le => pure inside
  · refine call (ih.primary terminator) inside (by omega) fun callee left node inside le => ?_
    exact ih.calls terminator callee node inside (by omega)

theorem settles_calls (callee : Expr) :
    SettlesWithin .some terminator (size + 1) 0 (Parse.calls callee) := by
  intro tokens whole nextNode inside enough
  refine .of_succ (takesInner inside nofun nofun (fun rest inside less => ?_) (pure inside))
  refine call (ih.arguments terminator) inside (by omega) fun arguments left node inside le => ?_
  refine expectInner inside nofun nofun fun closing rest inside less => ?_
  exact ih.calls terminator _ node inside (by omega)

theorem settles_arguments : SettlesWithin .some terminator (size + 1) 17 Parse.arguments := by
  intro tokens whole nextNode inside enough
  refine .of_succ (sees inside fun closed => ite (fun _ => pure inside) fun _ => ?_)
  exact ih.argumentsAfter terminator 0 nextNode inside (by omega)

theorem settles_argumentsAfter (count : Nat) :
    SettlesWithin .some terminator (size + 1) 16 (Parse.argumentsAfter count) := by
  intro tokens whole nextNode inside enough
  have rest : Settles .some terminator whole size (fun fuel => do
      let argument ← Parse.expression fuel
      if ← Parse.takes (.symbol .comma) then
        return argument :: (← Parse.argumentsAfter (count + 1) fuel)
      return [argument]) tokens nextNode := by
    refine call (ih.expression terminator) inside (by omega) fun argument left node inside le => ?_
    refine takesInner inside nofun nofun (fun rest inside less => ?_) (pure inside)
    exact call (ih.argumentsAfter terminator (count + 1)) inside (by omega)
      fun others left node inside le =>
      pure inside
  refine .of_succ (ite (fun _ => ?_) fun _ => rest)
  exact peek inside fun token _ _ => report rest

theorem settles_primary : SettlesWithin .some terminator (size + 1) 0 Parse.primary := by
  intro tokens whole nextNode inside enough
  refine .of_succ (peek inside fun token rest isTokens => ?_)
  subst isTokens
  rw [List.length_cons] at enough
  have alone : ∀ value, token.kind ≠ .eof → token.kind ≠ .symbol .semicolon →
      Settles .some terminator whole size (fun _ => Parse.taken value) (token :: rest) nextNode :=
    fun value noEnd inner => advance inside noEnd inner fun inside => pure inside
  split
  case h_6 isKind =>
    exact advance inside (by simp [isKind]) (by simp [isKind]) fun inside => freshNode (pure inside)
  case h_7 isKind =>
    refine advance inside (by simp [isKind]) (by simp [isKind]) fun inside => ?_
    refine call (ih.expression terminator) inside (by omega) fun inner left node inside le => ?_
    exact expectInner inside nofun nofun fun closing rest inside less => pure inside
  case h_8 isKind =>
    refine advance inside (by simp [isKind]) (by simp [isKind]) fun inside => ?_
    exact call (ih.functionBody terminator _ _) inside (by omega)
      fun function left node inside le => pure inside
  case h_9 => exact missing inside
  all_goals
    rename_i isKind
    exact alone _ (by simp [isKind]) (by simp [isKind])

/-- In a segment that ends with a semicolon, a function comes to nothing for lack of a brace. -/
theorem settles_functionBody (beforeParameters beforeBody : Expected) :
    SettlesWithin .some terminator (size + 1) 0
      (Parse.functionBody beforeParameters beforeBody) := by
  intro tokens whole nextNode inside enough
  refine .of_succ (expectInner inside nofun nofun fun opening rest inside less => ?_)
  refine call (parameters size) inside (by omega) fun names left node inside le => ?_
  refine expect inside nofun fun brace rest isLeft => ?_
  subst isLeft
  cases terminator with
  | semicolon =>
    have plain := inside.segment.first_plain
    rw [brace.2] at plain
    cases plain
  | finish =>
    have isRest := inside.rest nofun nofun
    rw [List.length_cons] at le
    exact bind (ih.block _ (.refl isRest.segment) (by omega)) isRest.suffix
        fun forms left node beyond =>
      pure (beyond.inside.mono isRest.suffix)

theorem settles_block : SettlesWithin .statement .finish (size + 1) 20 Parse.block := by
  intro tokens whole nextNode inside enough
  refine .of_succ (call (ih.declarations _) inside (by omega) fun forms left node inside le => ?_)
  refine expect inside nofun fun brace rest isLeft => pure ?_
  subst isLeft
  have isRest := inside.rest nofun nofun
  exact ⟨.inl isRest.segment, isRest.suffix, inside.le⟩

theorem settles_declarations (stop : Kind → Bool) :
    SettlesWithin .some .finish (size + 1) 19 (Parse.declarations stop) := by
  intro tokens whole nextNode inside enough
  obtain ⟨token, rest, rfl⟩ := inside.segment.eq_cons
  have same : ∀ diagnostics more, (fun cursor : Cursor => cursor.atEnd || cursor.sees stop)
      ⟨token :: rest ++ more, diagnostics, nextNode⟩ =
        (decide (token.kind = .eof) || Cursor.sees ⟨token :: rest, [], nextNode⟩ stop) :=
          fun _ _ => rfl
  refine .of_succ (view same (ite (fun _ => pure inside) fun goesOn => ?_))
  have noEnd : token.kind ≠ .eof := fun isEnd => goesOn (by rw [isEnd]; rfl)
  refine bind (ih.declaration nextNode (.refl inside.segment) noEnd (by omega)) inside.suffix
    fun first left node beyond => ?_
  have isLeft := beyond.inside.mono inside.suffix
  have less := beyond.less
  exact call (ih.declarations stop) isLeft (by omega) fun others left node inside le => pure inside

theorem settles_declaration {tokens whole : List Token} (nextNode : Nat)
    (inside : Inside terminator whole tokens) (noEnd : (firstToken tokens).kind ≠ .eof)
    (enough : 32 * tokens.length + 18 ≤ size + 1) :
    Settles .statement terminator whole (size + 1) Parse.declaration tokens nextNode := by
  have tight := Inside.refl inside.segment
  obtain ⟨token, rest, rfl⟩ := inside.segment.eq_cons
  -- the second token is looked at only after a `fun`, which does not end a segment
  have same : ∀ diagnostics more,
      Cursor.seesFunction ⟨token :: rest ++ more, diagnostics, nextNode⟩ =
      Cursor.seesFunction ⟨token :: rest, [], nextNode⟩ := by
    intro diagnostics more
    rcases inside.segment.cons_cases noEnd with segment | ⟨-, isSemicolon, rfl⟩
    · obtain ⟨second, others, rfl⟩ := segment.eq_cons
      rfl
    · simp [Cursor.seesFunction, Cursor.sees, Cursor.peek, isSemicolon]
  refine .of_succ (.recover (view same (ite (fun isFunction => ?_) fun _ => ?_))
    noEnd inside.suffix)
  · have isFun : token.kind = .keyword .fun := by
      simp only [Cursor.seesFunction, Cursor.sees, Bool.and_eq_true, decide_eq_true_eq]
        at isFunction
      exact isFunction.1.2
    rw [List.length_cons] at enough
    refine advance tight noEnd (by simp [isFun]) fun inside => ?_
    refine expectInner inside (by decide) (by decide) fun name rest inside less => ?_
    refine call (ih.functionBody terminator _ _) inside (by omega)
      fun function left node inside le => ?_
    exact pure (inside.beyond (by rw [List.length_cons]; omega))
  · refine takesInner tight (by decide) (by decide) (fun rest inside less => ?_) ?_
    · exact ih.varDeclaration terminator nextNode inside (by omega)
    · exact ih.statement terminator nextNode tight (by omega)

theorem settles_varDeclaration :
    SettlesWithin .statement terminator (size + 1) 0 Parse.varDeclaration := by
  intro tokens whole nextNode inside enough
  refine .of_succ (expectInner inside nofun nofun fun name rest inside less => ?_)
  refine call (ih.initializer terminator) inside (by omega) fun value left node inside le => ?_
  exact expectSemicolon inside

theorem settles_initializer : SettlesWithin .some terminator (size + 1) 0 Parse.initializer := by
  intro tokens whole nextNode inside enough
  refine .of_succ (takesInner inside nofun nofun (fun rest inside less => ?_) (pure inside))
  exact call (ih.expression terminator) inside (by omega)
    fun value left node inside le => pure inside

theorem settles_statement : SettlesWithin .statement terminator (size + 1) 17 Parse.statement := by
  intro tokens whole nextNode inside enough
  refine .of_succ (peek inside fun token rest isTokens => ?_)
  subst isTokens
  have plain : terminator = .semicolon → token.kind.isPlain = true := fun isSemicolon =>
    inside.segment.plain isSemicolon token List.mem_cons_self
  rw [List.length_cons] at enough
  split
  case h_1 isKind =>
    cases terminator with
    | semicolon =>
      rw [isKind] at plain
      cases plain rfl
    | finish =>
      refine advance inside (by simp [isKind]) (by simp [isKind]) fun inside => ?_
      exact ih.forStatement nextNode inside (by omega)
  case h_2 isKind =>
    refine advance inside (by simp [isKind]) (by simp [isKind]) fun inside => ?_
    exact ih.ifStatement terminator nextNode inside (by omega)
  case h_3 isKind =>
    refine advance inside (by simp [isKind]) (by simp [isKind]) fun inside => ?_
    refine expectInner inside nofun nofun fun opening rest inside less => ?_
    refine call (ih.expression terminator) inside (by omega) fun condition left node inside le => ?_
    refine expectInner inside nofun nofun fun closing rest inside less => ?_
    exact callLast (ih.statement terminator) inside (by omega)
  case h_4 isKind =>
    refine advance inside (by simp [isKind]) (by simp [isKind]) fun inside => ?_
    exact call (ih.unlessSeen terminator _) inside (by omega)
      fun value left node inside le => expectSemicolon inside
  case h_5 isKind =>
    cases terminator with
    | semicolon =>
      rw [isKind] at plain
      cases plain rfl
    | finish =>
      refine advance inside (by simp [isKind]) (by simp [isKind]) fun inside => ?_
      exact callLast ih.block inside (by omega)
  case h_6 isKind =>
    refine advance inside (by simp [isKind]) (by simp [isKind]) fun inside => ?_
    exact call (ih.expression terminator) inside (by omega)
      fun value left node inside le => expectSemicolon inside
  case h_7 =>
    exact ih.expressionStatement terminator nextNode inside (by rw [List.length_cons]; omega)

theorem settles_expressionStatement :
    SettlesWithin .statement terminator (size + 1) 16 Parse.expressionStatement := by
  intro tokens whole nextNode inside enough
  exact .of_succ (call (ih.expression terminator) inside (by omega) fun value left node inside le =>
    expectSemicolon inside)

theorem settles_unlessSeen (kind : Kind) :
    SettlesWithin .some terminator (size + 1) 16 (Parse.unlessSeen kind) := by
  intro tokens whole nextNode inside enough
  refine .of_succ (sees inside fun seen => ite (fun _ => pure inside) fun _ => ?_)
  exact call (ih.expression terminator) inside (by omega)
    fun value left node inside le => pure inside

theorem settles_ifStatement :
    SettlesWithin .statement terminator (size + 1) 0 Parse.ifStatement := by
  intro tokens whole nextNode inside enough
  refine .of_succ (expectInner inside nofun nofun fun opening rest inside less => ?_)
  refine call (ih.expression terminator) inside (by omega) fun condition left node inside le => ?_
  refine expectInner inside nofun nofun fun closing rest inside less => ?_
  refine bind (ih.statement terminator _ (.refl inside.segment) (by omega)) inside.suffix
    fun yes left node beyond => ?_
  have fewer := beyond.less
  have beyondAll := Beyond.mono beyond inside.suffix
  rcases beyond.segment with segment | ⟨isSemicolon, rfl⟩
  · refine takesInner ⟨segment, beyondAll.suffix⟩ nofun nofun (fun rest inside less => ?_)
      (pure beyondAll)
    exact callLast (ih.statement terminator) inside (by omega)
  · -- the branch ends the segment, after which there is no `else`
    subst isSemicolon
    exact takingOnly (fun _ _ allows => takes_false allows) (pure beyondAll)

theorem settles_forStatement :
    SettlesWithin .statement .finish (size + 1) 0 Parse.forStatement := by
  intro tokens whole nextNode inside enough
  refine .of_succ (expectInner inside nofun nofun fun opening rest inside less => ?_)
  refine bind (ih.forInitializer _ (.refl inside.segment) (by omega)) inside.suffix
    fun initializer left node beyond => ?_
  have fewer := beyond.less
  refine call (ih.unlessSeen .finish _) (beyond.inside.mono inside.suffix) (by omega)
    fun condition left node inside le => ?_
  refine expect inside nofun fun semicolon rest isLeft => ?_
  subst isLeft
  rw [List.length_cons] at le
  have isRest : Inside .finish whole rest := inside.tail (by rw [semicolon.2]; nofun)
  refine call (ih.unlessSeen .finish _) isRest (by omega) fun increment left node inside le => ?_
  refine expectInner inside nofun nofun fun closing rest inside less => ?_
  exact callLast (ih.statement .finish) inside (by omega)

theorem settles_forInitializer :
    SettlesWithin .statement .finish (size + 1) 17 Parse.forInitializer := by
  intro tokens whole nextNode inside enough
  refine .of_succ (takes inside nofun (fun semicolon rest isTokens => ?_) ?_)
  · subst isTokens
    exact pure ((inside.tail (by rw [semicolon.2]; nofun)).beyond inside.le)
  · refine takesInner inside nofun nofun (fun rest inside less => ?_) ?_
    · exact callLast (ih.varDeclaration .finish) inside (by omega)
    · exact callLast (ih.expressionStatement .finish) inside (by omega)

end

/-- **All productions settle on segments.** -/
theorem settled (size : Nat) : AllSettle size := by
  induction size with
  | zero =>
    -- no segment is so short
    have none : ∀ {α : Type} (taking : Taking) (terminator : Terminator)
        (slack : Nat) (parse : Nat → Parse α), SettlesWithin taking terminator 0 slack parse := by
      intro α taking terminator slack parse tokens whole nextNode inside enough
      obtain ⟨token, rest, rfl⟩ := inside.segment.eq_cons
      rw [List.length_cons] at enough
      omega
    constructor
    case declaration =>
      intro terminator tokens whole nextNode inside noEnd enough
      exact none .statement terminator 18 _ nextNode inside enough
    all_goals
      intros
      apply none
  | succ size ih =>
    exact {
      expression := fun _ => settles_expression ih
      ternary := fun _ => settles_ternary ih
      binary := fun _ => settles_binary ih
      operand := fun _ => settles_operand ih
      joined := fun _ => settles_joined ih
      unary := fun _ => settles_unary ih
      calls := fun _ => settles_calls ih
      arguments := fun _ => settles_arguments ih
      argumentsAfter := fun _ => settles_argumentsAfter ih
      primary := fun _ => settles_primary ih
      functionBody := fun _ => settles_functionBody ih
      block := settles_block ih
      declarations := settles_declarations ih
      declaration := fun _ _ _ nextNode => settles_declaration ih nextNode
      varDeclaration := fun _ => settles_varDeclaration ih
      initializer := fun _ => settles_initializer ih
      statement := fun _ => settles_statement ih
      expressionStatement := fun _ => settles_expressionStatement ih
      unlessSeen := fun _ => settles_unlessSeen ih
      ifStatement := fun _ => settles_ifStatement ih
      forStatement := settles_forStatement ih
      forInitializer := settles_forInitializer ih }

end Lox
