/-
**Parsing ends, inside its token list.**

* `Read.StaysInside tokens read` — from anywhere up to the first end token, `read` asks for no token
  that is not there, and wherever it ends, it has not gone back, and not over the first end token.
  All productions do so.
* `Read.Advances` — where a reading ends with a value, it has taken a token. A statement has, and so
  has a declaration that failed, when it has found the next statement (`progress_declaration`).
* `parsing_stays_inside` — so a program is read exactly up to the first end token, with fuel that
  grows with the number of tokens; and what it is read as, or what is wrong with it, does not depend
  on the tokens after that.
-/

import Lox.Proofs.Grammar.Indexed
import Lox.Proofs.Grammar.Recovery

namespace Lox

/-! ### Going forward -/

namespace Read

variable {α β : Type}

/-- The reading does what some reading off a cursor does, and so only goes forward. -/
def Forward (read : Read α) : Prop :=
  ∃ parse, Follows parse read

/-- Where an end token is to come, the reading takes a token at least if it ends with a value. -/
def Advances (read : Read α) : Prop :=
  ∀ ⦃reader value later⦄, reader.HasEnd → read reader = .done value later →
    reader.position < later.position

namespace Forward

theorem pure (value : α) : (pure value : Read α).Forward :=
  ⟨_, .pure value⟩

theorem bind {first : Read β} {next : β → Read α} (forward : first.Forward)
    (rest : ∀ value, (next value).Forward) : (first >>= next).Forward := by
  obtain ⟨parse, follows⟩ := forward
  choose others followsRest using rest
  exact ⟨_, follows.bind followsRest⟩

theorem expect (kind : Kind) (expected : Expected) : (Read.expect kind expected).Forward :=
  ⟨_, .expect kind expected⟩

theorem takes (kind : Kind) : (Read.takes kind).Forward :=
  ⟨_, .takes kind⟩

theorem production (production : Production α) (fuel : Nat) : (production.read fuel).Forward :=
  ⟨_, followed fuel production⟩

theorem goes {read : Read α} {reader later : Reader} {value : α} (forward : read.Forward)
    (hasEnd : reader.HasEnd) (ran : read reader = .done value later) : reader.Goes later := by
  obtain ⟨parse, follows⟩ := forward
  have reaches := follows reader hasEnd
  rw [ran] at reaches
  exact reaches.goes

end Forward

namespace Advances

variable {first : Read β} {next : β → Read α}

/-- Progress in the first part of a sequence is progress. -/
theorem bind (advances : first.Advances) (forward : first.Forward)
    (rest : ∀ value, (next value).Forward) :
    (first >>= next).Advances := by
  intro reader value later hasEnd ran
  obtain ⟨result, between, ranFirst, ranNext⟩ := Step.of_bind_done ran
  have further := advances hasEnd ranFirst
  have onward := ((rest result).goes ((forward.goes hasEnd ranFirst).hasEnd hasEnd) ranNext).le
  omega

/-- So is progress in the part after that. -/
theorem after (forward : first.Forward) (advances : ∀ value, (next value).Advances) :
    (first >>= next).Advances := by
  intro reader value later hasEnd ran
  obtain ⟨result, between, ranFirst, ranNext⟩ := Step.of_bind_done ran
  have goes := forward.goes hasEnd ranFirst
  have onward := goes.le
  have further := advances result (goes.hasEnd hasEnd) ranNext
  omega

/-- A token that is expected is taken. -/
theorem expect (kind : Kind) (expected : Expected) : (Read.expect kind expected).Advances := by
  intro reader value later hasEnd ran
  obtain ⟨token, others, isRest⟩ := hasEnd.eq_cons
  unfold Read.expect at ran
  rw [Step.bind_apply, Read.takeIf_next isRest] at ran
  cases seen : reader.cursor.sees (· = kind) with
  | false =>
    rw [seen, if_neg Bool.false_ne_true] at ran
    dsimp only at ran
    rw [Read.missing_next isRest] at ran
    cases ran
  | true =>
    rw [seen, if_pos rfl] at ran
    cases ran
    exact Nat.lt_succ_self _

end Advances

/-- A token that is looked at and taken is progress. -/
theorem lt_of_advance {reader later : Reader} {value : α} {token : Token} {others : List Token}
    {next : Token → Read α} (hasEnd : reader.HasEnd) (isRest : reader.rest = token :: others)
    (noEnd : token.kind ≠ .eof) (forward : (next token).Forward)
    (ran : (advance >>= next) reader = .done value later) : reader.position < later.position := by
  rw [Step.bind_done (advance_next isRest noEnd)] at ran
  have goes := Reader.Goes.forward isRest noEnd
  exact (forward.goes (goes.hasEnd hasEnd) ran).le

/-- So is going on after a failure. -/
theorem lt_of_recover {read : Read α} {reader later : Reader} {found : Option α} {token : Token}
    {others : List Token} (hasEnd : reader.HasEnd) (isRest : reader.rest = token :: others)
    (noEnd : token.kind ≠ .eof) (forward : read.Forward)
    (advances : ∀ value, read reader = .done value later → reader.position < later.position)
    (ran : recover read reader = .done found later) : reader.position < later.position := by
  obtain ⟨parse, follows⟩ := forward
  have reaches := follows reader hasEnd
  generalize parse reader.cursor = parsed at reaches
  generalize outcome : read reader = ended at reaches
  cases reaches with
  | outOfFuel =>
    unfold recover at ran
    rw [outcome] at ran
    cases ran
  | done value between =>
    unfold recover at ran
    rw [outcome] at ran
    cases ran
    exact advances value outcome
  | failed diagnostic between goes =>
    obtain ⟨last, recovered, goesOn, -, further⟩ := recover_failed (goes.hasEnd hasEnd) outcome
    obtain rfl : last = later := by
      rw [recovered] at ran
      cases ran
      rfl
    cases atEnd : between.cursor.atEnd with
    | false => exact Nat.lt_of_le_of_lt goes.le (further atEnd)
    | true =>
      have onward : between.position ≤ last.position := goesOn.le
      obtain ⟨taken, split, isPosition, -⟩ := goes.taken
      cases taken with
      | nil =>
        rw [Reader.cursor_atEnd (split.symm.trans isRest)] at atEnd
        exact absurd (of_decide_eq_true atEnd) noEnd
      | cons =>
        rw [List.length_cons] at isPosition
        omega

end Read

/-! ### Progress -/

section

open Read Forward

variable (fuel : Nat)

theorem progress_expressionStatement : (expressionStatement fuel).Advances := by
  cases fuel with
  | zero => nofun
  | succ fuel =>
    refine .after (production .expression fuel) fun value => ?_
    exact .bind (.expect _ _) (expect _ _) fun _ => pure _

theorem progress_varDeclaration : (varDeclaration fuel).Advances := by
  cases fuel with
  | zero => nofun
  | succ fuel =>
    refine .bind (.expect _ _) (expect _ _) fun name => ?_
    exact bind (production .initializer fuel) fun _ => bind (expect _ _) fun _ => pure _

theorem progress_statement : (statement fuel).Advances := by
  cases fuel with
  | zero => nofun
  | succ fuel =>
    intro reader value later hasEnd ran
    obtain ⟨token, others, isRest⟩ := hasEnd.eq_cons
    rw [statement, Step.bind_done (peek_next isRest)] at ran
    generalize isKind : token.kind = kind at ran
    have noEnd : kind ≠ .eof → token.kind ≠ .eof := fun noEnd => isKind ▸ noEnd
    split at ran
    case h_1 => exact lt_of_advance hasEnd isRest (noEnd nofun) (production .forStatement fuel) ran
    case h_2 => exact lt_of_advance hasEnd isRest (noEnd nofun) (production .ifStatement fuel) ran
    case h_3 =>
      refine lt_of_advance hasEnd isRest (noEnd nofun) ?_ ran
      refine bind (expect _ _) fun _ => bind (production .expression fuel) fun _ => ?_
      exact bind (expect _ _) fun _ => bind (production .statement fuel) fun _ => pure _
    case h_4 =>
      refine lt_of_advance hasEnd isRest (noEnd nofun) ?_ ran
      exact bind (production (.unlessSeen (.symbol .semicolon)) fuel) fun _ => bind (expect _ _)
        fun _ => pure _
    case h_5 =>
      refine lt_of_advance hasEnd isRest (noEnd nofun) ?_ ran
      exact bind (production .block fuel) fun _ => pure _
    case h_6 =>
      refine lt_of_advance hasEnd isRest (noEnd nofun) ?_ ran
      exact bind (production .expression fuel) fun _ => bind (expect _ _) fun _ => pure _
    case h_7 => exact progress_expressionStatement fuel hasEnd ran

end

/-- **A declaration that starts before the end takes a token at least, also if it fails.** -/
theorem progress_declaration {fuel : Nat} {reader later : Reader} {form : Option Stmt}
    {token : Token} {others : List Token} (hasEnd : reader.HasEnd)
    (isRest : reader.rest = token :: others) (noEnd : token.kind ≠ .eof)
    (ran : Read.declaration fuel reader = .done form later) :
    reader.position < later.position := by
  cases fuel with
  | zero => cases ran
  | succ fuel =>
    have function : Read.Forward (do
        let name ← Read.expect .identifier .functionName
        return Stmt.function name
          (← Read.functionBody .functionParameters .functionBody fuel)) := by
      refine .bind (.expect _ _) fun _ => .bind ?_ fun _ => .pure _
      exact .production (.functionBody .functionParameters .functionBody) fuel
    have other : Read.Forward (do
        if ← Read.takes (.keyword .var) then Read.varDeclaration fuel else Read.statement fuel) :=
      ⟨_, .bind (.takes _) fun _ => .ite (followed fuel .varDeclaration) (followed fuel .statement)⟩
    refine Read.lt_of_recover hasEnd isRest noEnd ?_ (fun value ran => ?_) ran
    · obtain ⟨_, follows⟩ := function
      obtain ⟨_, followsOther⟩ := other
      exact ⟨_, .seesFunction (fun token isFun => .advance (by simp [isFun]) follows) followsOther⟩
    · rw [Step.bind_done (Read.seesFunction_next isRest)] at ran
      split at ran
      · exact Read.lt_of_advance hasEnd isRest noEnd function ran
      · refine Read.Advances.after (.takes _) (fun took => ?_) hasEnd ran
        cases took with
        | true => exact progress_varDeclaration fuel
        | false => exact progress_statement fuel

/-! ### The first end token -/

/-- The index of the first end token. -/
def firstEnd (tokens : List Token) : Nat :=
  tokens.findIdx fun token => token.kind = .eof

/-- The tokens up to the first end token, and that one. -/
def untilEnd (tokens : List Token) : List Token :=
  tokens.take (firstEnd tokens + 1)

section

variable {tokens : List Token} (hasEnd : ∃ token ∈ tokens, token.kind = .eof)

include hasEnd

theorem getElem?_firstEnd :
    ∃ finish, tokens[firstEnd tokens]? = some finish ∧ finish.kind = .eof := by
  obtain ⟨token, isToken, isEnd⟩ := hasEnd
  have inRange : firstEnd tokens < tokens.length :=
    List.findIdx_lt_length_of_exists ⟨token, isToken, decide_eq_true isEnd⟩
  exact ⟨_, List.getElem?_eq_getElem inRange,
    of_decide_eq_true (List.findIdx_getElem (w := inRange))⟩

omit hasEnd in
/-- No token before the first end token is one. -/
theorem noEnd_of_lt_firstEnd {index : Nat} {token : Token} (before : index < firstEnd tokens)
    (isToken : tokens[index]? = some token) : token.kind ≠ .eof := by
  obtain ⟨inRange, rfl⟩ := List.getElem?_eq_some_iff.mp isToken
  simpa using List.not_of_lt_findIdx before

/-- The tokens up to the first end token are read as a segment. -/
theorem segment_untilEnd : Segment .finish (untilEnd tokens) := by
  obtain ⟨finish, isFinish, isEnd⟩ := getElem?_firstEnd hasEnd
  rw [untilEnd, List.take_add_one, isFinish]
  exact Segment.append (.singleton isEnd) _

variable {reader later : Reader} (onList : reader.tokens = tokens)
  (inside : reader.position ≤ firstEnd tokens)

include onList inside

/-- Up to the first end token, there is one to come. -/
theorem Reader.hasEnd_of_le : reader.HasEnd := by
  obtain ⟨finish, isFinish, isEnd⟩ := getElem?_firstEnd hasEnd
  refine ⟨finish, List.mem_of_getElem? (i := firstEnd tokens - reader.position) ?_, isEnd⟩
  rwa [Reader.rest, List.getElem?_drop, onList, Nat.add_sub_cancel' inside]

/-- Going forward, the first end token is not left behind. -/
theorem Reader.Goes.le_firstEnd (goes : reader.Goes later) : later.position ≤ firstEnd tokens := by
  obtain ⟨finish, isFinish, isEnd⟩ := getElem?_firstEnd hasEnd
  obtain ⟨taken, split, isPosition, noEnd⟩ := goes.taken
  by_contra beyond
  have isTaken : taken[firstEnd tokens - reader.position]? = some finish := by
    have within : reader.rest[firstEnd tokens - reader.position]? = some finish := by
      rwa [Reader.rest, List.getElem?_drop, onList, Nat.add_sub_cancel' inside]
    rwa [split, List.getElem?_append_left (by omega)] at within
  exact noEnd finish (List.mem_of_getElem? isTaken) isEnd

omit hasEnd in
/-- Up to the first end token, an end token to come next is that one. -/
theorem Reader.eq_firstEnd {token : Token} {others : List Token}
    (isRest : reader.rest = token :: others) (isEnd : token.kind = .eof) :
    reader.position = firstEnd tokens := by
  have isNext := Reader.getElem?_of_rest isRest
  rw [onList] at isNext
  by_contra different
  exact noEnd_of_lt_firstEnd (by omega) isNext isEnd

end

/-- From anywhere up to the first end token of these tokens, the reading asks for no token that is
not there; and wherever it ends, it has not gone back, and not over the first end token. -/
def Read.StaysInside {α : Type} (tokens : List Token) (read : Read α) : Prop :=
  ∀ reader : Reader, reader.tokens = tokens → reader.position ≤ firstEnd tokens →
    match read reader with
    | .done _ later =>
      later.tokens = tokens ∧ reader.position ≤ later.position ∧ later.position ≤ firstEnd tokens
    | .failed (.at _ _) later =>
      later.tokens = tokens ∧ reader.position ≤ later.position ∧ later.position ≤ firstEnd tokens
    | .failed (.outOfRange _) _ => False
    | .outOfFuel => True

theorem Read.Forward.staysInside {α : Type} {tokens : List Token} {read : Read α}
    (forward : read.Forward) (hasEnd : ∃ token ∈ tokens, token.kind = .eof) :
    read.StaysInside tokens := by
  intro reader onList inside
  obtain ⟨parse, follows⟩ := forward
  have reaches := follows reader (Reader.hasEnd_of_le hasEnd onList inside)
  generalize parse reader.cursor = parsed at reaches
  generalize read reader = outcome at reaches
  cases reaches with
  | outOfFuel => trivial
  | done value later goes =>
    exact ⟨goes.tokens.trans onList, goes.le, goes.le_firstEnd hasEnd onList inside⟩
  | failed diagnostic later goes =>
    exact ⟨goes.tokens.trans onList, goes.le, goes.le_firstEnd hasEnd onList inside⟩

/-! ### What comes after the end -/

open Parse

/-- Declarations without a token to stop at are read to the end. -/
theorem program_atEnd {fuel : Nat} {cursor later : Cursor} {forms : List Stmt}
    (ran : program fuel cursor = .done forms later) : later.atEnd = true := by
  induction fuel generalizing cursor forms with
  | zero => cases ran
  | succ fuel ih =>
    rw [program, declarations, Step.bind_done (Step.view_apply _ cursor)] at ran
    split at ran
    case isTrue stops =>
      obtain ⟨-, rfl⟩ := Step.of_pure_done ran
      simpa [Cursor.sees] using stops
    case isFalse =>
      obtain ⟨first, between, -, ran⟩ := Step.of_bind_done ran
      obtain ⟨others, last, ranOthers, ran⟩ := Step.of_bind_done ran
      obtain ⟨-, rfl⟩ := Step.of_pure_done ran
      exact ih ranOthers

theorem settles_wholeExpression {tokens : List Token} (segment : Segment .finish tokens)
    (nextNode : Nat) :
    Settles .some .finish tokens (fuelFor tokens) wholeExpression tokens nextNode := by
  have enough : 32 * tokens.length + 15 ≤ fuelFor tokens := by
    rw [fuelFor]
    omega
  refine .call ((settled _).expression .finish) (.refl segment) enough
    fun value left node inside _ => ?_
  obtain ⟨token, rest, rfl⟩ := inside.segment.eq_cons
  have same : ∀ diagnostics more, Cursor.atEnd ⟨token :: rest ++ more, diagnostics, node⟩ =
      decide (token.kind = .eof) := fun _ _ => rfl
  exact .view same (.ite (fun _ => .pure inside) fun _ => .missing inside)

section

variable {α : Type} {taking : Taking} {segment whole : List Token} {nextNode : Nat}
  {parse : Nat → Parse α}
  (settles : Settles taking .finish whole (fuelFor segment) parse segment nextNode)
    (more : List Token)

include settles

/-- What settles on the tokens up to an end token comes to the same whatever is after that. -/
theorem Settles.run_append :
    Parse.run parse (segment ++ more) nextNode = Parse.run parse segment nextNode := by
  have enough : fuelFor segment ≤ fuelFor (segment ++ more) := by
    rw [fuelFor, fuelFor, List.length_append]
    omega
  cases settles with
  | done value left found next _ ran =>
    have alone := ran _ [] [] (Nat.le_refl _) trivial
    rw [List.append_nil, List.append_nil] at alone
    rw [Parse.run, Parse.run, ran _ [] more enough trivial, alone]
  | failed diagnostic left found next _ ran =>
    have alone := ran _ [] [] (Nat.le_refl _) trivial
    rw [List.append_nil, List.append_nil] at alone
    rw [Parse.run, Parse.run, ran _ [] more enough trivial, alone]

/-- Reading by index comes to that, too. -/
theorem Settles.result {tokens : List Token} {fuel : Nat} {read : Read α}
    (whole : segment ++ more = tokens) (follows : Follows (parse fuel) read)
    (hasEnd : (Reader.start tokens nextNode).HasEnd) (enough : fuelFor segment ≤ fuel) :
    Read.result (read (.start tokens nextNode)) = some (Parse.run parse segment nextNode) := by
  have reaches := follows _ hasEnd
  have isCursor : (Reader.start tokens nextNode).cursor = ⟨segment ++ more, [], nextNode⟩ := by
    rw [whole]
    rfl
  rw [isCursor] at reaches
  cases settles with
  | done value left found next _ ran =>
    have alone := ran _ [] [] (Nat.le_refl _) trivial
    rw [List.append_nil, List.append_nil] at alone
    rw [Parse.run, alone]
    rw [ran _ [] more enough trivial] at reaches
    obtain ⟨later, outcome, isLater⟩ := reaches.eq_done
    have isFound : later.diagnostics.map Prod.snd = found := congrArg Cursor.diagnostics isLater
    have isNext : later.nextNode = next := congrArg Cursor.nextNode isLater
    rw [outcome, Read.result, isFound, isNext]
    rfl
  | failed diagnostic left found next _ ran =>
    have alone := ran _ [] [] (Nat.le_refl _) trivial
    rw [List.append_nil, List.append_nil] at alone
    rw [Parse.run, alone]
    rw [ran _ [] more enough trivial] at reaches
    obtain ⟨later, outcome, isLater⟩ := reaches.eq_failed
    have isFound : later.diagnostics.map Prod.snd = found := congrArg Cursor.diagnostics isLater
    have isNext : later.nextNode = next := congrArg Cursor.nextNode isLater
    rw [outcome, Read.result, isFound, isNext]
    rfl

end

/-- With fuel enough for the tokens to come, a declaration that starts before the end ends. -/
theorem declaration_ends {reader : Reader} {fuel size : Nat} (hasEnd : reader.HasEnd)
    (notEnd : reader.cursor.atEnd = false) (short : 32 * reader.rest.length + 18 ≤ size)
    (enough : size ≤ fuel) :
    declaration fuel reader.cursor ≠ .outOfFuel := by
  obtain ⟨finish, isFinish, isEnd⟩ := hasEnd
  obtain ⟨before, after, isRest⟩ := List.append_of_mem isFinish
  rw [List.append_cons] at isRest
  have segment : Segment .finish (before ++ [finish]) := .append (.singleton isEnd) before
  have first : (firstToken (before ++ [finish])).kind ≠ .eof := by
    have same : firstToken reader.rest = firstToken (before ++ [finish]) := by
      rw [isRest]
      cases before <;> rfl
    exact same ▸ of_decide_eq_false notEnd
  have shorter : 32 * (before ++ [finish]).length + 18 ≤ size := by
    rw [isRest, List.length_append] at short
    omega
  unfold Reader.cursor
  rw [isRest]
  cases (settled size).declaration reader.nextNode (.refl segment) first shorter with
  | done form left found next _ ran =>
    rw [ran fuel _ after enough trivial]
    nofun
  | failed diagnostic left found next _ ran =>
    rw [ran fuel _ after enough trivial]
    nofun

theorem Segment.hasEnd {tokens : List Token} (segment : Segment .finish tokens) (nextNode : Nat) :
    (Reader.start tokens nextNode).HasEnd := by
  obtain ⟨last, isLast, isEnd⟩ := segment.ends
  exact ⟨last, List.mem_of_getLast? isLast, isEnd⟩

/-- A program is read to its end, and what is found is what is wrong with it. -/
theorem program_done {tokens : List Token} {fuel : Nat} (segment : Segment .finish tokens)
    (nextNode : Nat) (enough : fuelFor tokens ≤ fuel) :
    ∃ forms later, Read.program fuel (.start tokens nextNode) = .done forms later ∧
      later.cursor.atEnd = true ∧
      later.diagnostics.map Prod.snd = syntaxErrors tokens nextNode := by
  have reaches := follows_program fuel _ (segment.hasEnd nextNode)
  obtain ⟨forms, left, next, ran⟩ := program_segment segment nextNode
  have ranStart : program fuel (Reader.start tokens nextNode).cursor = _ := ran fuel [] enough
  rw [ranStart] at reaches
  obtain ⟨later, outcome, isLater⟩ := reaches.eq_done
  exact ⟨forms, later, outcome, isLater ▸ program_atEnd ranStart,
    congrArg Cursor.diagnostics isLater⟩

/-- A program is read up to the first end token. -/
theorem program_stops {tokens : List Token} {fuel : Nat} (segment : Segment .finish tokens)
    (nextNode : Nat) (enough : fuelFor tokens ≤ fuel) :
    ∃ forms later, Read.program fuel (.start tokens nextNode) = .done forms later ∧
      later.position = firstEnd tokens := by
  have start := segment.hasEnd nextNode
  obtain ⟨forms, later, ran, atEnd, -⟩ := program_done segment nextNode enough
  have goes := Read.Forward.goes ⟨_, follows_program fuel⟩ start ran
  obtain ⟨token, others, isRest⟩ := (goes.hasEnd start).eq_cons
  rw [Reader.cursor_atEnd isRest] at atEnd
  have inside := goes.le_firstEnd start rfl (Nat.zero_le _)
  exact ⟨forms, later, ran, Reader.eq_firstEnd goes.tokens inside isRest (of_decide_eq_true atEnd)⟩

/-- A declaration that starts before the first end token ends, further on than it started. -/
theorem declaration_done {tokens : List Token} (hasEnd : ∃ token ∈ tokens, token.kind = .eof)
    (fuel : Nat) {reader : Reader} (onList : reader.tokens = tokens)
    (before : reader.position < firstEnd tokens) :
    (Read.declaration fuel reader = .outOfFuel ∧ fuel < fuelFor tokens) ∨
      ∃ form later, Read.declaration fuel reader = .done form later ∧
      reader.position < later.position := by
  have toCome := Reader.hasEnd_of_le hasEnd onList (Nat.le_of_lt before)
  obtain ⟨token, others, isRest⟩ := toCome.eq_cons
  have noEnd : token.kind ≠ .eof :=
    noEnd_of_lt_firstEnd before (onList ▸ Reader.getElem?_of_rest isRest)
  have reaches := followed fuel .declaration reader toCome
  generalize ranParse : Production.declaration.parse fuel reader.cursor = parsed at reaches
  generalize ran : Production.declaration.read fuel reader = outcome at reaches
  cases reaches with
  | failed => exact absurd ranParse (declaration_ne_failed _ _ _ _)
  | done form later => exact .inr ⟨form, later, ran, progress_declaration toCome isRest noEnd ran⟩
  | outOfFuel =>
    refine .inl ⟨ran, ?_⟩
    by_contra enough
    have notEnd : reader.cursor.atEnd = false := by
      rw [Reader.cursor_atEnd isRest]
      exact decide_eq_false noEnd
    have short : 32 * reader.rest.length + 18 ≤ fuelFor tokens := by
      rw [Reader.rest, List.length_drop, onList, fuelFor]
      omega
    exact declaration_ends toCome notEnd short (Nat.le_of_not_lt enough) ranParse

/-- What is to be said of how a token list is read. -/
structure ParsesInside (tokens : List Token) (nextNode : Nat) : Prop where
  /-- No production reads outside of the list, goes back, or goes over the first end token. -/
  productions : ∀ (fuel : Nat) ⦃α : Type⦄ (production : Production α),
    (production.read fuel).StaysInside tokens
  wholeExpression : ∀ fuel, (Read.wholeExpression fuel).StaysInside tokens
  /-- Nor does taking a token, or looking for the next statement after a failure. -/
  takeIf : ∀ test, (Read.takeIf test).StaysInside tokens
  synchronize : Read.synchronize.StaysInside tokens
  /-- A declaration that starts before the first end token ends, further on than it started. -/
  progress : ∀ (fuel : Nat) (reader : Reader), reader.tokens = tokens →
    reader.position < firstEnd tokens →
    (Read.declaration fuel reader = .outOfFuel ∧ fuel < fuelFor tokens) ∨
      ∃ form later, Read.declaration fuel reader = .done form later ∧
      reader.position < later.position
  /-- A program is read up to the first end token. -/
  stops : ∀ fuel, fuelFor tokens ≤ fuel → ∃ forms later,
    Read.program fuel (.start tokens nextNode) = .done forms later ∧
      later.position = firstEnd tokens
  /-- A program is read to the end, and so is an expression. -/
  program_ends : ∀ fuel, fuelFor tokens ≤ fuel →
    Read.result (Read.program fuel (.start tokens nextNode)) = some (parseProgram tokens nextNode)
  expression_ends : ∀ fuel, fuelFor tokens ≤ fuel →
    Read.result (Read.wholeExpression fuel (.start tokens nextNode)) =
      some (parseExpression tokens nextNode)
  /-- The tokens after the first end token make no difference. -/
  program_cut : parseProgram tokens nextNode = parseProgram (untilEnd tokens) nextNode
  expression_cut : parseExpression tokens nextNode = parseExpression (untilEnd tokens) nextNode

/-- **Parsing ends, inside its token list,** whatever the kinds of the tokens are, if only the last
one is an end token. -/
theorem parsing_stays_inside {tokens : List Token}
    (ends : ∃ last, tokens.getLast? = some last ∧ last.kind = .eof) (nextNode : Nat) :
    ParsesInside tokens nextNode := by
  have hasEnd : ∃ token ∈ tokens, token.kind = .eof := by
    obtain ⟨last, isLast, isEnd⟩ := ends
    exact ⟨last, List.mem_of_getLast? isLast, isEnd⟩
  have segment := segment_untilEnd hasEnd
  have whole : untilEnd tokens ++ tokens.drop (firstEnd tokens + 1) = tokens :=
    List.take_append_drop _ _
  have shorter : fuelFor (untilEnd tokens) ≤ fuelFor tokens := by
    rw [fuelFor, fuelFor, untilEnd, List.length_take]
    omega
  have start : (Reader.start tokens nextNode).HasEnd :=
    Reader.hasEnd_of_le hasEnd rfl (Nat.zero_le _)
  have settles := (settled (fuelFor (untilEnd tokens))).declarations (fun _ => false) nextNode
    (.refl segment) (by rw [fuelFor]; omega)
  have settlesExpression := settles_wholeExpression segment nextNode
  have programCut : parseProgram tokens nextNode = parseProgram (untilEnd tokens) nextNode := by
    conv_lhs => rw [← whole]
    exact settles.run_append _
  have expressionCut : parseExpression tokens nextNode =
      parseExpression (untilEnd tokens) nextNode := by
    conv_lhs => rw [← whole]
    exact settlesExpression.run_append _
  refine {
    productions := fun fuel α production =>
      (Read.Forward.production production fuel).staysInside hasEnd
    wholeExpression := fun fuel => Read.Forward.staysInside ⟨_, follows_wholeExpression fuel⟩ hasEnd
    takeIf := fun test => Read.Forward.staysInside ⟨_, .takeIf test⟩ hasEnd
    synchronize := Read.Forward.staysInside ⟨_, .synchronize⟩ hasEnd
    progress := fun fuel reader => declaration_done hasEnd fuel
    stops := fun fuel => program_stops (.finish ends) nextNode
    program_ends := ?program_ends
    expression_ends := ?expression_ends
    program_cut := programCut
    expression_cut := expressionCut }
  case program_ends =>
    intro fuel enough
    rw [programCut]
    exact settles.result _ whole (follows_program fuel) start (Nat.le_trans shorter enough)
  case expression_ends =>
    intro fuel enough
    rw [expressionCut]
    exact settlesExpression.result _ whole (follows_wholeExpression fuel) start
      (Nat.le_trans shorter enough)

/-- The tokens of `nil;` and an end token, and more after that. -/
def endInTheMiddle : List Token :=
  [⟨.keyword .nil, "nil", 1⟩, ⟨.symbol .semicolon, ";", 1⟩, .finish 1,
    ⟨.symbol .rightParen, ")", 2⟩, .finish 2]

/-- The parenthesis after the first end token is not read. -/
theorem stops_at_first_end :
    ParsesInside endInTheMiddle 0 ∧
      parseProgram endInTheMiddle 0 = (.ok [.expression (.literal .nil)], 0) := by
  have ends : ∃ last, endInTheMiddle.getLast? = some last ∧ last.kind = .eof :=
    ⟨.finish 2, rfl, rfl⟩
  have parses := parsing_stays_inside ends 0
  exact ⟨parses, parses.program_cut.trans rfl⟩

end Lox
