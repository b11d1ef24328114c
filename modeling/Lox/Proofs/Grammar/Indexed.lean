/-
**Reading by index does what reading off a cursor does, inside the token list.**

* `Reader.rest`, `Reader.cursor` — the tokens from the next one on, and the cursor
  that a reader stands for.
* `Reader.Goes reader later` — a reader has gone forward, over no end token, and
  has only added diagnostics.
* `Follows parse read` — where there is still an end token to come, `read` does what `parse` does
  with the cursor: it never asks for a token that is not in the list, and wherever it ends, it has
  gone forward. One lemma for each way to put readings together.
* `followed` — so do all productions, with any fuel.

Diagnostics that end a statement stand at the index where the reading stopped.
-/

import Lox.Proofs.Grammar.Reading
import Lox.Tree.Reader

namespace Lox

/-! ### Readers and cursors -/

/-- Whether something is wrong with the order of the tokens, so that a statement ends there. An
invalid target or too many parameters or arguments are recorded by the way. -/
def Defect.isFatal : Defect → Bool
  | .invalidAssignmentTarget => false
  | .tooManyParameters => false
  | .tooManyArguments => false
  | _ => true

/-- The diagnostic is about what is missing at the token with this index. -/
def Anchored (tokens : List Token) (index : Nat) (diagnostic : Diagnostic) : Prop :=
  ∃ token expected, tokens[index]? = some token ∧ diagnostic = .atToken token (.missing expected)

namespace Reader

/-- The tokens from the next one on. -/
def rest (reader : Reader) : List Token :=
  reader.tokens.drop reader.position

/-- The cursor that a reader stands for. -/
def cursor (reader : Reader) : Cursor :=
  ⟨reader.rest, reader.diagnostics.map Prod.snd, reader.nextNode⟩

/-- There is an end token to come. -/
def HasEnd (reader : Reader) : Prop :=
  ∃ token ∈ reader.rest, token.kind = .eof

/-- The later reader has gone forward over tokens of which none is an end token, and has only added
diagnostics; those that are fatal are anchored at tokens that it came to. -/
structure Goes (reader later : Reader) : Prop where
  tokens : later.tokens = reader.tokens
  taken : ∃ taken, reader.rest = taken ++ later.rest ∧
    later.position = reader.position + taken.length ∧
    ∀ token ∈ taken, token.kind ≠ .eof
  found : ∃ found, later.diagnostics = reader.diagnostics ++ found ∧
    ∀ entry ∈ found, entry.2.defect.isFatal = true →
      reader.position ≤ entry.1 ∧ entry.1 ≤ later.position ∧ Anchored reader.tokens entry.1 entry.2

namespace Goes

variable {reader between later : Reader}

theorem refl (reader : Reader) : reader.Goes reader :=
  ⟨rfl, ⟨[], rfl, rfl, nofun⟩, ⟨[], (List.append_nil _).symm, nofun⟩⟩

theorem le (goes : reader.Goes later) : reader.position ≤ later.position := by
  obtain ⟨taken, -, further, -⟩ := goes.taken
  omega

theorem trans (first : reader.Goes between) (second : between.Goes later) : reader.Goes later := by
  obtain ⟨taken, isRest, further, noEnd⟩ := first.taken
  obtain ⟨others, isRestNext, furtherNext, noEndNext⟩ := second.taken
  obtain ⟨found, isFound, anchored⟩ := first.found
  obtain ⟨more, isMore, anchoredNext⟩ := second.found
  refine ⟨second.tokens.trans first.tokens, ⟨taken ++ others, ?_, ?_, fun token isToken => ?_⟩,
    ⟨found ++ more, ?_, fun entry isEntry fatal => ?_⟩⟩
  · rw [isRest, isRestNext, List.append_assoc]
  · rw [furtherNext, further, List.length_append, Nat.add_assoc]
  · exact (List.mem_append.mp isToken).elim (noEnd token) (noEndNext token)
  · rw [isMore, isFound, List.append_assoc]
  · rcases List.mem_append.mp isEntry with isEntry | isEntry
    · obtain ⟨atLeast, atMost, anchor⟩ := anchored entry isEntry fatal
      exact ⟨atLeast, Nat.le_trans atMost second.le, anchor⟩
    · obtain ⟨atLeast, atMost, anchor⟩ := anchoredNext entry isEntry fatal
      exact ⟨Nat.le_trans first.le atLeast, atMost, first.tokens ▸ anchor⟩

/-- No end token is left behind. -/
theorem hasEnd (goes : reader.Goes later) (hasEnd : reader.HasEnd) : later.HasEnd := by
  obtain ⟨taken, isRest, -, noEnd⟩ := goes.taken
  obtain ⟨token, isToken, isEnd⟩ := hasEnd
  rw [isRest] at isToken
  exact ⟨token, (List.mem_append.mp isToken).resolve_left
    fun isTaken => noEnd token isTaken isEnd, isEnd⟩

end Goes

variable {reader : Reader} {token : Token} {others : List Token}

theorem getElem?_of_rest (isRest : reader.rest = token :: others) :
    reader.tokens[reader.position]? = some token := by
  have first : reader.rest[0]? = some token := by rw [isRest]; rfl
  rwa [rest, List.getElem?_drop, Nat.add_zero] at first

theorem forward_rest (isRest : reader.rest = token :: others) : reader.forward.rest = others := by
  have tail : reader.rest.tail = others := by rw [isRest]; rfl
  rwa [rest, List.tail_drop] at tail

theorem HasEnd.eq_cons (hasEnd : reader.HasEnd) :
    ∃ token others, reader.rest = token :: others := by
  obtain ⟨token, isToken, -⟩ := hasEnd
  cases isRest : reader.rest with
  | nil => rw [isRest] at isToken; cases isToken
  | cons token others => exact ⟨token, others, rfl⟩

/-- Going over one token. -/
theorem Goes.forward (isRest : reader.rest = token :: others) (noEnd : token.kind ≠ .eof) :
    reader.Goes reader.forward := by
  refine ⟨rfl, ⟨[token], ?_, rfl, fun other isOther => ?_⟩, ⟨[], (List.append_nil _).symm, nofun⟩⟩
  · rw [forward_rest isRest, isRest]
    rfl
  · rwa [List.mem_singleton.mp isOther]

/-- Recording what is wrong at the next token. -/
theorem Goes.record {diagnostic : Diagnostic}
    (anchored : Anchored reader.tokens reader.position diagnostic) :
    reader.Goes (reader.record reader.position diagnostic) := by
  refine ⟨rfl, ⟨[], rfl, rfl, nofun⟩,
    ⟨[(reader.position, diagnostic)], rfl, fun entry isEntry _ => ?_⟩⟩
  rw [List.mem_singleton.mp isEntry]
  exact ⟨Nat.le_refl _, Nat.le_refl _, anchored⟩

/-- Recording something that is not fatal, at whatever index. -/
theorem Goes.light {diagnostic : Diagnostic} (light : diagnostic.defect.isFatal = false)
    (index : Nat) :
    reader.Goes (reader.record index diagnostic) := by
  refine ⟨rfl, ⟨[], rfl, rfl, nofun⟩, ⟨[(index, diagnostic)], rfl, fun entry isEntry fatal => ?_⟩⟩
  rw [List.mem_singleton.mp isEntry] at fatal
  exact absurd (light.symm.trans fatal) Bool.false_ne_true

theorem record_cursor (index : Nat) (diagnostic : Diagnostic) :
    (reader.record index diagnostic).cursor = reader.cursor.record diagnostic := by
  unfold cursor record Cursor.record
  rw [List.map_append]
  rfl

theorem forward_cursor (isRest : reader.rest = token :: others) :
    reader.forward.cursor = reader.cursor.advance := by
  unfold cursor Cursor.advance
  rw [forward_rest isRest, isRest]
  rfl

theorem cursor_peek (isRest : reader.rest = token :: others) : reader.cursor.peek = token := by
  unfold cursor Cursor.peek
  rw [isRest, firstToken_cons]

theorem cursor_atEnd (isRest : reader.rest = token :: others) :
    reader.cursor.atEnd = decide (token.kind = .eof) := by
  rw [Cursor.atEnd, cursor_peek isRest]

theorem cursor_sees {test : Kind → Bool} (isRest : reader.rest = token :: others) :
    reader.cursor.sees test = (!decide (token.kind = .eof) && test token.kind) := by
  rw [Cursor.sees, cursor_atEnd isRest, cursor_peek isRest]

theorem cursor_seesFunction (isRest : reader.rest = token :: others) : reader.cursor.seesFunction =
    (decide (token.kind = .keyword .fun) && decide ((firstToken others).kind = .identifier)) := by
  have second : reader.cursor.advance.peek = firstToken others := by
    rw [← forward_cursor isRest, cursor, forward_rest isRest]
    rfl
  rw [Cursor.seesFunction, cursor_sees isRest, second]
  by_cases isFun : token.kind = .keyword .fun
  · rw [isFun]
    rfl
  · rw [decide_eq_false isFun, Bool.and_false]

theorem noEnd_of_sees {test : Kind → Bool} (isRest : reader.rest = token :: others)
    (seen : reader.cursor.sees test = true) : token.kind ≠ .eof := by
  rw [cursor_sees isRest, Bool.and_eq_true, Bool.not_eq_true'] at seen
  exact of_decide_eq_false seen.1

end Reader

/-! ### Following -/

/-- How a reading that began with this reader ends, next to how the reading off its cursor ends. -/
inductive Reader.Reaches {α : Type} (reader : Reader) :
    Outcome Cursor Diagnostic α → Outcome Reader Halt α → Prop
  | done (value : α) (later : Reader) : reader.Goes later →
      Reaches reader (.done value later.cursor) (.done value later)
  | failed (diagnostic : Diagnostic) (later : Reader) : reader.Goes later →
      Anchored reader.tokens later.position diagnostic →
      Reaches reader (.failed diagnostic later.cursor)
        (.failed (.at later.position diagnostic) later)
  | outOfFuel : Reaches reader .outOfFuel .outOfFuel

/-- A reading that goes on from a later reader. -/
theorem Reader.Reaches.of_goes {α : Type} {reader between : Reader}
    {outcome : Outcome Cursor Diagnostic α} {outcome' : Outcome Reader Halt α}
    (goes : reader.Goes between) (reaches : between.Reaches outcome outcome') :
    reader.Reaches outcome outcome' := by
  cases reaches with
  | outOfFuel => exact .outOfFuel
  | done result later goesNext => exact .done result later (goes.trans goesNext)
  | failed diagnostic later goesNext anchored =>
    exact .failed diagnostic later (goes.trans goesNext) (goes.tokens ▸ anchored)

theorem Reader.Reaches.goes {α : Type} {reader later : Reader}
    {outcome : Outcome Cursor Diagnostic α} {value : α}
    (reaches : reader.Reaches outcome (.done value later)) : reader.Goes later := by
  cases reaches
  assumption

/-- A reading ends with a value where the reading off the cursor does. -/
theorem Reader.Reaches.eq_done {α : Type} {reader : Reader} {cursor : Cursor}
    {outcome : Outcome Reader Halt α} {value : α}
    (reaches : reader.Reaches (.done value cursor) outcome) :
    ∃ later, outcome = .done value later ∧ later.cursor = cursor := by
  cases reaches with
  | done _ later => exact ⟨later, rfl, rfl⟩

/-- It fails where the reading off the cursor does. -/
theorem Reader.Reaches.eq_failed {α : Type} {reader : Reader} {cursor : Cursor}
    {diagnostic : Diagnostic} {outcome : Outcome Reader Halt α}
    (reaches : reader.Reaches (.failed diagnostic cursor) outcome) :
    ∃ later, outcome = .failed (.at later.position diagnostic) later ∧ later.cursor = cursor := by
  cases reaches with
  | failed _ later => exact ⟨later, rfl, rfl⟩

theorem Reader.Reaches.eq_outOfFuel {α : Type} {reader : Reader}
    {outcome : Outcome Cursor Diagnostic α} (reaches : reader.Reaches outcome .outOfFuel) :
    outcome = .outOfFuel := by
  cases reaches
  rfl

/-- Where an end token is to come, reading by index does what reading off the cursor does. -/
def Follows {α : Type} (parse : Parse α) (read : Read α) : Prop :=
  ∀ reader : Reader, reader.HasEnd → reader.Reaches (parse reader.cursor) (read reader)

namespace Follows

variable {α β : Type}

theorem exhausted : Follows (Step.exhausted : Parse α) Step.exhausted :=
  fun _ _ => .outOfFuel

theorem pure (value : α) : Follows (pure value) (pure value) :=
  fun reader _ => .done value reader (.refl reader)

theorem bind {first : Parse β} {next : β → Parse α} {first' : Read β} {next' : β → Read α}
    (follows : Follows first first') (rest : ∀ value, Follows (next value) (next' value)) :
    Follows (first >>= next) (first' >>= next') := by
  intro reader hasEnd
  have reaches := follows reader hasEnd
  rw [Step.bind_apply, Step.bind_apply]
  generalize first reader.cursor = outcome at reaches
  generalize first' reader = outcome' at reaches
  cases reaches with
  | outOfFuel => exact .outOfFuel
  | failed diagnostic later goes anchored => exact .failed diagnostic later goes anchored
  | done value between goes => exact .of_goes goes (rest value between (goes.hasEnd hasEnd))

theorem ite {condition : Prop} [Decidable condition] {yes no : Parse α} {yes' no' : Read α}
    (follows : Follows yes yes') (otherwise : Follows no no') :
    Follows (if condition then yes else no) (if condition then yes' else no') := by
  by_cases holds : condition
  · rw [if_pos holds, if_pos holds]
    exact follows
  · rw [if_neg holds, if_neg holds]
    exact otherwise

end Follows

/-! ### Looking at tokens -/

namespace Read

variable {reader : Reader} {token : Token} {others : List Token} {test : Kind → Bool}

theorem here_apply (reader : Reader) : here reader = .done reader.position reader :=
  rfl

theorem tokenAt_done {index : Nat} (isToken : reader.tokens[index]? = some token) :
    tokenAt index reader = .done token reader := by
  rw [tokenAt, isToken]

theorem peek_next (isRest : reader.rest = token :: others) : peek reader = .done token reader := by
  rw [peek, Step.bind_done (here_apply reader), tokenAt_done (Reader.getElem?_of_rest isRest)]

theorem atEnd_next (isRest : reader.rest = token :: others) :
    atEnd reader = .done (decide (token.kind = .eof)) reader := by
  rw [atEnd, Step.bind_done (peek_next isRest)]
  rfl

theorem sees_next (isRest : reader.rest = token :: others) :
    sees test reader = .done (reader.cursor.sees test) reader := by
  rw [sees, Step.bind_done (atEnd_next isRest), Reader.cursor_sees isRest]
  by_cases isEnd : token.kind = .eof
  · rw [decide_eq_true isEnd]
    rfl
  · rw [decide_eq_false isEnd, if_neg Bool.false_ne_true, Step.bind_done (peek_next isRest)]
    rfl

theorem advance_next (isRest : reader.rest = token :: others) (noEnd : token.kind ≠ .eof) :
    advance reader = .done token reader.forward := by
  have before : reader.forward.tokens[reader.forward.position - 1]? = some token :=
    Reader.getElem?_of_rest isRest
  rw [advance, Step.bind_done (atEnd_next isRest), decide_eq_false noEnd, if_neg Bool.false_ne_true,
    Step.bind_apply]
  show previous reader.forward = _
  rw [previous, Step.bind_done (here_apply _), tokenAt_done before]

theorem takeIf_next (isRest : reader.rest = token :: others) :
    takeIf test reader =
      if reader.cursor.sees test then .done (some token) reader.forward else .done none reader := by
  rw [takeIf, Step.bind_done (sees_next isRest)]
  cases seen : reader.cursor.sees test with
  | false => rfl
  | true =>
    rw [if_pos rfl, if_pos rfl,
      Step.bind_done (advance_next isRest (Reader.noEnd_of_sees isRest seen))]
    rfl

/-- The token before the next one is there; at the start of the list, that is the first one. -/
theorem previous_next (isRest : reader.rest = token :: others) :
    ∃ before, reader.tokens[reader.position - 1]? = some before ∧
      previous reader = .done before reader := by
  obtain ⟨inRange, -⟩ := List.getElem?_eq_some_iff.mp (Reader.getElem?_of_rest isRest)
  have isBefore := List.getElem?_eq_getElem
    (show reader.position - 1 < reader.tokens.length by omega)
  refine ⟨_, isBefore, ?_⟩
  rw [previous, Step.bind_done (here_apply reader), tokenAt_done isBefore]

/-- There is no going on from an end token. -/
theorem advance_end (isRest : reader.rest = token :: others) (isEnd : token.kind = .eof) :
    ∃ before, reader.tokens[reader.position - 1]? = some before ∧
      advance reader = .done before reader := by
  obtain ⟨before, isBefore, previously⟩ := previous_next isRest
  refine ⟨before, isBefore, ?_⟩
  rw [advance, Step.bind_done (atEnd_next isRest), decide_eq_true isEnd, if_pos rfl, previously]

theorem seesFunction_next (isRest : reader.rest = token :: others) :
    seesFunction reader = .done reader.cursor.seesFunction reader := by
  rw [seesFunction, Step.bind_done (sees_next isRest), Reader.cursor_seesFunction isRest,
    Reader.cursor_sees isRest]
  by_cases isFun : token.kind = .keyword .fun
  · have second : reader.tokens[reader.position + 1]? = others[0]? := by
      have tail : reader.forward.rest[0]? = others[0]? := by rw [Reader.forward_rest isRest]
      rwa [Reader.rest, List.getElem?_drop, Nat.add_zero] at tail
    rw [isFun]
    show seesNext .identifier reader = _
    rw [seesNext, Step.view_apply, second]
    cases others <;> rfl
  · rw [decide_eq_false isFun, Bool.and_false]
    rfl

theorem stops_next (isRest : reader.rest = token :: others) :
    stops test reader = .done (reader.cursor.atEnd || reader.cursor.sees test) reader := by
  have same := Reader.cursor_atEnd isRest
  rw [stops, Step.bind_done (atEnd_next isRest), same]
  by_cases isEnd : token.kind = .eof
  · rw [decide_eq_true isEnd]
    rfl
  · rw [decide_eq_false isEnd, if_neg Bool.false_ne_true, sees_next isRest, Bool.false_or]

theorem missing_next {α : Type} {expected : Expected} (isRest : reader.rest = token :: others) :
    (missing expected : Read α) reader =
      .failed (.at reader.position (.atToken token (.missing expected))) reader := by
  rw [missing, Step.bind_done (peek_next isRest)]
  rfl

end Read

/-- The same where the next token is known. -/
def FollowsBefore {α : Type} (token : Token) (parse : Parse α) (read : Read α) : Prop :=
  ∀ (reader : Reader) (others : List Token), reader.HasEnd → reader.rest = token :: others →
    reader.Reaches (parse reader.cursor) (read reader)

namespace Follows

variable {α β : Type}

theorem before {parse : Parse α} {read : Read α} (follows : Follows parse read) (token : Token) :
    FollowsBefore token parse read :=
  fun reader _ hasEnd _ => follows reader hasEnd

/-- Looking at the next token. -/
theorem peek {next : Token → Parse α} {next' : Token → Read α}
    (follows : ∀ token, FollowsBefore token (next token) (next' token)) :
    Follows (Parse.peek >>= next) (Read.peek >>= next') := by
  intro reader hasEnd
  obtain ⟨token, others, isRest⟩ := hasEnd.eq_cons
  have isNext := Reader.cursor_peek isRest
  rw [Step.bind_done (Parse.peek_apply reader.cursor), isNext,
    Step.bind_done (Read.peek_next isRest)]
  exact follows token reader others hasEnd isRest

/-- Looking at the index. -/
theorem here {parse : Parse α} {next : Nat → Read α}
    (follows : ∀ index, Follows parse (next index)) :
    Follows parse (Read.here >>= next) :=
  fun reader hasEnd => follows reader.position reader hasEnd

theorem sees (test : Kind → Bool) : Follows (Parse.sees test) (Read.sees test) := by
  intro reader hasEnd
  obtain ⟨token, others, isRest⟩ := hasEnd.eq_cons
  rw [Read.sees_next isRest]
  exact .done _ reader (.refl reader)

theorem stops (stop : Kind → Bool) :
    Follows (Step.view fun cursor => cursor.atEnd || cursor.sees stop) (Read.stops stop) := by
  intro reader hasEnd
  obtain ⟨token, others, isRest⟩ := hasEnd.eq_cons
  rw [Read.stops_next isRest]
  exact .done _ reader (.refl reader)

/-- Where a declaration of a function starts, the next token is `fun`. -/
theorem seesFunction {yes no : Parse α} {yes' no' : Read α}
    (follows : ∀ token, token.kind = .keyword .fun → FollowsBefore token yes yes')
    (otherwise : Follows no no') :
    Follows (Step.view Cursor.seesFunction >>= fun found => if found then yes else no)
      (Read.seesFunction >>= fun found => if found then yes' else no') := by
  intro reader hasEnd
  obtain ⟨token, others, isRest⟩ := hasEnd.eq_cons
  rw [Step.bind_done (Step.view_apply _ _), Step.bind_done (Read.seesFunction_next isRest)]
  cases found : reader.cursor.seesFunction with
  | false => exact otherwise reader hasEnd
  | true =>
    rw [Reader.cursor_seesFunction isRest, Bool.and_eq_true] at found
    exact follows token (of_decide_eq_true found.1) reader others hasEnd isRest

/-! #### Going forward -/

theorem takeIf (test : Kind → Bool) : Follows (Parse.takeIf test) (Read.takeIf test) := by
  intro reader hasEnd
  obtain ⟨token, others, isRest⟩ := hasEnd.eq_cons
  rw [Parse.takeIf, Read.takeIf_next isRest]
  cases seen : reader.cursor.sees test with
  | false => exact .done none reader (.refl reader)
  | true =>
    rw [if_pos rfl, if_pos rfl, Reader.cursor_peek isRest, ← Reader.forward_cursor isRest]
    exact .done (some token) reader.forward (.forward isRest (Reader.noEnd_of_sees isRest seen))

theorem takes (kind : Kind) : Follows (Parse.takes kind) (Read.takes kind) :=
  bind (takeIf _) fun _ => pure _

theorem missing (expected : Expected) :
    Follows (Parse.missing expected : Parse α) (Read.missing expected) := by
  intro reader hasEnd
  obtain ⟨token, others, isRest⟩ := hasEnd.eq_cons
  have isNext := Reader.cursor_peek isRest
  rw [Read.missing_next isRest, Parse.missing, isNext]
  exact .failed _ reader (.refl reader) ⟨token, expected, Reader.getElem?_of_rest isRest, rfl⟩

theorem expect (kind : Kind) (expected : Expected) :
    Follows (Parse.expect kind expected) (Read.expect kind expected) := by
  refine bind (takeIf _) fun found => ?_
  cases found with
  | none => exact missing expected
  | some token => exact pure token

/-- Recording something that is not fatal, at whatever index. -/
theorem report (index : Nat) (token : Token) {defect : Defect} (light : defect.isFatal = false) :
    Follows (Parse.report token defect) (Read.report index token defect) := by
  intro reader _
  have lightHere : (Diagnostic.atToken token defect).defect.isFatal = false := light
  have goes : reader.Goes (reader.record index (.atToken token defect)) := .light lightHere index
  have reaches := Reader.Reaches.done () _ goes
  rw [Reader.record_cursor] at reaches
  exact reaches

theorem freshNode : Follows Parse.freshNode Read.freshNode := by
  intro reader _
  exact .done _ { reader with nextNode := reader.nextNode + 1 }
    ⟨rfl, ⟨[], rfl, rfl, nofun⟩, ⟨[], (List.append_nil _).symm, nofun⟩⟩

end Follows

/-- Taking a token that was looked at. -/
theorem FollowsBefore.advance {α : Type} {token : Token} {parse : Parse α} {next : Token → Read α}
    (noEnd : token.kind ≠ .eof) (follows : Follows parse (next token)) :
    FollowsBefore token (Step.update Cursor.advance >>= fun _ => parse)
      (Read.advance >>= next) := by
  intro reader others hasEnd isRest
  have goes := Reader.Goes.forward isRest noEnd
  rw [Step.bind_done (Read.advance_next isRest noEnd)]
  show reader.Reaches (parse reader.cursor.advance) _
  rw [← Reader.forward_cursor isRest]
  exact .of_goes goes (follows reader.forward (goes.hasEnd hasEnd))

/-! ### Going on after a failure -/

/-- Looking for a statement boundary ends there, in as many steps as there are tokens to come. -/
theorem Read.skip_next {count : Nat} {reader : Reader} {before : Token} (hasEnd : reader.HasEnd)
    (enough : reader.rest.length ≤ count)
    (isBefore : reader.tokens[reader.position - 1]? = some before) :
    ∃ later, skip count reader = .done () later ∧ reader.Goes later ∧
      later.cursor = { reader.cursor with rest := skipToBoundary before reader.rest } := by
  induction count generalizing reader before with
  | zero =>
    obtain ⟨token, others, isRest⟩ := hasEnd.eq_cons
    rw [isRest, List.length_cons] at enough
    omega
  | succ count ih =>
    obtain ⟨token, others, isRest⟩ := hasEnd.eq_cons
    have previous : previous reader = .done before reader := by
      rw [Read.previous, Step.bind_done (here_apply reader), tokenAt_done isBefore]
    rw [isRest, skipToBoundary, skip, Step.bind_done (atEnd_next isRest)]
    by_cases isEnd : token.kind = .eof
    · refine ⟨reader, ?_, .refl reader, ?_⟩
      · rw [decide_eq_true isEnd]
        rfl
      · rw [if_pos (.inl isEnd), ← isRest]
        rfl
    rw [decide_eq_false isEnd, if_neg Bool.false_ne_true, Step.bind_done previous]
    by_cases isSemicolon : before.kind = .symbol .semicolon
    · refine ⟨reader, ?_, .refl reader, ?_⟩
      · rw [if_pos isSemicolon]
        rfl
      · rw [if_pos (.inr (.inl isSemicolon)), ← isRest]
        rfl
    rw [if_neg isSemicolon, Step.bind_done (peek_next isRest)]
    by_cases starts : token.kind.startsStatement = true
    · refine ⟨reader, ?_, .refl reader, ?_⟩
      · rw [if_pos starts]
        rfl
      · rw [if_pos (.inr (.inr starts)), ← isRest]
        rfl
    · have goes := Reader.Goes.forward isRest isEnd
      have isOthers := Reader.forward_rest isRest
      have fewer : reader.forward.rest.length ≤ count := by
        rw [isRest, List.length_cons] at enough
        rw [isOthers]
        omega
      have isToken : reader.forward.tokens[reader.forward.position - 1]? = some token :=
        Reader.getElem?_of_rest isRest
      obtain ⟨later, skipped, goesOn, same⟩ := ih (goes.hasEnd hasEnd) fewer isToken
      refine ⟨later, ?_, goes.trans goesOn, ?_⟩
      · rw [if_neg starts, Step.bind_done (advance_next isRest isEnd), skipped]
      · rw [if_neg fun any => any.elim isEnd fun any => any.elim isSemicolon starts, same, isOthers]
        rfl

/-- Going on after a failure ends at a statement boundary; unless there is only the
end, that is further on. -/
theorem Read.synchronize_next {reader : Reader} (hasEnd : reader.HasEnd) :
    ∃ later, synchronize reader = .done () later ∧ reader.Goes later ∧
      later.cursor = { reader.cursor with rest := resumption reader.rest } ∧
      (reader.cursor.atEnd = false → reader.position < later.position) := by
  obtain ⟨token, others, isRest⟩ := hasEnd.eq_cons
  have isNext := Reader.getElem?_of_rest isRest
  have enough : reader.rest.length ≤ reader.tokens.length := by
    rw [Reader.rest, List.length_drop]
    omega
  rw [synchronize, isRest, resumption]
  by_cases isEnd : token.kind = .eof
  · obtain ⟨before, isBefore, stays⟩ := advance_end isRest isEnd
    obtain ⟨later, skipped, goes, same⟩ := skip_next hasEnd enough isBefore
    rw [isRest, skipToBoundary, if_pos (.inl isEnd)] at same
    refine ⟨later, ?_, goes, ?_, fun notEnd => ?_⟩
    · rw [Step.bind_done stays, Step.bind_done (Step.view_apply _ _), skipped]
    · rw [if_pos isEnd, same]
    · rw [Reader.cursor_atEnd isRest] at notEnd
      exact absurd isEnd (of_decide_eq_false notEnd)
  · have goes := Reader.Goes.forward isRest isEnd
    have isOthers := Reader.forward_rest isRest
    have isToken : reader.forward.tokens[reader.forward.position - 1]? = some token := isNext
    have fewer : reader.forward.rest.length ≤ reader.forward.tokens.length := by
      rw [Reader.rest, List.length_drop]
      omega
    obtain ⟨later, skipped, goesOn, same⟩ := skip_next (goes.hasEnd hasEnd) fewer isToken
    refine ⟨later, ?_, goes.trans goesOn, ?_, fun _ => goesOn.le⟩
    · rw [Step.bind_done (advance_next isRest isEnd), Step.bind_done (Step.view_apply _ _), skipped]
    · rw [if_neg isEnd, same, isOthers]
      rfl

theorem Follows.synchronize :
    Follows (Step.update fun cursor => { cursor with rest := resumption cursor.rest })
      Read.synchronize := by
  intro reader hasEnd
  obtain ⟨later, synchronized, goes, same, -⟩ := Read.synchronize_next hasEnd
  have reaches := Reader.Reaches.done () later goes
  rw [same] at reaches
  rw [synchronized]
  exact reaches

/-- After a failure, its diagnostic is recorded, and reading goes on at a statement boundary. -/
theorem Read.recover_failed {α : Type} {read : Read α} {reader later : Reader}
    {diagnostic : Diagnostic} (hasEnd : later.HasEnd)
    (failed : read reader = .failed (.at later.position diagnostic) later) :
    ∃ last, recover read reader = .done none last ∧
      (later.record later.position diagnostic).Goes last ∧
      last.cursor = { later.cursor.record diagnostic with rest := resumption later.rest } ∧
      (later.cursor.atEnd = false → later.position < last.position) := by
  have hasEnd : (later.record later.position diagnostic).HasEnd := hasEnd
  obtain ⟨last, synchronized, goes, same, further⟩ := synchronize_next hasEnd
  refine ⟨last, ?_, goes, ?_, further⟩
  · unfold recover
    rw [failed]
    dsimp only
    rw [Step.bind_done synchronized]
    rfl
  · rw [same, Reader.record_cursor]
    rfl

namespace Follows

theorem recover {α : Type} {parse : Parse α} {read : Read α} (follows : Follows parse read) :
    Follows (Parse.recover parse) (Read.recover read) := by
  intro reader hasEnd
  have reaches := follows reader hasEnd
  unfold Parse.recover
  generalize parse reader.cursor = outcome at reaches
  generalize ran : read reader = outcome' at reaches
  cases reaches with
  | outOfFuel =>
    unfold Read.recover
    rw [ran]
    exact .outOfFuel
  | done value later goes =>
    unfold Read.recover
    rw [ran]
    exact .done (some value) later goes
  | failed diagnostic later goes anchored =>
    obtain ⟨last, recovered, goesOn, same, -⟩ := Read.recover_failed (goes.hasEnd hasEnd) ran
    have anchored : Anchored later.tokens later.position diagnostic := goes.tokens ▸ anchored
    have recorded := Reader.Goes.record anchored
    have reaches := Reader.Reaches.done (none : Option α) last ((goes.trans recorded).trans goesOn)
    rw [same] at reaches
    rw [recovered]
    exact reaches

theorem parametersAfter (count fuel : Nat) :
    Follows (Parse.parametersAfter count fuel) (Read.parametersAfter count fuel) := by
  induction fuel generalizing count with
  | zero => exact exhausted
  | succ fuel ih =>
    have rest : Follows (do
        let name ← Parse.expect .identifier .parameterName
        if ← Parse.takes (.symbol .comma) then
          return name :: (← Parse.parametersAfter (count + 1) fuel)
        let _ ← Parse.expect (.symbol .rightParen) .parametersEnd
        return [name]) (do
        let name ← Read.expect .identifier .parameterName
        if ← Read.takes (.symbol .comma) then
          return name :: (← Read.parametersAfter (count + 1) fuel)
        let _ ← Read.expect (.symbol .rightParen) .parametersEnd
        return [name]) := by
      refine bind (expect _ _) fun name => bind (takes _) fun more => ite ?_ ?_
      · exact bind (ih _) fun _ => pure _
      · exact bind (expect _ _) fun _ => pure _
    refine ite ?_ rest
    exact here fun _ => peek fun token => (bind (report _ _ rfl) fun _ => rest).before token

theorem parameters (fuel : Nat) : Follows (Parse.parameters fuel) (Read.parameters fuel) := by
  refine bind (sees _) fun closed => ite ?_ (parametersAfter 0 fuel)
  exact bind (expect _ _) fun _ => pure _

end Follows

/-! ### Productions -/

/-- The productions, by what they read. -/
inductive Production : Type → Type where
  | expression : Production Expr
  | ternary : Production Expr
  | binary (level : Level) : Production Expr
  | operand (level : Level) : Production Expr
  | joined (level : Level) (left : Expr) : Production Expr
  | unary : Production Expr
  | calls (callee : Expr) : Production Expr
  | arguments : Production (List Expr)
  | argumentsAfter (count : Nat) : Production (List Expr)
  | primary : Production Expr
  | parametersAfter (count : Nat) : Production (List Token)
  | parameters : Production (List Token)
  | functionBody (beforeParameters beforeBody : Expected) : Production FunctionBody
  | block : Production (List Stmt)
  | declarations (stop : Kind → Bool) : Production (List Stmt)
  | declaration : Production (Option Stmt)
  | varDeclaration : Production Stmt
  | initializer : Production (Option Expr)
  | statement : Production Stmt
  | expressionStatement : Production Stmt
  | unlessSeen (kind : Kind) : Production (Option Expr)
  | ifStatement : Production Stmt
  | forStatement : Production Stmt
  | forInitializer : Production (Option Stmt)

namespace Production

/-- A production over a cursor. -/
def parse {α : Type} : Production α → (fuel : Nat) → Parse α
  | expression => Parse.expression
  | ternary => Parse.ternary
  | binary level => Parse.binary level
  | operand level => Parse.operand level
  | joined level left => Parse.joined level left
  | unary => Parse.unary
  | calls callee => Parse.calls callee
  | arguments => Parse.arguments
  | argumentsAfter count => Parse.argumentsAfter count
  | primary => Parse.primary
  | parametersAfter count => Parse.parametersAfter count
  | parameters => Parse.parameters
  | functionBody beforeParameters beforeBody => Parse.functionBody beforeParameters beforeBody
  | block => Parse.block
  | declarations stop => Parse.declarations stop
  | declaration => Parse.declaration
  | varDeclaration => Parse.varDeclaration
  | initializer => Parse.initializer
  | statement => Parse.statement
  | expressionStatement => Parse.expressionStatement
  | unlessSeen kind => Parse.unlessSeen kind
  | ifStatement => Parse.ifStatement
  | forStatement => Parse.forStatement
  | forInitializer => Parse.forInitializer

/-- The production of the same name over a reader. -/
def read {α : Type} : Production α → (fuel : Nat) → Read α
  | expression => Read.expression
  | ternary => Read.ternary
  | binary level => Read.binary level
  | operand level => Read.operand level
  | joined level left => Read.joined level left
  | unary => Read.unary
  | calls callee => Read.calls callee
  | arguments => Read.arguments
  | argumentsAfter count => Read.argumentsAfter count
  | primary => Read.primary
  | parametersAfter count => Read.parametersAfter count
  | parameters => Read.parameters
  | functionBody beforeParameters beforeBody => Read.functionBody beforeParameters beforeBody
  | block => Read.block
  | declarations stop => Read.declarations stop
  | declaration => Read.declaration
  | varDeclaration => Read.varDeclaration
  | initializer => Read.initializer
  | statement => Read.statement
  | expressionStatement => Read.expressionStatement
  | unlessSeen kind => Read.unlessSeen kind
  | ifStatement => Read.ifStatement
  | forStatement => Read.forStatement
  | forInitializer => Read.forInitializer

end Production

/-- Every production over a reader follows the one of the same name over a cursor, with this
fuel. -/
def AllFollow (fuel : Nat) : Prop :=
  ∀ ⦃α : Type⦄ (production : Production α), Follows (production.parse fuel) (production.read fuel)

section

open Follows

variable {fuel : Nat} (ih : AllFollow fuel)

include ih

theorem follows_expression :
    Follows (Parse.expression (fuel + 1)) (Read.expression (fuel + 1)) := by
  refine .bind (ih .ternary) fun target => .bind (takeIf _) fun found => ?_
  cases found with
  | none => exact pure target
  | some equals =>
    refine here fun next => .bind (ih .expression) fun value => ?_
    cases target with
    | «variable» node name => exact bind freshNode fun _ => pure _
    | _ => exact .bind (report _ _ rfl) fun _ => pure _

theorem follows_ternary : Follows (Parse.ternary (fuel + 1)) (Read.ternary (fuel + 1)) := by
  refine .bind (ih (.binary .or)) fun condition => .bind (takeIf _) fun found => ?_
  cases found with
  | none => exact pure condition
  | some question =>
    refine .bind (ih .expression) fun yes => .bind (expect _ _) fun _ => ?_
    exact .bind (ih .ternary) fun no => pure _

theorem follows_operand (level : Level) :
    Follows (Parse.operand level (fuel + 1)) (Read.operand level (fuel + 1)) := by
  unfold Parse.operand Read.operand
  cases level.tighter? with
  | none => exact ih .unary
  | some tighter => exact ih (.binary tighter)

theorem follows_joined (level : Level) (left : Expr) :
    Follows (Parse.joined level left (fuel + 1)) (Read.joined level left (fuel + 1)) := by
  refine .bind (takeIf _) fun found => ?_
  cases found with
  | none => exact pure left
  | some operator => exact .bind (ih (.operand level)) fun right => ih (.joined level
      (level.join left operator right))

theorem follows_unary : Follows (Parse.unary (fuel + 1)) (Read.unary (fuel + 1)) := by
  refine .bind (takeIf _) fun found => ?_
  cases found with
  | none => exact .bind (ih .primary) fun callee => ih (.calls callee)
  | some operator => exact .bind (ih .unary) fun _ => pure _

theorem follows_calls (callee : Expr) :
    Follows (Parse.calls callee (fuel + 1)) (Read.calls callee (fuel + 1)) := by
  refine .bind (takes _) fun called => ite ?_ (pure callee)
  refine .bind (ih .arguments) fun arguments => .bind (expect _ _) fun closing => ?_
  exact ih (.calls (.call callee arguments closing))

theorem follows_arguments : Follows (Parse.arguments (fuel + 1)) (Read.arguments (fuel + 1)) :=
  .bind (sees _) fun _ => ite (pure []) (ih (.argumentsAfter 0))

theorem follows_argumentsAfter (count : Nat) :
    Follows (Parse.argumentsAfter count (fuel + 1)) (Read.argumentsAfter count (fuel + 1)) := by
  have others : ∀ count, Follows (Parse.argumentsAfter count fuel)
      (Read.argumentsAfter count fuel) :=
    fun count => ih (.argumentsAfter count)
  have rest : Follows (do
      let argument ← Parse.expression fuel
      if ← Parse.takes (.symbol .comma) then
        return argument :: (← Parse.argumentsAfter (count + 1) fuel)
      return [argument]) (do
      let argument ← Read.expression fuel
      if ← Read.takes (.symbol .comma) then
        return argument :: (← Read.argumentsAfter (count + 1) fuel)
      return [argument]) := by
    refine .bind (ih .expression) fun argument => .bind (takes _) fun more => ite ?_ (pure _)
    exact .bind (others _) fun _ => pure _
  refine ite ?_ rest
  exact here fun _ => peek fun token => before (.bind (report _ _ rfl) fun _ => rest) token

theorem follows_primary : Follows (Parse.primary (fuel + 1)) (Read.primary (fuel + 1)) := by
  refine peek fun token => ?_
  generalize isKind : token.kind = kind
  have noEnd : kind ≠ .eof → token.kind ≠ .eof := fun noEnd => isKind ▸ noEnd
  have taken : ∀ value, kind ≠ .eof → FollowsBefore token (Parse.taken value) (Read.taken value) :=
    fun value isInner => .advance (noEnd isInner) (pure value)
  cases kind with
  | number value => exact taken _ nofun
  | string contents => exact taken _ nofun
  | identifier =>
    refine .advance (noEnd nofun) ?_
    exact .bind freshNode fun _ => pure _
  | eof => exact before (missing _) token
  | symbol mark =>
    cases mark with
    | leftParen =>
      refine .advance (noEnd nofun) ?_
      exact .bind (ih .expression) fun _ => .bind (expect _ _) fun _ => pure _
    | _ => exact before (missing _) token
  | keyword word =>
    cases word with
    | «false» => exact taken _ nofun
    | «true» => exact taken _ nofun
    | nil => exact taken _ nofun
    | «fun» =>
      refine .advance (noEnd nofun) ?_
      exact .bind (ih (.functionBody .lambdaParameters .lambdaBody)) fun _ => pure _
    | _ => exact before (missing _) token

theorem follows_functionBody (beforeParameters beforeBody : Expected) :
    Follows (Parse.functionBody beforeParameters beforeBody (fuel + 1))
      (Read.functionBody beforeParameters beforeBody (fuel + 1)) := by
  refine .bind (expect _ _) fun _ => .bind (parameters fuel)
    fun names => .bind (expect _ _) fun _ => ?_
  exact .bind (ih .block) fun _ => pure _

theorem follows_block : Follows (Parse.block (fuel + 1)) (Read.block (fuel + 1)) :=
  .bind (ih (.declarations (· = .symbol .rightBrace))) fun _ => .bind (expect _ _) fun _ => pure _

theorem follows_declarations (stop : Kind → Bool) :
    Follows (Parse.declarations stop (fuel + 1)) (Read.declarations stop (fuel + 1)) := by
  refine .bind (stops stop) fun _ => ite (pure []) ?_
  exact .bind (ih .declaration) fun _ => .bind (ih (.declarations stop)) fun _ => pure _

theorem follows_declaration :
    Follows (Parse.declaration (fuel + 1)) (Read.declaration (fuel + 1)) := by
  refine recover (seesFunction (fun token isFun => ?_) ?_)
  case refine_2 => exact .bind (takes _) fun _ => ite (ih .varDeclaration) (ih .statement)
  refine .advance (by simp [isFun]) ?_
  exact .bind (expect _ _) fun _ => .bind (ih (.functionBody .functionParameters .functionBody))
    fun _ => pure _

theorem follows_varDeclaration :
    Follows (Parse.varDeclaration (fuel + 1)) (Read.varDeclaration (fuel + 1)) :=
  .bind (expect _ _) fun _ => .bind (ih .initializer) fun _ => .bind (expect _ _) fun _ => pure _

theorem follows_initializer :
    Follows (Parse.initializer (fuel + 1)) (Read.initializer (fuel + 1)) :=
  .bind (takes _) fun _ => ite (.bind (ih .expression) fun _ => pure _) (pure none)

theorem follows_statement : Follows (Parse.statement (fuel + 1)) (Read.statement (fuel + 1)) := by
  refine peek fun token => ?_
  generalize isKind : token.kind = kind
  have noEnd : kind ≠ .eof → token.kind ≠ .eof := fun noEnd => isKind ▸ noEnd
  have other := before (ih .expressionStatement) token
  cases kind with
  | symbol mark =>
    cases mark with
    | leftBrace =>
      refine .advance (noEnd nofun) ?_
      exact .bind (ih .block) fun _ => pure _
    | _ => exact other
  | keyword word =>
    cases word with
    | «for» => exact .advance (noEnd nofun) (ih .forStatement)
    | «if» => exact .advance (noEnd nofun) (ih .ifStatement)
    | «while» =>
      refine .advance (noEnd nofun) ?_
      refine .bind (expect _ _) fun _ => .bind (ih .expression)
        fun _ => .bind (expect _ _) fun _ => ?_
      exact .bind (ih .statement) fun _ => pure _
    | «return» =>
      refine .advance (noEnd nofun) ?_
      exact .bind (ih (.unlessSeen (.symbol .semicolon))) fun _ => .bind (expect _ _)
        fun _ => pure _
    | «print» =>
      refine .advance (noEnd nofun) ?_
      exact .bind (ih .expression) fun _ => .bind (expect _ _) fun _ => pure _
    | _ => exact other
  | _ => exact other

theorem follows_expressionStatement :
    Follows (Parse.expressionStatement (fuel + 1)) (Read.expressionStatement (fuel + 1)) :=
  .bind (ih .expression) fun _ => .bind (expect _ _) fun _ => pure _

theorem follows_unlessSeen (kind : Kind) :
    Follows (Parse.unlessSeen kind (fuel + 1)) (Read.unlessSeen kind (fuel + 1)) :=
  .bind (sees _) fun _ => ite (pure none) (.bind (ih .expression) fun _ => pure _)

theorem follows_ifStatement :
    Follows (Parse.ifStatement (fuel + 1)) (Read.ifStatement (fuel + 1)) := by
  refine .bind (expect _ _) fun _ => .bind (ih .expression) fun _ => .bind (expect _ _) fun _ => ?_
  refine .bind (ih .statement) fun _ => .bind (takes _) fun _ => ite ?_ (pure _)
  exact .bind (ih .statement) fun _ => pure _

theorem follows_forStatement :
    Follows (Parse.forStatement (fuel + 1)) (Read.forStatement (fuel + 1)) := by
  refine .bind (expect _ _) fun _ => .bind (ih .forInitializer) fun _ => ?_
  refine .bind (ih (.unlessSeen (.symbol .semicolon))) fun _ => .bind (expect _ _) fun _ => ?_
  refine .bind (ih (.unlessSeen (.symbol .rightParen))) fun _ => .bind (expect _ _) fun _ => ?_
  exact .bind (ih .statement) fun _ => pure _

theorem follows_forInitializer :
    Follows (Parse.forInitializer (fuel + 1)) (Read.forInitializer (fuel + 1)) := by
  refine .bind (takes _) fun _ => ite (pure none) (.bind (takes _) fun _ => ite ?_ ?_)
  · exact .bind (ih .varDeclaration) fun _ => pure _
  · exact .bind (ih .expressionStatement) fun _ => pure _

end

/-- **All productions do by index what they do off a cursor.** -/
theorem followed (fuel : Nat) : AllFollow fuel := by
  induction fuel with
  | zero =>
    intro α production
    cases production with
    | parameters => exact Follows.parameters 0
    | _ => exact Follows.exhausted
  | succ fuel ih =>
    intro α production
    cases production with
    | expression => exact follows_expression ih
    | ternary => exact follows_ternary ih
    | binary level => exact Follows.bind (ih (.operand level)) fun left => ih (.joined level left)
    | operand level => exact follows_operand ih level
    | joined level left => exact follows_joined ih level left
    | unary => exact follows_unary ih
    | calls callee => exact follows_calls ih callee
    | arguments => exact follows_arguments ih
    | argumentsAfter count => exact follows_argumentsAfter ih count
    | primary => exact follows_primary ih
    | parametersAfter count => exact Follows.parametersAfter count (fuel + 1)
    | parameters => exact Follows.parameters (fuel + 1)
    | functionBody beforeParameters beforeBody =>
      exact follows_functionBody ih beforeParameters beforeBody
    | block => exact follows_block ih
    | declarations stop => exact follows_declarations ih stop
    | declaration => exact follows_declaration ih
    | varDeclaration => exact follows_varDeclaration ih
    | initializer => exact follows_initializer ih
    | statement => exact follows_statement ih
    | expressionStatement => exact follows_expressionStatement ih
    | unlessSeen kind => exact follows_unlessSeen ih kind
    | ifStatement => exact follows_ifStatement ih
    | forStatement => exact follows_forStatement ih
    | forInitializer => exact follows_forInitializer ih

/-! ### Whole token lists -/

theorem follows_program (fuel : Nat) : Follows (Parse.program fuel) (Read.program fuel) :=
  followed fuel (.declarations fun _ => false)

theorem follows_wholeExpression (fuel : Nat) :
    Follows (Parse.wholeExpression fuel) (Read.wholeExpression fuel) := by
  refine .bind (followed fuel .expression) fun value => ?_
  intro reader hasEnd
  obtain ⟨token, others, isRest⟩ := hasEnd.eq_cons
  have same := Reader.cursor_atEnd isRest
  rw [Step.bind_done (Step.view_apply _ _), Step.bind_done (Read.atEnd_next isRest), same]
  by_cases isEnd : token.kind = .eof
  · obtain ⟨before, -, stays⟩ := Read.advance_end isRest isEnd
    rw [decide_eq_true isEnd, if_pos rfl, if_pos rfl, Step.bind_done stays]
    exact .done value reader (.refl reader)
  · rw [decide_eq_false isEnd, if_neg Bool.false_ne_true, if_neg Bool.false_ne_true]
    exact Follows.missing _ reader hasEnd

end Lox
