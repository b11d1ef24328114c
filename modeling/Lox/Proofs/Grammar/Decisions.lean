/-
**Readings that are put together are decided if their parts are.**

One lemma for each way to put readings together:

* `Decided.bind`, `Decided.bindStrictly`, `Decided.upTo`, `Decided.map` — one reading after the
  other. The second one is decided by what the first one leaves; the tokens that complete it start
  with one that may follow the first.
* `Decided.takeIf`, `Decided.takes`, `Decided.expect`, `Decided.sees`, `Decided.stops` —
  looking at the next token. Where there is none yet, a token is left out if it may be, and
  completed if it has to be there.
* `Decided.peek` — where the next token says which reading it is.
* `Decided.seesFunction` — the one place where the token after the next one decides. A `fun` alone
  may start a declaration or a lambda, and is survived because both get over it.
* `Decided.recover` — what breaks a reading is recorded, and so breaks the
  reading that goes on after it.
-/

import Lox.Proofs.Grammar.Fates

namespace Lox

namespace Decided

variable {ι κ α β : Type} {tokens : List Token} {Start Start' Follow Follow' : Kind → Prop}

theorem mono {read : ι → Read α} (decided : Decided read Start Follow tokens)
    (start : ∀ kind, Start kind → Start' kind) (follow : ∀ kind, Follow' kind → Follow kind) :
    Decided read Start' Follow' tokens := by
  have weaker : ∀ {tokens}, Consumes read tokens (Leading Follow) →
      Consumes read tokens (Leading Follow') :=
    fun consumes i reader rest hasEnd isRest allowed => consumes i reader rest hasEnd isRest
      (follow _ allowed)
  obtain ⟨forward, ⟨completion, plain, consumes, starts⟩, fate⟩ := decided
  have startsWeaker : ∀ rest, Leading Follow' rest →
      Leading Start' (completion ++ rest) := fun rest allowed =>
    start _ (starts rest (follow _ allowed))
  refine ⟨forward, ⟨completion, plain, weaker consumes, startsWeaker⟩, ?_⟩
  cases fate with
  | passes taken other others split consumes => exact .passes taken other others split consumes
  | breaks before other others split breaks => exact .breaks before other others split breaks
  | survives completion plain consumes survives =>
    exact .survives completion plain (weaker consumes) survives

theorem any {read : ι → Read α} (decided : Decided read Start Follow tokens) :
    Decided read Kind.Any Follow tokens :=
  decided.mono (fun _ _ => trivial) fun _ => id

theorem anyAfter {read : ι → Read α} (decided : Decided read Start Kind.Any tokens) :
    Decided read Start Follow tokens :=
  decided.mono (fun _ => id) fun _ _ => trivial

/-- Fewer readings. -/
theorem comp {read : ι → Read α} (decided : Decided read Start Follow tokens) (f : κ → ι) :
    Decided (fun j => read (f j)) Start Follow tokens := by
  obtain ⟨forward, ⟨completion, plain, consumes, starts⟩, fate⟩ := decided
  have fewer : ∀ {tokens Allowed}, Consumes read tokens Allowed →
      Consumes (fun j => read (f j)) tokens Allowed :=
    fun consumes j => consumes (f j)
  refine ⟨fun j => forward (f j), ⟨completion, plain, fewer consumes, starts⟩, ?_⟩
  cases fate with
  | passes taken other others split consumes =>
    exact .passes taken other others split (fewer consumes)
  | breaks before other others split breaks =>
    exact .breaks before other others split fun j => breaks (f j)
  | survives completion plain consumes survives =>
    exact .survives completion plain (fewer consumes) fun j => survives (f j)

/-- Nothing at all is survived, so that only the fate of tokens of which there is a
first one is to be told. -/
theorem of_next {read : ι → Read α} (forward : ∀ i, (read i).Forward)
    (completion : ∃ completion, NoEnd completion ∧ Consumes read completion (Leading Follow) ∧
      ∀ rest, Leading Follow rest → Leading Start (completion ++ rest))
    (fate : ∀ token rest, tokens = token :: rest → Fate read Follow (token :: rest)) :
    Decided read Start Follow tokens := by
  refine ⟨forward, completion, ?_⟩
  cases tokens with
  | nil =>
    obtain ⟨completion, plain, consumes, -⟩ := completion
    exact .nil forward ⟨completion, plain, consumes⟩
  | cons token rest => exact fate token rest rfl

/-- A reading that takes nothing. -/
theorem quiet {read : ι → Read α} (forward : ∀ i, (read i).Forward)
    (stays : ∀ i (reader : Reader), reader.HasEnd →
      ∃ value later, read i reader = .done value later ∧ later.rest = reader.rest ∧
        reader.Clean later)
    (start : ∀ kind, Follow kind → Start kind) : Decided read Start Follow tokens := by
  have consumes : ∀ {Allowed}, Consumes read [] Allowed := by
    intro Allowed i reader rest hasEnd isRest _
    obtain ⟨value, later, ran, isLater, clean⟩ := stays i reader hasEnd
    exact .inr ⟨value, later, ran, isLater.trans isRest, clean⟩
  exact .of_next forward ⟨[], nofun, consumes, fun rest => start _⟩ fun token rest _ =>
    .passes [] token rest rfl consumes

theorem pure {value : ι → α} (start : ∀ kind, Follow kind → Start kind) :
    Decided (fun i => (pure (value i) : Read α)) Start Follow tokens :=
  quiet (fun i => .pure (value i))
    (fun i reader _ => ⟨value i, reader, rfl, rfl, .refl reader⟩) start

/-- A reading that goes on as another one without taking anything, if its fuel is not spent. -/
theorem same {read : ι → Read α} {next : κ → Read α} (forward : ∀ i, (read i).Forward)
    (goesOn : ∀ i (reader : Reader), reader.HasEnd → read i reader = .outOfFuel ∨
      ∃ j between, read i reader = next j between ∧ reader.Goes between ∧ reader.Clean between ∧
        between.rest = reader.rest)
    (decided : Decided next Start Follow tokens) : Decided read Start Follow tokens := by
  have leads : ∀ {tokens Allowed}, Leads read next [] tokens Allowed := by
    intro tokens Allowed i reader rest hasEnd isRest _
    refine (goesOn i reader hasEnd).imp_right ?_
    rintro ⟨j, between, same, goes, clean, isBetween⟩
    exact ⟨j, between, same, goes, clean, isBetween.trans isRest⟩
  obtain ⟨completion, plain, consumes, starts⟩ := decided.completion
  exact ⟨forward, ⟨completion, plain, consumes.lead leads, starts⟩, decided.fate.lead leads⟩

/-- One unit of fuel goes into the production itself. -/
theorem succ {read : Nat → Read α} (forward : ∀ fuel, (read fuel).Forward)
    (zero : read 0 = Step.exhausted)
    (decided : Decided (fun fuel => read (fuel + 1)) Start Follow tokens) :
    Decided read Start Follow tokens := by
  refine same forward (fun fuel reader _ => ?_) decided
  cases fuel with
  | zero => exact .inl (by rw [zero]; rfl)
  | succ fuel => exact .inr ⟨fuel, reader, rfl, .refl reader, .refl reader, rfl⟩

theorem succOf {read : κ → Nat → Read α} (forward : ∀ value fuel, (read value fuel).Forward)
    (zero : ∀ value, read value 0 = Step.exhausted)
    (decided : Decided (fun i : κ × Nat => read i.1 (i.2 + 1)) Start Follow tokens) :
    Decided (fun i : κ × Nat => read i.1 i.2) Start Follow tokens := by
  refine same (fun i => forward i.1 i.2) (fun i reader _ => ?_) decided
  obtain ⟨value, fuel⟩ := i
  cases fuel with
  | zero => exact .inl (by show read value 0 reader = _; rw [zero]; rfl)
  | succ fuel => exact .inr ⟨(value, fuel), reader, rfl, .refl reader, .refl reader, rfl⟩

section

variable {first : ι → Read β} {next : ι → β → Read α} {Middle : Kind → Prop}

/-- A sequence is decided if its parts are, the second one wherever the first one may leave it. -/
theorem bindAt (decided : Decided first Start Follow tokens) (plain : NoEnd tokens)
    (compatible : ∀ kind, Middle kind → Follow kind)
    (rest : ∀ taken left, tokens = taken ++ left → NoEnd left →
    (left ≠ [] → Consumes first taken (left <+: ·)) →
      Decided (fun i : ι × β => next i.1 i.2) Middle Follow' left) :
    Decided (fun i => first i >>= next i) Start Follow' tokens := by
  have nothing := rest tokens [] (List.append_nil _).symm nofun (absurd rfl)
  have forwardNext : ∀ i value, (next i value).Forward := fun i value => nothing.forward (i, value)
  obtain ⟨completion, plainNext, consumesNext, starts⟩ := nothing.completion
  have compatibleNext : ∀ rest, Leading Follow' rest → Leading Follow (completion ++ rest) :=
    fun rest allowed => compatible _ (starts rest allowed)
  refine ⟨fun i => (decided.forward i).bind (forwardNext i), ?_, ?_⟩
  · obtain ⟨before, plainBefore, consumes, startsBefore⟩ := decided.completion
    refine ⟨before ++ completion, List.forall_mem_append.mpr ⟨plainBefore, plainNext⟩, ?_,
      fun rest allowed => ?_⟩
    · exact consumesNext.lead (consumes.leads decided.forward compatibleNext)
    · rw [List.append_assoc]
      exact startsBefore _ (compatibleNext rest allowed)
  · refine decided.fate.bind decided.forward forwardNext
      ⟨completion, plainNext, consumesNext, compatibleNext⟩ ?_
    intro taken other others split consumes
    have isSuffix : other :: others <:+ tokens := ⟨taken, split.symm⟩
    exact (rest taken _ split (fun token isToken => plain token (isSuffix.subset isToken))
      fun _ => consumes).fate

theorem bind (decided : Decided first Start Follow tokens) (plain : NoEnd tokens)
    (compatible : ∀ kind, Middle kind → Follow kind)
    (rest : ∀ left, NoEnd left → left.length ≤ tokens.length →
      Decided (fun i : ι × β => next i.1 i.2) Middle Follow' left) :
    Decided (fun i => first i >>= next i) Start Follow' tokens := by
  refine decided.bindAt plain compatible fun taken left split plainLeft _ => rest left plainLeft ?_
  rw [split, List.length_append]
  omega

/-- If the first part always takes a token, the second one starts further on. -/
theorem bindStrictly (decided : Decided first Start Follow tokens) (plain : NoEnd tokens)
    (compatible : ∀ kind, Middle kind → Follow kind)
    (takes : ∀ other others, NoEnd (other :: others) → ¬Consumes first [] (other :: others <+: ·))
    (rest : ∀ left, NoEnd left → left.length ≤ tokens.length - 1 →
      Decided (fun i : ι × β => next i.1 i.2) Middle Follow' left) :
    Decided (fun i => first i >>= next i) Start Follow' tokens := by
  refine decided.bindAt plain compatible fun taken left split plainLeft consumes =>
    rest left plainLeft ?_
  cases left with
  | nil => exact Nat.zero_le _
  | cons other others =>
    cases taken with
    | nil => exact absurd (consumes (List.cons_ne_nil _ _)) (takes other others plainLeft)
    | cons =>
      rw [split, List.length_append, List.length_cons, List.length_cons]
      omega

/-- What is read last does not change by what is made of it. -/
theorem map {make : ι → β → α} (decided : Decided first Start Follow tokens)
    (plain : NoEnd tokens) :
    Decided (fun i => first i >>= fun value => Pure.pure (make i value)) Start Follow tokens :=
  decided.bind plain (fun _ => id) fun _ _ _ => pure fun _ => id

end

/-! #### Looking at tokens and taking them -/

section

variable {test : Kind → Bool}

/-- A token that passes a test is taken, and otherwise nothing. Nothing at all is
completed without such a token. -/
theorem takeIf {next : ι → Option Token → Read α} (plain : NoEnd tokens)
    (forward : ∀ i token, (next i (some token)).Forward)
    (taken : ∀ token rest, NoEnd rest → rest.length < tokens.length →
      Decided (fun i => next i (some token)) Kind.Any Follow rest)
    (otherwise : Decided (fun i => next i none) Start Follow tokens)
    (fails : ∀ kind, Start kind → test kind = false) :
    Decided (fun i => Read.takeIf test >>= next i) Start Follow tokens := by
  have forwardAll : ∀ i, (Read.takeIf test >>= next i).Forward := by
    refine fun i => .bind ⟨_, .takeIf test⟩ fun found => ?_
    cases found with
    | none => exact otherwise.forward i
    | some token => exact forward i token
  have leadsOn : ∀ {tokens Allowed},
      (∀ rest, Allowed rest → test (firstToken (tokens ++ rest)).kind = false) →
      Leads (fun i => Read.takeIf test >>= next i) (fun i => next i none) [] tokens Allowed := by
    intro tokens Allowed fails
    refine .stays fun i reader rest token others allowed isFirst isRest => ?_
    have failsHere := fails rest allowed
    rw [isFirst, firstToken_cons] at failsHere
    have unseen : reader.cursor.sees test = false := by
      rw [Reader.cursor_sees isRest, failsHere, Bool.and_false]
    exact Step.bind_done (by rw [Read.takeIf_next isRest, unseen]; rfl) _
  obtain ⟨completion, plainCompletion, consumes, starts⟩ := otherwise.completion
  have consumesAll := consumes.lead (leadsOn fun rest allowed => fails _ (starts rest allowed))
  refine .of_next forwardAll ⟨completion, plainCompletion, consumesAll, starts⟩ ?_
  rintro token rest rfl
  cases passes : test token.kind with
  | false => exact otherwise.fate.lead (leadsOn fun _ _ => passes)
  | true =>
    obtain ⟨noEnd, plainRest⟩ := List.forall_mem_cons.mp plain
    refine (taken token rest plainRest (Nat.lt_succ_self _)).fate.lead
      (.takes noEnd fun i reader last _ isRest => ?_)
    have seen : reader.cursor.sees test = true := by
      rw [Reader.cursor_sees isRest, passes, decide_eq_false noEnd]
      rfl
    exact Step.bind_done (by rw [Read.takeIf_next isRest, seen]; rfl) _

theorem takes {kind : Kind} {next : ι → Bool → Read α} (plain : NoEnd tokens)
    (forward : ∀ i, (next i true).Forward)
    (taken : ∀ rest, NoEnd rest → rest.length < tokens.length →
      Decided (fun i => next i true) Kind.Any Follow rest)
    (otherwise : Decided (fun i => next i false) Start Follow tokens)
    (fails : ∀ other, Start other → other ≠ kind) :
    Decided (fun i => Read.takes kind >>= next i) Start Follow tokens := by
  have same : ∀ i, (Read.takes kind >>= next i) =
      Read.takeIf (· = kind) >>= fun found => next i found.isSome := by
    intro i
    funext reader
    rw [Read.takes, Step.bind_apply, Step.bind_apply, Step.bind_apply]
    cases Read.takeIf (· = kind) reader <;> rfl
  simp only [same]
  refine takeIf plain (fun i _ => forward i) (fun _ => taken) otherwise fun other isStart => ?_
  exact decide_eq_false (fails other isStart)

/-- A token of a kind has to be there. Nothing at all is completed with it. -/
theorem expect {kind : Kind} {expected : Expected} {next : ι → Token → Read α}
    (plain : NoEnd tokens) (noEnd : kind ≠ .eof)
    (rest : ∀ token left, NoEnd left → left.length ≤ tokens.length - 1 →
      Decided (fun i => next i token) Kind.Any Follow left) :
    Decided (fun i => Read.expect kind expected >>= next i) (· = kind) Follow tokens := by
  have forward : ∀ i, (Read.expect kind expected >>= next i).Forward := fun i =>
    .bind (.expect _ _) fun token => (rest token [] nofun (Nat.zero_le _)).forward i
  have leads : ∀ (token : Terminal kind) {tokens Allowed},
      Leads (fun i => Read.expect kind expected >>= next i) (fun i => next i token.1)
        [token.1] tokens Allowed := by
    intro token tokens Allowed
    have notEnd : token.1.kind ≠ .eof := by rwa [token.2]
    refine .takes notEnd fun i reader rest _ isRest => ?_
    have seen : reader.cursor.sees (· = kind) = true := by
      rw [Reader.cursor_sees isRest, decide_eq_false notEnd, decide_eq_true token.2]
      rfl
    refine Step.bind_done ?_ _
    rw [Read.expect, Step.bind_done (by rw [Read.takeIf_next isRest, seen]; rfl)]
    rfl
  have token : Terminal kind := ⟨⟨kind, "", 0⟩, rfl⟩
  obtain ⟨completion, plainCompletion, consumes, -⟩ :=
    (rest token.1 [] nofun (Nat.zero_le _)).completion
  have plainAll : NoEnd (token.1 :: completion) := by
    refine List.forall_mem_cons.mpr ⟨?_, plainCompletion⟩
    rwa [token.2]
  have consumesAll := consumes.lead (leads token)
  refine .of_next forward ⟨token.1 :: completion, plainAll, consumesAll, fun rest _ => token.2⟩ ?_
  rintro first others rfl
  by_cases isKind : first.kind = kind
  · exact (rest first others (List.forall_mem_cons.mp plain).2 (Nat.le_refl _)).fate.lead
      (leads ⟨first, isKind⟩)
  · refine .breaks [] first others rfl fun i reader rest hasEnd isRest ⟨last, isLast⟩ => .inr ?_
    rw [List.nil_append, ← isLast] at isRest
    have unseen : reader.cursor.sees (· = kind) = false := by
      rw [Reader.cursor_sees isRest, decide_eq_false isKind, Bool.and_false]
    have ran : Read.expect kind expected reader =
        .failed (.at reader.position (.atToken first (.missing expected))) reader := by
      rw [Read.expect, Step.bind_done (by rw [Read.takeIf_next isRest, unseen]; rfl)]
      exact Read.missing_next isRest
    rw [Step.bind_apply, ran]
    exact ⟨[(reader.position, _)], _, rfl, rfl⟩

/-- A reading up to a token that may follow it and has to be there. -/
theorem upTo {first : ι → Read β} {kind : Kind} {expected : Expected}
    {next : ι → β → Token → Read α} (decided : Decided first Start Follow tokens)
    (plain : NoEnd tokens) (noEnd : kind ≠ .eof) (follows : Follow kind)
    (rest : ∀ token left, NoEnd left → left.length ≤ tokens.length - 1 →
      Decided (fun i : ι × β => next i.1 i.2 token) Kind.Any Follow' left) :
    Decided (fun i => first i >>= fun value => Read.expect kind expected >>= next i value)
      Start Follow' tokens := by
  have compatible : ∀ other, other = kind → Follow other := by
    rintro other rfl
    exact follows
  refine decided.bind plain compatible fun left plainLeft le => ?_
  exact expect plainLeft noEnd fun token last plainLast less => rest token last plainLast (by omega)

/-- Looking at the next token, and at nothing else. Nothing at all is completed before one with
which the answer is yes. -/
theorem look {look : Read Bool} (answer : Kind → Bool) {yes no : ι → Read α}
    (forwardLook : look.Forward)
    (looking : ∀ {reader : Reader} {token : Token} {others : List Token},
      reader.rest = token :: others →
      look reader = .done (answer token.kind) reader) (forward : ∀ i, (no i).Forward)
    (starts : ∀ kind, Start kind → answer kind = true) (positive : Decided yes Start Follow tokens)
    (negative : ∀ token rest, tokens = token :: rest → answer token.kind = false →
      Decided no Kind.Any Follow tokens) :
    Decided (fun i => look >>= fun seen => if seen then yes i else no i) Start Follow tokens := by
  have forwardAll : ∀ i, (look >>= fun seen => if seen then yes i else no i).Forward := by
    refine fun i => .bind forwardLook fun seen => ?_
    cases seen with
    | true => exact positive.forward i
    | false => exact forward i
  have leads : ∀ {tokens Allowed} (seen : Bool),
      (∀ rest, Allowed rest → answer (firstToken (tokens ++ rest)).kind = seen) →
      Leads (fun i => look >>= fun seen => if seen then yes i else no i)
        (if seen then yes else no) [] tokens Allowed := by
    intro tokens Allowed seen answers
    refine .stays fun i reader rest token others allowed isFirst isRest => ?_
    have answered := answers rest allowed
    rw [isFirst, firstToken_cons] at answered
    rw [Step.bind_done (looking isRest), answered]
    cases seen <;> rfl
  obtain ⟨completion, plainCompletion, consumes, isStart⟩ := positive.completion
  have consumesAll :=
    Consumes.lead consumes (leads true fun rest allowed => starts _ (isStart rest allowed))
  refine .of_next forwardAll ⟨completion, plainCompletion, consumesAll, isStart⟩ ?_
  rintro token rest rfl
  cases answered : answer token.kind with
  | true => exact Fate.lead positive.fate (leads true fun _ _ => answered)
  | false => exact Fate.lead (negative token rest rfl answered).fate (leads false
      fun _ _ => answered)

theorem sees {yes no : ι → Read α} (forward : ∀ i, (no i).Forward)
    (starts : ∀ kind, Start kind → kind ≠ .eof ∧ test kind = true)
    (positive : Decided yes Start Follow tokens)
    (negative : ∀ token rest, tokens = token :: rest → Decided no Kind.Any Follow tokens) :
    Decided (fun i => Read.sees test >>= fun seen => if seen then yes i else no i)
      Start Follow tokens := by
  have looking : ∀ {reader : Reader} {token : Token} {others : List Token}, reader.rest =
      token :: others →
      Read.sees test reader = .done (!decide (token.kind = .eof) && test token.kind) reader := by
    intro reader token others isRest
    rw [Read.sees_next isRest, Reader.cursor_sees isRest]
  let answer (kind : Kind) : Bool := !decide (kind = .eof) && test kind
  refine look answer ⟨_, .sees test⟩ looking forward (fun kind isStart => ?_) positive
      fun token rest isTokens _ =>
    negative token rest isTokens
  unfold answer
  rw [decide_eq_false (starts kind isStart).1, (starts kind isStart).2]
  rfl

/-- Nothing at all is completed before a token at which declarations end. -/
theorem stops {stop : Kind → Bool} {yes no : ι → Read α} (forward : ∀ i, (no i).Forward)
    (starts : ∀ kind, Start kind → kind = .eof ∨ stop kind = true)
    (positive : Decided yes Start Follow tokens)
    (negative : ∀ token rest, tokens = token :: rest → Decided no Kind.Any Follow tokens) :
    Decided (fun i => Read.stops stop >>= fun stopped => if stopped then yes i else no i)
      Start Follow tokens := by
  have looking : ∀ {reader : Reader} {token : Token} {others : List Token}, reader.rest =
      token :: others →
      Read.stops stop reader =
        .done (decide (token.kind = .eof) || !decide (token.kind = .eof) && stop token.kind)
          reader := by
    intro reader token others isRest
    rw [Read.stops_next isRest, Reader.cursor_atEnd isRest, Reader.cursor_sees isRest]
  let answer (kind : Kind) : Bool := decide (kind = .eof) || !decide (kind = .eof) && stop kind
  refine look answer ⟨_, .stops stop⟩ looking forward (fun kind isStart => ?_) positive
      fun token rest isTokens _ =>
    negative token rest isTokens
  unfold answer
  by_cases isEnd : kind = .eof
  · rw [decide_eq_true isEnd, Bool.true_or]
  · rw [decide_eq_false isEnd, (starts kind isStart).resolve_left isEnd]
    rfl

end

section

variable {read : ι → Read α} {next : ι → Token → Read α}

/-- Looking at the next token, which is one of those that decide, or the first one of a
completion. -/
theorem peek (plain : NoEnd tokens) (forward : ∀ i, (Read.peek >>= next i).Forward)
    (completion : ∃ completion, NoEnd completion ∧
      Consumes (fun i => Read.peek >>= next i) completion (Leading Follow) ∧
      ∀ rest, Leading Follow rest → Leading Start (completion ++ rest))
    (known : ∀ token rest, tokens = token :: rest → NoEnd rest → token.kind ≠ .eof →
      Fate (fun i => next i token) Follow tokens) :
    Decided (fun i => Read.peek >>= next i) Start Follow tokens := by
  refine .of_next forward completion ?_
  rintro token rest rfl
  obtain ⟨noEnd, plainRest⟩ := List.forall_mem_cons.mp plain
  refine (known token rest rfl plainRest noEnd).lead
    (.stays fun i reader last first others _ isFirst isRest => ?_)
  obtain ⟨rfl, -⟩ := List.cons_eq_cons.mp isFirst
  exact Step.bind_done (Read.peek_next isRest) _

/-- Where a declaration of a function may start, the token after the next one decides; so one `fun`
alone does not decide. It is completed as a declaration. -/
theorem seesFunction {yes no : ι → Read α} (plain : NoEnd tokens) (forward : ∀ i, (yes i).Forward)
    (named : ∀ token rest, tokens = token :: rest → NoEnd rest →
      Decided yes (· = .identifier) Follow rest)
    (otherwise : Decided no Start Follow tokens)
    (starts : ∀ kind, Start kind → kind ≠ .keyword .fun)
    (alone : ∀ token, tokens = [token] → token.kind = .keyword .fun → Survives no tokens) :
    Decided (fun i => declaredOr (yes i) (no i)) Start Follow tokens := by
  have forwardAll : ∀ i, (declaredOr (yes i) (no i)).Forward :=
    fun i => .declaredOr (forward i) (otherwise.forward i)
  obtain ⟨completion, plainCompletion, consumes, isStart⟩ := otherwise.completion
  have consumesAll : Consumes (fun i => declaredOr (yes i) (no i)) completion (Leading Follow) :=
    consumes.lead (.undeclared fun rest allowed => by
      rw [opensFunction, decide_eq_false (starts _ (isStart rest allowed)), Bool.false_and])
  refine .of_next forwardAll ⟨completion, plainCompletion, consumesAll, isStart⟩ ?_
  rintro token rest rfl
  cases rest with
  | nil =>
    by_cases isFun : token.kind = .keyword .fun
    case neg =>
      refine otherwise.fate.lead (.undeclared fun rest _ => ?_)
      exact Bool.and_eq_false_imp.mpr fun isKeyword => absurd (of_decide_eq_true isKeyword) isFun
    obtain ⟨middle, plainMiddle, consumesMiddle, isName⟩ := (named token [] rfl nofun).completion
    refine .survives middle plainMiddle (consumesMiddle.lead (.declared isFun isName)) ?_
    intro i reader rest hasEnd isRest
    beta_reduce
    rw [List.singleton_append] at isRest
    rw [declaredOr_apply isRest]
    cases opensFunction (token :: rest) with
    | false => exact alone token rfl isFun i reader rest hasEnd isRest
    | true => exact (forward i).fate ((Reader.Goes.forward isRest (by simp [isFun])).hasEnd hasEnd)
  | cons second others =>
    cases opens : opensFunction (token :: second :: others) with
    | false => exact otherwise.fate.lead (.undeclared fun _ _ => opens)
    | true =>
      obtain ⟨isFun, isName⟩ := Bool.and_eq_true_iff.mp opens
      have decided := named token _ rfl (List.forall_mem_cons.mp plain).2
      exact decided.fate.lead (.declared (of_decide_eq_true isFun)
        fun _ _ => of_decide_eq_true isName)

end

/-! #### Going on -/

/-- The index of the next token makes no difference. -/
theorem here {next : ι → Nat → Read α} (forward : ∀ i, (Read.here >>= next i).Forward)
    (decided : Decided (fun i : ι × Nat => next i.1 i.2) Start Follow tokens) :
    Decided (fun i => Read.here >>= next i) Start Follow tokens :=
  same forward (fun i reader _ =>
    .inr ⟨(i, reader.position), reader, rfl, .refl reader, .refl reader, rfl⟩) decided

/-- Nor does a diagnostic that is not fatal. -/
theorem mayReport {count : ι → Nat} {defect : Defect} {read : ι → Read α}
    (light : defect.isFatal = false) (forward : ∀ i, Read.Forward (do
      if maxArity ≤ count i then
        Read.report (← Read.here) (← Read.peek) defect
      read i)) (decided : Decided read Start Follow tokens) :
    Decided (fun i => do
      if maxArity ≤ count i then
        Read.report (← Read.here) (← Read.peek) defect
      read i) Start Follow tokens := by
  refine same forward (fun i reader hasEnd => .inr ?_) decided
  beta_reduce
  split
  · obtain ⟨token, others, isRest⟩ := hasEnd.eq_cons
    have lightHere : (Diagnostic.atToken token defect).defect.isFatal = false := light
    refine ⟨i, reader.record reader.position (.atToken token defect), ?_,
      .light lightHere _, ?_, rfl⟩
    · rw [Step.bind_done (Read.here_apply reader), Step.bind_done (Read.peek_next isRest)]
      rfl
    · exact ⟨[(reader.position, _)], rfl, firstFatal_eq_none.mpr fun entry isEntry => by
        rw [List.mem_singleton.mp isEntry]
        exact light⟩
  · exact ⟨i, reader, rfl, .refl reader, .refl reader, rfl⟩

/-- Nor does it that reading goes on after a failure. -/
theorem recover {read : ι → Read α} (decided : Decided read Start Follow tokens) :
    Decided (fun i => Read.recover (read i)) Start Follow tokens := by
  obtain ⟨forward, ⟨completion, plain, consumes, starts⟩, fate⟩ := decided
  have forwardAll : ∀ i, (Read.recover (read i)).Forward := by
    intro i
    obtain ⟨parse, follows⟩ := forward i
    exact ⟨_, follows.recover⟩
  have recovers : ∀ {i reader value later}, read i reader = .done value later →
      Read.recover (read i) reader = .done (some value) later := by
    intro i reader value later ran
    unfold Read.recover
    rw [ran]
  have outOfFuel : ∀ {i reader}, read i reader = .outOfFuel →
      Read.recover (read i) reader = .outOfFuel := by
    intro i reader out
    unfold Read.recover
    rw [out]
  have consumesToo : ∀ {tokens Allowed}, Consumes read tokens Allowed →
      Consumes (fun i => Read.recover (read i)) tokens Allowed := by
    intro tokens Allowed consumes i reader rest hasEnd isRest allowed
    rcases consumes i reader rest hasEnd isRest allowed with out | ⟨value, later, ran, same⟩
    · exact .inl (outOfFuel out)
    · exact .inr ⟨some value, later, recovers ran, same⟩
  refine ⟨forwardAll, ⟨completion, plain, consumesToo consumes, starts⟩, ?_⟩
  cases fate with
  | passes taken other others split consumes =>
    exact .passes taken other others split (consumesToo consumes)
  | breaks before other others split breaks =>
    refine .breaks before other others split fun i reader rest hasEnd isRest allowed => ?_
    rcases breaks i reader rest hasEnd isRest allowed with out | broken
    · exact .inl (outOfFuel out)
    · exact .inr (broken.recover (forward i) hasEnd)
  | survives completion plain consumes survives =>
    refine .survives completion plain (consumesToo consumes) fun i reader rest hasEnd isRest => ?_
    rcases survives i reader rest hasEnd isRest
      with out | ⟨value, later, ran, same⟩ | ⟨index, further, broken⟩
    · exact .inl (outOfFuel out)
    · exact .inr (.inl ⟨some value, later, recovers ran, same⟩)
    · exact .inr (.inr ⟨index, further, broken.recover (forward i) hasEnd⟩)

end Decided

end Lox
