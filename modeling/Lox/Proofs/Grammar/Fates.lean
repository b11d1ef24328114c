/-
**What becomes of a reading at the tokens that it has come to.**

* `firstFatal` — the first diagnostic that is about a missing token, with the index of the token
  where it is missed.
* `Consumes read tokens Allowed` — with whatever fuel is enough, the reading takes exactly these
  tokens, if what comes after them is allowed, and finds nothing fatal.
* `Fate read Follow tokens` — one of three things becomes of a reading at these tokens, whatever
  comes after them. It passes over some of them, knowing the next one; or it breaks at one of them;
  or it survives them, and there are tokens that complete them.
* `Decided read Start Follow tokens` — that, with a completion of nothing at all,
  which starts as `Start` says.
* `Fate.bind`, `Fate.lead` — what becomes of a sequence, and of a reading that goes on as another
  one.

A reading here is a family of readings that differ in fuel and in the values that they
are given. What becomes of all of them is the same, because no production looks at a
value to decide what to take.
-/

import Lox.Proofs.Grammar.Bounds

namespace Lox

/-! ### Fatal diagnostics -/

/-- The first fatal one of some diagnostics that stand next to the indices of their tokens. -/
def firstFatal (entries : List (Nat × Diagnostic)) : Option (Nat × Diagnostic) :=
  entries.find? fun entry => entry.2.defect.isFatal

theorem firstFatal_append (entries others : List (Nat × Diagnostic)) :
    firstFatal (entries ++ others) = (firstFatal entries).or (firstFatal others) :=
  List.find?_append

theorem firstFatal_eq_none {entries : List (Nat × Diagnostic)} :
    firstFatal entries = none ↔ ∀ entry ∈ entries, entry.2.defect.isFatal = false := by
  simp [firstFatal]

theorem mem_of_firstFatal {entries : List (Nat × Diagnostic)} {entry : Nat × Diagnostic}
    (isFirst : firstFatal entries = some entry) :
    entry ∈ entries ∧ entry.2.defect.isFatal = true := by
  unfold firstFatal at isFirst
  exact ⟨List.mem_of_find?_eq_some isFirst, by simpa using List.find?_some isFirst⟩

/-- The diagnostics of a reading, with the one that ended it. -/
def Outcome.entries {α : Type} : Outcome Reader Halt α → List (Nat × Diagnostic)
  | .done _ later => later.diagnostics
  | .failed (.at index diagnostic) later => later.diagnostics ++ [(index, diagnostic)]
  | .failed (.outOfRange _) later => later.diagnostics
  | .outOfFuel => []

namespace Reader

/-- Nothing fatal was found on the way to a later reader. -/
def Clean (reader later : Reader) : Prop :=
  ∃ found, later.diagnostics = reader.diagnostics ++ found ∧ firstFatal found = none

/-- A reading that began with this reader came to something fatal, first at the token with this
index. -/
def Breaks {α : Type} (reader : Reader) (index : Nat) (outcome : Outcome Reader Halt α) : Prop :=
  ∃ found diagnostic, outcome.entries = reader.diagnostics ++ found ∧
    firstFatal found = some (index, diagnostic)

variable {reader between later : Reader} {α β : Type}

theorem Clean.refl (reader : Reader) : reader.Clean reader :=
  ⟨[], (List.append_nil _).symm, rfl⟩

theorem Clean.trans (first : reader.Clean between) (second : between.Clean later) :
    reader.Clean later := by
  obtain ⟨found, isFound, quiet⟩ := first
  obtain ⟨more, isMore, quietMore⟩ := second
  refine ⟨found ++ more, ?_, ?_⟩
  · rw [isMore, isFound, List.append_assoc]
  · rw [firstFatal_append, quiet, quietMore]
    rfl

theorem Breaks.of_clean {index : Nat} {outcome : Outcome Reader Halt α}
    (clean : reader.Clean between) (breaks : between.Breaks index outcome) :
    reader.Breaks index outcome := by
  obtain ⟨found, isFound, quiet⟩ := clean
  obtain ⟨more, diagnostic, isMore, fatal⟩ := breaks
  refine ⟨found ++ more, diagnostic, ?_, ?_⟩
  · rw [isMore, isFound, List.append_assoc]
  · rw [firstFatal_append, quiet, fatal]
    rfl

/-- What was found first is still what was found first when more is found. -/
theorem Breaks.mono {index : Nat} {outcome : Outcome Reader Halt α} {other : Outcome Reader Halt β}
    (breaks : reader.Breaks index outcome) (more : outcome.entries <+: other.entries) :
    reader.Breaks index other := by
  obtain ⟨found, diagnostic, isFound, fatal⟩ := breaks
  obtain ⟨others, isMore⟩ := more
  refine ⟨found ++ others, diagnostic, ?_, ?_⟩
  · rw [← isMore, isFound, List.append_assoc]
  · rw [firstFatal_append, fatal]
    rfl

theorem Breaks.unique {index other : Nat} {outcome : Outcome Reader Halt α}
    (breaks : reader.Breaks index outcome) (breaksOther : reader.Breaks other outcome) :
    index = other := by
  obtain ⟨found, diagnostic, isFound, fatal⟩ := breaks
  obtain ⟨found', diagnostic', isFound', fatal'⟩ := breaksOther
  rw [List.append_cancel_left (isFound.symm.trans isFound'), fatal'] at fatal
  cases fatal
  rfl

theorem Breaks.not_clean {index : Nat} {value : α}
    (breaks : reader.Breaks index (.done value later)) :
    ¬reader.Clean later := by
  rintro ⟨found, isFound, quiet⟩
  obtain ⟨found', diagnostic, isFound', fatal⟩ := breaks
  rw [List.append_cancel_left (isFound.symm.trans isFound'), fatal] at quiet
  cases quiet

end Reader

/-! ### Going forward -/

/-- Wherever a reading ends, it has found nothing fatal and has not gone back; or what it found
first is about a token that was still to come. -/
theorem Read.Forward.fate {α : Type} {read : Read α} {reader : Reader} (forward : read.Forward)
    (hasEnd : reader.HasEnd) :
    read reader = .outOfFuel ∨
      (∃ value later, read reader = .done value later ∧ reader.Clean later ∧
        reader.position ≤ later.position) ∨
      ∃ index, reader.position ≤ index ∧ reader.Breaks index (read reader) := by
  obtain ⟨parse, follows⟩ := forward
  have reaches := follows reader hasEnd
  generalize parse reader.cursor = parsed at reaches
  generalize read reader = outcome at reaches
  cases reaches with
  | outOfFuel => exact .inl rfl
  | done value later goes =>
    obtain ⟨found, isFound, anchored⟩ := goes.found
    refine .inr ?_
    cases isFirst : firstFatal found with
    | none => exact .inl ⟨value, later, rfl, ⟨found, isFound, isFirst⟩, goes.le⟩
    | some entry =>
      obtain ⟨isEntry, fatal⟩ := mem_of_firstFatal isFirst
      exact .inr ⟨entry.1, (anchored entry isEntry fatal).1, found, entry.2, isFound, isFirst⟩
  | failed diagnostic later goes anchored =>
    obtain ⟨found, isFound, anchoredFound⟩ := goes.found
    have isAll : (Outcome.failed (.at later.position diagnostic) later :
        Outcome Reader Halt α).entries =
        reader.diagnostics ++ (found ++ [(later.position, diagnostic)]) := by
      rw [Outcome.entries, isFound, List.append_assoc]
    refine .inr (.inr ?_)
    cases isFirst : firstFatal found with
    | none =>
      obtain ⟨token, expected, -, rfl⟩ := anchored
      refine ⟨later.position, goes.le, _, .atToken token (.missing expected), isAll, ?_⟩
      rw [firstFatal_append, isFirst]
      rfl
    | some entry =>
      obtain ⟨isEntry, fatal⟩ := mem_of_firstFatal isFirst
      refine ⟨entry.1, (anchoredFound entry isEntry fatal).1, _, entry.2, isAll, ?_⟩
      rw [firstFatal_append, isFirst]
      rfl

/-- What was found stays found. -/
theorem Read.Forward.entries {α : Type} {read : Read α} {reader : Reader} (forward : read.Forward)
    (hasEnd : reader.HasEnd) :
    read reader = .outOfFuel ∨ reader.diagnostics <+: (read reader).entries := by
  rcases forward.fate hasEnd
    with out | ⟨value, later, ran, ⟨found, isFound, -⟩, -⟩ | ⟨-, -, found, -, isFound, -⟩
  · exact .inl out
  · exact .inr (ran ▸ ⟨found, isFound.symm⟩)
  · exact .inr ⟨found, isFound.symm⟩

/-- What breaks stays broken. -/
theorem Reader.Breaks.bind {α β : Type} {first : Read β} {next : β → Read α} {reader : Reader}
    {index : Nat} (breaks : reader.Breaks index (first reader)) (forward : first.Forward)
    (forwardNext : ∀ value, (next value).Forward) (hasEnd : reader.HasEnd) :
    (first >>= next) reader = .outOfFuel ∨ reader.Breaks index ((first >>= next) reader) := by
  rw [Step.bind_apply]
  cases ran : first reader with
  | outOfFuel => exact .inl rfl
  | failed halt later =>
    rw [ran] at breaks
    refine .inr (breaks.mono ?_)
    cases halt <;> exact List.prefix_rfl
  | done value between =>
    rw [ran] at breaks
    have goes := forward.goes hasEnd ran
    exact ((forwardNext value).entries (goes.hasEnd hasEnd)).imp_right breaks.mono

/-- What breaks stays broken when reading goes on at the next statement. -/
theorem Reader.Breaks.recover {α : Type} {read : Read α} {reader : Reader} {index : Nat}
    (breaks : reader.Breaks index (read reader)) (forward : read.Forward) (hasEnd : reader.HasEnd) :
    reader.Breaks index (Read.recover read reader) := by
  obtain ⟨parse, follows⟩ := forward
  have reaches := follows reader hasEnd
  generalize parse reader.cursor = parsed at reaches
  generalize ran : read reader = outcome at reaches breaks
  cases reaches with
  | outOfFuel =>
    obtain ⟨found, diagnostic, isFound, fatal⟩ := breaks
    obtain ⟨-, rfl⟩ := List.nil_eq_append_iff.mp isFound
    cases fatal
  | done value later =>
    refine breaks.mono ?_
    unfold Read.recover
    rw [ran]
    exact List.prefix_rfl
  | failed diagnostic later goes =>
    obtain ⟨last, recovered, goesOn, -⟩ := Read.recover_failed (goes.hasEnd hasEnd) ran
    obtain ⟨found, isFound, -⟩ := goesOn.found
    rw [recovered]
    exact breaks.mono ⟨found, isFound.symm⟩

/-- Going forward up to some tokens is going over those before them. -/
theorem Reader.Goes.position_eq {reader later : Reader} {tokens : List Token}
    (goes : reader.Goes later) (isRest : reader.rest = tokens ++ later.rest) :
    later.position = reader.position + tokens.length := by
  obtain ⟨taken, split, isPosition, -⟩ := goes.taken
  have same := List.append_cancel_right (isRest.symm.trans split)
  rw [isPosition, same]

/-! ### Families of readings -/

/-- There is no end token among these. -/
def NoEnd (tokens : List Token) : Prop :=
  ∀ token ∈ tokens, token.kind ≠ .eof

section

variable {ι α β : Type}

/-- With whatever fuel is enough, the reading takes exactly these tokens before others that are
allowed, and finds nothing fatal. -/
def Consumes (read : ι → Read α) (tokens : List Token) (Allowed : List Token → Prop) : Prop :=
  ∀ (i : ι) (reader : Reader) (rest : List Token), reader.HasEnd → reader.rest = tokens ++ rest →
    Allowed rest →
    read i reader = .outOfFuel ∨
      ∃ value later, read i reader = .done value later ∧ later.rest = rest ∧ reader.Clean later

/-- With whatever fuel is enough, the reading comes to something fatal first at the token after
these. -/
def BreaksAfter (read : ι → Read α) (before : List Token) (Allowed : List Token → Prop) : Prop :=
  ∀ (i : ι) (reader : Reader) (rest : List Token), reader.HasEnd → reader.rest = before ++ rest →
    Allowed rest →
    read i reader = .outOfFuel ∨ reader.Breaks (reader.position + before.length) (read i reader)

/-- Whatever comes after these tokens, the reading does not end among them, and finds
nothing fatal among them. -/
def Survives (read : ι → Read α) (tokens : List Token) : Prop :=
  ∀ (i : ι) (reader : Reader) (rest : List Token), reader.HasEnd → reader.rest = tokens ++ rest →
    read i reader = .outOfFuel ∨
      (∃ value later, read i reader = .done value later ∧ reader.Clean later ∧
        reader.position + tokens.length ≤ later.position) ∨
      ∃ index, reader.position + tokens.length ≤ index ∧ reader.Breaks index (read i reader)

/-- The kind of the first of some tokens is one of these. -/
def Leading (Follow : Kind → Prop) (tokens : List Token) : Prop :=
  Follow (firstToken tokens).kind

/-- What becomes of a reading at some tokens, whatever comes after them. -/
inductive Fate (read : ι → Read α) (Follow : Kind → Prop) (tokens : List Token) : Prop
  /-- It takes some of them, and knows so from those after them. -/
  | passes (taken : List Token) (next : Token) (others : List Token)
      (split : tokens = taken ++ next :: others)
    (consumes : Consumes read taken (next :: others <+: ·))
  /-- It finds something fatal, first at one of them. -/
  | breaks (before : List Token) (next : Token) (others : List Token)
      (split : tokens = before ++ next :: others)
    (breaks : BreaksAfter read before (next :: others <+: ·))
  /-- It gets over all of them, and there are tokens with which it ends well,
  before one that may follow. -/
  | survives (completion : List Token) (plain : NoEnd completion)
    (consumes : Consumes read (tokens ++ completion) (Leading Follow))
      (survives : Survives read tokens)

/-- What becomes of a reading is decided by these tokens alone. Nothing at all can be completed,
too, such that the first token is one of `Start`. -/
structure Decided (read : ι → Read α) (Start Follow : Kind → Prop) (tokens : List Token) :
    Prop where
  forward : ∀ i, (read i).Forward
  completion : ∃ completion, NoEnd completion ∧ Consumes read completion (Leading Follow) ∧
    ∀ rest, Leading Follow rest → Leading Start (completion ++ rest)
  fate : Fate read Follow tokens

end

/-! ### One step -/

section

variable {ι κ α : Type} {read : ι → Read α} {next : κ → Read α}
  {eaten tokens taken others : List Token} {other : Token}
  {Allowed : List Token → Prop} {Follow : Kind → Prop}

/-- The reading takes some tokens, without finding anything fatal, and is then another
reading at these tokens. -/
def Leads (read : ι → Read α) (next : κ → Read α) (eaten tokens : List Token)
    (Allowed : List Token → Prop) : Prop :=
  ∀ (i : ι) (reader : Reader) (rest : List Token), reader.HasEnd →
    reader.rest = eaten ++ (tokens ++ rest) →
    Allowed rest → read i reader = .outOfFuel ∨
      ∃ j between, read i reader = next j between ∧ reader.Goes between ∧ reader.Clean between ∧
        between.rest = tokens ++ rest

/-- Going on at the same tokens, as the first of them says. -/
theorem Leads.stays {ι : Type} {read next : ι → Read α}
    (same : ∀ (i : ι) (reader : Reader) (rest : List Token) (token : Token) (others : List Token),
      Allowed rest →
      tokens ++ rest = token :: others → reader.rest = token :: others →
        read i reader = next i reader) :
    Leads read next [] tokens Allowed := by
  intro i reader rest hasEnd isRest allowed
  obtain ⟨token, others, isNext⟩ := hasEnd.eq_cons
  exact .inr ⟨i, reader, same i reader rest token others allowed (isRest.symm.trans isNext) isNext,
    .refl reader, .refl reader, isRest⟩

/-- Going on after one token. -/
theorem Leads.takes {ι : Type} {read next : ι → Read α} (noEnd : other.kind ≠ .eof)
    (same : ∀ (i : ι) (reader : Reader) (rest : List Token), Allowed rest →
    reader.rest = other :: (tokens ++ rest) →
      read i reader = next i reader.forward) : Leads read next [other] tokens Allowed := by
  intro i reader rest hasEnd isRest allowed
  exact .inr ⟨i, reader.forward, same i reader rest allowed isRest,
    .forward isRest noEnd, .refl reader, Reader.forward_rest isRest⟩

theorem Leads.before (leads : Leads read next eaten (taken ++ others) fun _ => True) :
    Leads read next eaten taken (others <+: ·) := by
  rintro i reader rest hasEnd isRest ⟨last, rfl⟩
  rw [← List.append_assoc taken] at isRest ⊢
  exact leads i reader last hasEnd isRest trivial

theorem Leads.append (leads : Leads read next eaten tokens fun _ => True) (others : List Token) :
    Leads read next eaten (tokens ++ others) Allowed := by
  intro i reader rest hasEnd isRest _
  rw [List.append_assoc] at isRest ⊢
  exact leads i reader _ hasEnd isRest trivial

theorem Consumes.lead (consumes : Consumes next tokens Allowed)
    (leads : Leads read next eaten tokens Allowed) :
    Consumes read (eaten ++ tokens) Allowed := by
  intro i reader rest hasEnd isRest allowed
  rw [List.append_assoc] at isRest
  rcases leads i reader rest hasEnd isRest allowed
    with out | ⟨j, between, same, goes, clean, isBetween⟩
  · exact .inl out
  · rw [same]
    refine (consumes j between rest (goes.hasEnd hasEnd) isBetween allowed).imp_right ?_
    rintro ⟨value, later, ran, isLater, cleanNext⟩
    exact ⟨value, later, ran, isLater, clean.trans cleanNext⟩

theorem BreaksAfter.lead (breaks : BreaksAfter next tokens Allowed)
    (leads : Leads read next eaten tokens Allowed) :
    BreaksAfter read (eaten ++ tokens) Allowed := by
  intro i reader rest hasEnd isRest allowed
  rw [List.append_assoc] at isRest
  rcases leads i reader rest hasEnd isRest allowed
    with out | ⟨j, between, same, goes, clean, isBetween⟩
  · exact .inl out
  · have isPosition := goes.position_eq (by rw [isRest, isBetween])
    rw [same, List.length_append, ← Nat.add_assoc, ← isPosition]
    exact (breaks j between rest (goes.hasEnd hasEnd) isBetween allowed).imp_right (.of_clean clean)

theorem Survives.lead (survives : Survives next tokens)
    (leads : Leads read next eaten tokens fun _ => True) :
    Survives read (eaten ++ tokens) := by
  intro i reader rest hasEnd isRest
  rw [List.append_assoc] at isRest
  rcases leads i reader rest hasEnd isRest trivial
    with out | ⟨j, between, same, goes, clean, isBetween⟩
  · exact .inl out
  · have isPosition := goes.position_eq (by rw [isRest, isBetween])
    rw [same, List.length_append, ← Nat.add_assoc, ← isPosition]
    rcases survives j between rest (goes.hasEnd hasEnd) isBetween with
      out | ⟨value, later, ran, cleanNext, onward⟩ | ⟨index, onward, broken⟩
    · exact .inl out
    · exact .inr (.inl ⟨value, later, ran, clean.trans cleanNext, onward⟩)
    · exact .inr (.inr ⟨index, onward, broken.of_clean clean⟩)

theorem Fate.lead (fate : Fate next Follow tokens)
    (leads : Leads read next eaten tokens fun _ => True) :
    Fate read Follow (eaten ++ tokens) := by
  cases fate with
  | passes taken other others split consumes =>
    rw [split] at leads ⊢
    exact .passes (eaten ++ taken) other others (List.append_assoc _ _ _).symm
      (consumes.lead leads.before)
  | breaks before other others split breaks =>
    rw [split] at leads ⊢
    exact .breaks (eaten ++ before) other others (List.append_assoc _ _ _).symm
      (breaks.lead leads.before)
  | survives completion plain consumes survives =>
    refine .survives completion plain ?_ (survives.lead leads)
    rw [List.append_assoc]
    exact consumes.lead (leads.append completion)

/-- Before anything, a reading survives, because it only goes forward. -/
theorem Fate.nil (forward : ∀ i, (read i).Forward)
    (completion : ∃ completion, NoEnd completion ∧ Consumes read completion (Leading Follow)) :
    Fate read Follow [] := by
  obtain ⟨completion, plain, consumes⟩ := completion
  exact .survives completion plain consumes fun i reader rest hasEnd _ => (forward i).fate hasEnd

/-- Taking a token that was looked at. -/
theorem Fate.advance {ι : Type} {next : ι → Token → Read α} {Start : Kind → Prop}
    (noEnd : other.kind ≠ .eof) (decided : Decided (fun i => next i other) Start Follow others) :
    Fate (fun i => Read.advance >>= next i) Follow (other :: others) := by
  show Fate _ _ ([other] ++ others)
  exact decided.fate.lead (.takes noEnd fun i reader rest _ isRest =>
    Step.bind_done (Read.advance_next isRest noEnd) _)

theorem Fate.missing {ι : Type} {expected : Expected} :
    Fate (fun _ : ι => (Read.missing expected : Read α)) Follow (other :: others) := by
  refine .breaks [] other others rfl fun i reader rest hasEnd isRest ⟨last, isLast⟩ => .inr ?_
  rw [List.nil_append, ← isLast] at isRest
  rw [Read.missing_next isRest]
  exact ⟨[(reader.position, _)], _, rfl, rfl⟩

/-- Tokens that a reading has got over once, without finding anything fatal, it always gets over. -/
theorem Fate.survives_of_run {i : ι} {reader later : Reader} {value : α} {rest : List Token}
    (fate : Fate read Follow tokens) (forward : (read i).Forward) (hasEnd : reader.HasEnd)
    (isRest : reader.rest = tokens ++ rest) (ran : read i reader = .done value later)
    (clean : reader.Clean later) (further : reader.position + tokens.length ≤ later.position) :
    Survives read tokens := by
  cases fate with
  | survives _ _ _ survives => exact survives
  | breaks before other others split breaks =>
    rw [split, List.append_assoc] at isRest
    rcases breaks i reader _ hasEnd isRest (List.prefix_append _ _) with out | broken
    · rw [ran] at out
      cases out
    · rw [ran] at broken
      exact absurd clean broken.not_clean
  | passes taken other others split consumes =>
    rw [split, List.append_assoc] at isRest
    rcases consumes i reader _ hasEnd isRest (List.prefix_append _ _)
      with out | ⟨value, last, ranHere, isLast, -⟩
    · rw [ran] at out
      cases out
    · rw [ran] at ranHere
      cases ranHere
      have isPosition := (forward.goes hasEnd ran).position_eq (by rw [isRest, isLast])
      rw [split, List.length_append, List.length_cons] at further
      omega

end

/-! ### Sequences -/

section

variable {ι α β : Type} {first : ι → Read β} {next : ι → β → Read α} {taken others : List Token}
  {Allowed AllowedNext : List Token → Prop}

/-- A part of a sequence that takes its tokens leads to the part after it. -/
theorem Consumes.leads (consumes : Consumes first taken Allowed) (forward : ∀ i, (first i).Forward)
    (compatible : ∀ rest, AllowedNext rest → Allowed (others ++ rest)) :
    Leads (fun i => first i >>= next i) (fun i : ι × β => next i.1 i.2)
      taken others AllowedNext := by
  intro i reader rest hasEnd isRest allowed
  beta_reduce
  rcases consumes i reader _ hasEnd isRest (compatible rest allowed)
    with out | ⟨value, between, ran, isBetween, clean⟩
  · exact .inl (by rw [Step.bind_apply, out])
  · exact .inr ⟨(i, value), between, Step.bind_done ran _, (forward i).goes hasEnd ran,
      clean, isBetween⟩

theorem BreaksAfter.bind (breaks : BreaksAfter first taken Allowed)
    (forward : ∀ i, (first i).Forward) (forwardNext : ∀ i value, (next i value).Forward) :
    BreaksAfter (fun i => first i >>= next i) taken Allowed := by
  intro i reader rest hasEnd isRest allowed
  beta_reduce
  rcases breaks i reader rest hasEnd isRest allowed with out | broken
  · exact .inl (by rw [Step.bind_apply, out])
  · exact broken.bind (forward i) (forwardNext i) hasEnd

theorem Survives.bind (survives : Survives first taken) (forward : ∀ i, (first i).Forward)
    (forwardNext : ∀ i value, (next i value).Forward) :
    Survives (fun i => first i >>= next i) taken := by
  intro i reader rest hasEnd isRest
  beta_reduce
  rcases survives i reader rest hasEnd isRest with
    out | ⟨value, between, ran, clean, further⟩ | ⟨index, further, broken⟩
  · exact .inl (by rw [Step.bind_apply, out])
  · have goes := (forward i).goes hasEnd ran
    rw [Step.bind_done ran]
    rcases (forwardNext i value).fate (goes.hasEnd hasEnd) with
      out | ⟨result, later, ranNext, cleanNext, onward⟩ | ⟨index, onward, broken⟩
    · exact .inl out
    · exact .inr (.inl ⟨result, later, ranNext, clean.trans cleanNext, Nat.le_trans further onward⟩)
    · exact .inr (.inr ⟨index, Nat.le_trans further onward, broken.of_clean clean⟩)
  · exact (broken.bind (forward i) (forwardNext i) hasEnd).imp_right
      fun broken => .inr ⟨index, further, broken⟩

/-- What becomes of a sequence is what becomes of its first part; or, where that passes
or survives, of the next. -/
theorem Fate.bind {Follow FollowNext : Kind → Prop} {tokens : List Token}
    (fate : Fate first Follow tokens) (forward : ∀ i, (first i).Forward)
    (forwardNext : ∀ i value, (next i value).Forward) (completion : ∃ completion, NoEnd completion ∧
      Consumes (fun i : ι × β => next i.1 i.2) completion (Leading FollowNext) ∧
      ∀ rest, Leading FollowNext rest → Leading Follow (completion ++ rest))
    (rest : ∀ taken other others, tokens = taken ++ other :: others →
    Consumes first taken (other :: others <+: ·) →
      Fate (fun i : ι × β => next i.1 i.2) FollowNext (other :: others)) :
    Fate (fun i => first i >>= next i) FollowNext tokens := by
  cases fate with
  | breaks before other others split breaks =>
    exact .breaks before other others split (breaks.bind forward forwardNext)
  | survives middle plain consumes survives =>
    obtain ⟨completion, plainNext, consumesNext, compatible⟩ := completion
    have plainAll : NoEnd (middle ++ completion) := List.forall_mem_append.mpr ⟨plain, plainNext⟩
    refine .survives (middle ++ completion) plainAll ?_ (survives.bind forward forwardNext)
    rw [← List.append_assoc]
    exact consumesNext.lead (consumes.leads forward compatible)
  | passes taken other others split consumes =>
    rw [split]
    exact (rest taken other others split consumes).lead
      (consumes.leads forward fun rest _ => List.prefix_append _ _)

end

/-! ### Where functions are declared -/

/-- Whether a declaration of a named function starts with these tokens. -/
def opensFunction (tokens : List Token) : Bool :=
  decide ((firstToken tokens).kind = .keyword .fun) &&
    decide ((firstToken tokens.tail).kind = .identifier)

/-- The rest of the declaration of a function, if one starts here; or another reading. -/
def declaredOr {α : Type} (yes no : Read α) : Read α := do
  if ← Read.seesFunction then
    let _ ← Read.advance
    yes
  else
    no

section

variable {ι α : Type} {yes no : Read α} {first second : ι → Read α} {reader : Reader}
  {token : Token} {tokens others : List Token} {Allowed : List Token → Prop}

theorem declaredOr_apply (isRest : reader.rest = token :: others) :
    declaredOr yes no reader = if opensFunction (token :: others) then yes reader.forward
      else no reader := by
  have seen : reader.cursor.seesFunction = opensFunction (token :: others) :=
    Reader.cursor_seesFunction isRest
  rw [declaredOr, Step.bind_done (Read.seesFunction_next isRest), seen]
  cases opens : opensFunction (token :: others) with
  | false => rfl
  | true =>
    have isFun : token.kind = .keyword .fun := of_decide_eq_true (Bool.and_eq_true_iff.mp opens).1
    exact Step.bind_done (Read.advance_next isRest (by simp [isFun])) _

theorem Read.Forward.declaredOr (forward : yes.Forward) (forwardOther : no.Forward) :
    (declaredOr yes no).Forward := by
  obtain ⟨_, follows⟩ := forward
  obtain ⟨_, followsOther⟩ := forwardOther
  exact ⟨_, .seesFunction (fun token isFun => .advance (by simp [isFun]) follows) followsOther⟩

theorem Leads.undeclared (opens : ∀ rest, Allowed rest → opensFunction (tokens ++ rest) = false) :
    Leads (fun i => declaredOr (first i) (second i)) second [] tokens Allowed := by
  refine .stays fun i reader rest token others allowed isFirst isRest => ?_
  have same := opens rest allowed
  rw [isFirst] at same
  rw [declaredOr_apply isRest, same]
  rfl

theorem Leads.declared (isFun : token.kind = .keyword .fun)
    (isName : ∀ rest, Allowed rest → (firstToken (tokens ++ rest)).kind = .identifier) :
    Leads (fun i => declaredOr (first i) (second i)) first [token] tokens Allowed := by
  refine .takes (by simp [isFun]) fun i reader rest allowed isRest => ?_
  have opens : opensFunction (token :: (tokens ++ rest)) = true :=
    Bool.and_eq_true_iff.mpr ⟨decide_eq_true isFun, decide_eq_true (isName rest allowed)⟩
  rw [declaredOr_apply isRest, opens, if_pos rfl]

end

end Lox
