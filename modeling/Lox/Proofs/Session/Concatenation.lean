/-
**Two texts one after the other, and as one text.**

* `Accepted` — a text is a program without static errors.
* `ReadsAs` — what that means for its tokens and for the trees numbered from any node on. Where two
  texts read as trees, so does the text of both with a line end between them (`ReadsAs.append`).
* `Session.Moves` — which token of the two texts is which in the one text.
* `Failure.Alike`, `Session.Alike` — what running them one after the other has in common with
  running them as one.
* `runs_as_one` — the two ways of running them end alike.
-/

import Lox.Proofs.Evaluation.Alike
import Lox.Proofs.Evaluation.Returning
import Lox.Proofs.Grammar.Roles
import Lox.Proofs.Scanning
import Lox.Proofs.Session.History

namespace Lox

/-! ### Texts that are accepted -/

/-- The text is a program without static errors. -/
def Accepted (source : String) : Prop :=
  ∃ program next references, readProgram source 0 = (.ok program, next) ∧
    resolve program = .ok references

/-- No character of the text is wrong, its tokens derive, and its tree is resolved from whatever
node on it is numbered. -/
structure ReadsAs (source : String) (tree : Numbered (List Stmt)) : Prop where
  clean : diagnosticsOf (Utf8.encode source) = []
  derives : Derives true .declarations (innerTokens (Utf8.encode source)) tree
  resolved : ∀ index, ∃ references, resolve (tree index).1 = .ok references

namespace ReadsAs

variable {source : String} {tree : Numbered (List Stmt)}

theorem read (reads : ReadsAs source tree) (index : Nat) :
    readProgram source index = (.ok (tree index).1, (tree index).2) := by
  refine readWith_eq_ok.mpr ⟨reads.clean, ?_⟩
  rw [tokensOf_eq]
  exact parseProgram_of_derives reads.derives (endToken _) index

theorem accepted (reads : ReadsAs source tree) : Accepted source := by
  obtain ⟨references, resolved⟩ := reads.resolved 0
  exact ⟨(tree 0).1, (tree 0).2, references, reads.read 0, resolved⟩

end ReadsAs

theorem Accepted.reads {source : String} (accepted : Accepted source) :
    ∃ tree, ReadsAs source tree := by
  obtain ⟨program, next, references, read, resolved⟩ := accepted
  obtain ⟨tree, derives, numbered⟩ := derives_of_readProgram read
  refine ⟨tree, (readWith_eq_ok.mp read).1, derives, fun index => ?_⟩
  have further := derives.renumber 0 index
  have keeps : Relabelling.KeepsLexemes ⟨fun node => ⟨node.index + index⟩, id⟩ := fun _ => rfl
  rw [Nat.zero_add, numbered] at further
  rw [further]
  exact ⟨_, resolve_relabel keeps resolved⟩

/-! ### One text of two -/

/-- The line ends of a text with one more after it. -/
theorem lineEndsIn_newline (source : String) :
    lineEndsIn (source ++ "\n") = lineEndsIn source + 1 := by
  unfold lineEndsIn
  rw [String.toList_append, List.count_append]
  rfl

theorem encode_newline_append (first second : String) :
    Utf8.encode (first ++ "\n" ++ second) =
      Utf8.encode first ++ Byte.newline :: Utf8.encode second := by
  have newline : Utf8.encode "\n" = [Byte.newline] := by decide
  rw [encode_append, encode_append, newline, List.append_assoc]
  rfl

/-- The tokens of the second text stand below those of the first. -/
theorem innerTokens_newline_append {first : String} (clean : diagnosticsOf (Utf8.encode first) = [])
    (second : String) :
    innerTokens (Utf8.encode (first ++ "\n" ++ second)) =
      innerTokens (Utf8.encode first) ++
        (innerTokens (Utf8.encode second)).map (Token.below (lineEndsIn (first ++ "\n"))) := by
  rw [encode_newline_append, innerTokens_append clean, count_newline_encode, lineEndsIn_newline]

/-- The program of the second text, where its tokens stand below those of the first. -/
def belowText (first : String) (program : List Stmt) : List Stmt :=
  relabelStatements ⟨id, Token.below (lineEndsIn (first ++ "\n"))⟩ program

/-- **Two texts with a line end between them read as both of their programs.** -/
theorem ReadsAs.append {first second : String} {tree others : Numbered (List Stmt)}
    (reads : ReadsAs first tree) (readsSecond : ReadsAs second others) :
    ReadsAs (first ++ "\n" ++ second) (do return (← tree) ++ belowText first (← others)) := by
  refine ⟨?_, ?_, fun index => ?_⟩
  · rw [encode_newline_append]
    exact diagnosticsOf_append reads.clean readsSecond.clean
  · have kinds : ∀ token, (Token.below (lineEndsIn (first ++ "\n")) token).kind =
      token.kind := fun _ => rfl
    rw [innerTokens_newline_append reads.clean]
    exact reads.derives.append _ _ (readsSecond.derives.relabel kinds)
  · have keeps : Relabelling.KeepsLexemes ⟨id, Token.below (lineEndsIn (first ++ "\n"))⟩ :=
      fun _ => rfl
    obtain ⟨references, resolved⟩ := reads.resolved index
    obtain ⟨others, resolvedOthers⟩ := readsSecond.resolved (tree index).2
    exact ⟨_, resolve_append resolved (resolve_relabel keeps resolvedOthers)⟩

/-! ### References of both texts -/

/-- The references of a program that is resolved are those of its nodes. -/
theorem nodes_of_resolved {program : List Stmt} {references : List Reference}
    (resolved : resolve program = .ok references) :
    references.map Reference.node = nodesOfStatements program := by
  obtain ⟨-, rfl⟩ := Walk.result_eq_ok.mp resolved
  exact Site.nodes_after ⟨.statements program, [], .start⟩

namespace Distances

variable {middle : Nat} {references others : List Reference}

theorem ofReferences_append (references others : List Reference) :
    ofReferences (references ++ others) = ofReferences references ++ ofReferences others :=
  List.filterMap_append

/-- Distances do not depend on the tokens of names. -/
theorem ofReferences_relabel (change : Token → Token) (references : List Reference) :
    ofReferences (references.map (Reference.relabel ⟨id, change⟩)) = ofReferences references := by
  unfold ofReferences
  rw [List.filterMap_map]
  rfl

/-- It does not matter whether references are learnt at once or one text after the other. -/
theorem get?_learnBoth (before : ∀ node ∈ references.map Reference.node, node.index < middle)
    (later : ∀ node ∈ others.map Reference.node, middle ≤ node.index) (known : Distances)
    (node : NodeId) :
    get? (known ++ ofReferences (references ++ others)) node =
      get? (known ++ ofReferences references ++ ofReferences others) node := by
  rw [ofReferences_append, get?_append, get?_append, get?_append, get?_append]
  by_cases isBefore : node.index < middle
  · have unknown : node ∉ others.map Reference.node := fun isOther =>
      Nat.not_le_of_lt isBefore (later node isOther)
    rw [get?_ofReferences_none unknown, Option.none_or, Option.none_or]
  · have unknown : node ∉ references.map Reference.node :=
      fun isFirst => isBefore (before node isFirst)
    rw [get?_ofReferences_none unknown, Option.none_or, Option.or_none]

/-- For the nodes of the first text, the references of the second do not matter. -/
theorem get?_learnFirst (before : ∀ node ∈ references.map Reference.node, node.index < middle)
    (later : ∀ node ∈ others.map Reference.node, middle ≤ node.index) (known : Distances)
    {node : NodeId} (isBefore : node.index < middle) :
    get? (known ++ ofReferences (references ++ others)) node =
      get? (known ++ ofReferences references) node := by
  have unknown : node ∉ others.map Reference.node := fun isOther =>
    Nat.not_le_of_lt isBefore (later node isOther)
  rw [get?_learnBoth before later, get?_append, get?_ofReferences_none unknown, Option.none_or]

end Distances

/-! ### What two ways of running have in common -/

/-- The token stands in the text, or in a function that the session knows. -/
def Session.HasToken (session : Session) (source : String) (token : Token) : Prop :=
  token ∈ innerTokens (Utf8.encode source) ∨
    ∃ scope name closure, session.machine.store.local? scope name = some (.function closure) ∧
      token ∈ closure.body.tokens

/-- A token where two texts are run one after the other, and the same token where they
are run as one: what stands in the second text stands below the first then, and all
else stands where it stood. -/
inductive Session.Moves (session : Session) (first second : String) : Token → Token → Prop
  | stays {token : Token} : session.HasToken first token → Moves session first second token token
  | below {token : Token} :
      token ∈ innerTokens (Utf8.encode second) →
      Moves session first second token (token.below (lineEndsIn (first ++ "\n")))

/-- The tokens that correspond where two texts are run one after the other and as one. -/
def Session.moved (session : Session) (first second : String) : Counterparts where
  token := session.Moves first second
  kind moves := by cases moves <;> rfl
  lexeme moves := by cases moves <;> rfl

/-- The likeness of runs that know the same distances for the nodes numbered below `index`. -/
def Counterparts.upTo (counterparts : Counterparts) (index : Nat) : Likeness where
  toCounterparts := counterparts
  node place := place.index < index
  distances known other := ∀ place : NodeId, place.index < index →
    other.get? place = known.get? place
  known agree _ isBelow := agree _ isBelow

/-- The same sessions, but for tokens that correspond, and for nodes that the
first has not given out. -/
def Session.Alike (counterparts : Counterparts) (session other : Session) : Prop :=
  session.machine.Alike (counterparts.upTo session.nextNode) other.machine

/-- The same runtime error, at tokens that correspond. -/
inductive Failure.Alike (counterparts : Counterparts) : Failure → Failure → Prop
  | runtime {error other : RuntimeError} :
      counterparts.token error.token other.token → other.fault = error.fault →
      Alike counterparts (.runtime error) (.runtime other)

namespace Session

theorem onMachine_bind {α β : Type} (first : Run α) (next : α → Run β) :
    onMachine (first >>= next) = (do let value ← onMachine first; onMachine (next value)) := by
  funext session
  rw [Step.bind_apply]
  unfold onMachine
  dsimp only
  rw [Step.bind_apply]
  cases first session.machine <;> rfl

/-- What is alike on machines is alike in sessions. -/
theorem onMachine_alike {α : Type} {like : Likeness} {values : α → α → Prop} {first second : Run α}
    {machine other : Machine} (alike : Run.Alike like values first second)
    (alikeMachine : machine.Alike like other) (next next' : Nat) :
    Outcome.Alike values (Failure.Alike like.toCounterparts)
      (fun later another => later.machine.Alike like another.machine ∧ later.nextNode = next ∧
        another.nextNode = next')
      (onMachine first ⟨machine, next⟩) (onMachine second ⟨other, next'⟩) := by
  have ran := alike machine other alikeMachine
  unfold onMachine
  dsimp only
  generalize first machine = outcome at ran
  generalize second other = outcome' at ran
  cases ran with
  | done correspond alikeLater => exact .done correspond ⟨alikeLater, rfl, rfl⟩
  | failed alikeError alikeLater =>
    exact .failed (.runtime alikeError.token alikeError.fault) ⟨alikeLater, rfl, rfl⟩
  | outOfFuel => exact .outOfFuel

end Session

/-- All functions of a session are made of nodes that it has given out. -/
theorem Upheld.given {past : Past} {session : Session} (upheld : Upheld past session)
    {scope : ScopeId} {name : String} {closure : Closure}
    (bound : session.machine.store.local? scope name = some (.function closure)) :
    ∀ node ∈ closure.body.nodes, node.index < session.nextNode := by
  obtain ⟨-, frames, walk, ⟨root, isRoot, within⟩, -⟩ := upheld.fits.values scope name _ bound
  exact fun node isNode => upheld.used root isRoot node (within.nodes_subset isNode)

/-! ### Running the first text -/

/-- The likeness of two runs of one text, which know these distances. -/
def Session.oneText (session : Session) (source : String) (next : Nat) (known other : Distances)
    (agree : ∀ place : NodeId, place.index < next → other.get? place = known.get? place) :
    Likeness where
  token before after := session.HasToken source before ∧ after = before
  kind same := congrArg Token.kind same.2
  lexeme same := congrArg Token.lexeme same.2
  node place := place.index < next
  distances learnt learnt' := learnt = known ∧ learnt' = other
  known same _ isBelow := by
    rw [same.1, same.2]
    exact agree _ isBelow

section

variable {past : Past} {session : Session} {first second whole : String}
  {tree others : Numbered (List Stmt)}
  {change : Token → Token} {references later learnt : List Reference} {middle : Nat}

theorem Session.oneText_within {counterparts : Counterparts} {index : Nat} {known other : Distances}
    {agree : ∀ place : NodeId, place.index < middle → other.get? place = known.get? place}
    (stays : ∀ token, session.HasToken first token → counterparts.token token token)
    (le : middle ≤ index) :
    (session.oneText first middle known other agree).Within (counterparts.upTo index) := by
  constructor
  · rintro _ _ ⟨has, rfl⟩
    exact stays _ has
  · exact fun {_} isBelow => Nat.lt_of_lt_of_le isBelow le

/-- As long as they are in the first text, two runs do the same, whatever else they have learnt. -/
theorem firstText_alike (upheld : Upheld past session) (reads : ReadsAs first tree)
    (fuel next : Nat) (agree : ∀ place : NodeId, place.index < (tree session.nextNode).2 →
      (session.machine.learn learnt).distances.get? place =
        (session.machine.learn references).distances.get? place) :
    Outcome.Alike Eq (Failure.Alike (session.oneText first _ _ _ agree).toCounterparts)
      (fun now another => now.machine.Alike (session.oneText first _ _ _ agree) another.machine ∧
        now.nextNode = (tree session.nextNode).2 ∧ another.nextNode = next)
      (Session.onMachine (interpret fuel (tree session.nextNode).1)
        ⟨session.machine.learn references, (tree session.nextNode).2⟩)
      (Session.onMachine (interpret fuel (tree session.nextNode).1)
        ⟨session.machine.learn learnt, next⟩) := by
  have fresh := reads.derives.fresh session.nextNode
  have covers : Likeness.Covers (session.oneText first _ _ _ agree) id
      (.statements (tree session.nextNode).1) :=
    ⟨fun token isToken => ⟨.inl (reads.derives.tokens_subset session.nextNode isToken), rfl⟩,
      fun node isNode => (fresh.bounds node isNode).2⟩
  have alike := interpretsAlike _ fuel covers
  rw [relabelStatements_id] at alike
  refine Session.onMachine_alike alike ?_ _ next
  refine ⟨.self fun scope name closure bound => ?_, rfl, rfl, ⟨rfl, rfl⟩,
    rfl, rfl, rfl, rfl, rfl, rfl⟩
  refine ⟨fun token isToken => ⟨.inr ⟨scope, name, closure, bound, isToken⟩, rfl⟩,
    fun node isNode => ?_⟩
  exact Nat.lt_of_lt_of_le (upheld.given bound node isNode) fresh.le

/-! ### Running both texts -/

/-- In the second text, the two runs do the same, with tokens that correspond. -/
theorem secondText_alike {counterparts : Counterparts} (reads : ReadsAs second others)
    (covers : ∀ token ∈ innerTokens (Utf8.encode second), counterparts.token token (change token))
    (fuel index : Nat) :
    Run.Alike (counterparts.upTo (others index).2) Eq (interpret fuel (others index).1)
      (interpret fuel (relabelStatements ⟨id, change⟩ (others index).1)) := by
  have fresh := reads.derives.fresh index
  refine interpretsAlike _ fuel ⟨fun token isToken => ?_, fun node isNode => ?_⟩
  · exact covers token (reads.derives.tokens_subset index isToken)
  · exact (fresh.bounds node isNode).2

/-- One text that reads as two is resolved with the references of both. Learning those makes no
difference to learning one text after the other, and for the nodes of the first text none to
learning that alone. -/
theorem resolve_both (keeps : Relabelling.KeepsLexemes ⟨id, change⟩) (reads : ReadsAs first tree)
    (readsSecond : ReadsAs second others) (index : Nat) :
    ∃ references later all, resolve (tree index).1 = .ok references ∧
      resolve (others (tree index).2).1 = .ok later ∧
      resolve ((tree index).1 ++ relabelStatements ⟨id, change⟩ (others (tree index).2).1) =
        .ok all ∧
      (∀ (machine : Machine) (node : NodeId),
        (machine.learn all).distances.get? node =
          ((machine.learn references).learn later).distances.get? node) ∧
      ∀ (machine : Machine) (node : NodeId), node.index < (tree index).2 →
        (machine.learn all).distances.get? node =
          (machine.learn references).distances.get? node := by
  obtain ⟨references, resolved⟩ := reads.resolved index
  obtain ⟨later, resolvedLater⟩ := readsSecond.resolved (tree index).2
  have before : ∀ node ∈ references.map Reference.node, node.index < (tree index).2 := by
    rw [nodes_of_resolved resolved]
    exact fun node isNode => ((reads.derives.fresh index).bounds node isNode).2
  have after : ∀ node ∈ later.map Reference.node, (tree index).2 ≤ node.index := by
    rw [nodes_of_resolved resolvedLater]
    exact fun node isNode => ((readsSecond.derives.fresh _).bounds node isNode).1
  refine ⟨references, later, _, resolved, resolvedLater,
    resolve_append resolved (resolve_relabel keeps resolvedLater), ?_, ?_⟩
  all_goals
    unfold Machine.learn
    rw [Distances.ofReferences_append, Distances.ofReferences_relabel,
      ← Distances.ofReferences_append]
  · exact fun machine => Distances.get?_learnBoth before after machine.distances
  · exact fun machine _ => Distances.get?_learnFirst before after machine.distances

/-- **Two texts, and one that reads as both, end alike.** -/
theorem bothTexts_alike {counterparts : Counterparts} (upheld : Upheld past session)
    (reads : ReadsAs first tree) (readsSecond : ReadsAs second others)
    (readsWhole : ReadsAs whole (do return (← tree) ++ relabelStatements ⟨id, change⟩ (← others)))
    (keeps : Relabelling.KeepsLexemes ⟨id, change⟩)
    (stays : ∀ token, session.HasToken first token → counterparts.token token token)
    (covers : ∀ token ∈ innerTokens (Utf8.encode second), counterparts.token token (change token))
    (fuel : Nat) :
    Outcome.Alike Eq (Failure.Alike counterparts) (Session.Alike counterparts)
      ((do Session.run fuel first; Session.run fuel second) session)
        (Session.run fuel whole session) := by
  obtain ⟨references, later, all, resolved, resolvedLater, resolvedWhole,
      learnsBoth, learnsFirst⟩ :=
    resolve_both keeps reads readsSecond session.nextNode
  have ranWhole : Session.run fuel whole session =
      (do
        Session.onMachine (interpret fuel (tree session.nextNode).1)
        Session.onMachine (interpret fuel
          (relabelStatements ⟨id, change⟩ (others (tree session.nextNode).2).1)) :
            Step Session Failure Unit)
        ⟨session.machine.learn all, (others (tree session.nextNode).2).2⟩ := by
    rw [Session.run_of_read (readsWhole.read session.nextNode) resolvedWhole,
      ← Session.onMachine_bind, ← interpret_append fuel (returnsAmong_of_resolved resolved)]
    rfl
  have ran := firstText_alike upheld reads fuel (others (tree session.nextNode).2).2
    (learnsFirst session.machine)
  rw [← Session.run_of_read (reads.read _) resolved] at ran
  rw [ranWhole]
  refine ran.bind (fun _ _ now another _ states => ?_) fun _ _ now another alikeFailure states => ?_
  · -- both have come to the second text
    obtain ⟨machine, next⟩ := now
    obtain ⟨other, next'⟩ := another
    obtain ⟨alike, isNext, isNext'⟩ := states
    obtain rfl : next = (tree session.nextNode).2 := isNext
    obtain rfl : next' = (others (tree session.nextNode).2).2 := isNext'
    have le := (readsSecond.derives.fresh (tree session.nextNode).2).le
    have agree : (counterparts.upTo (others (tree session.nextNode).2).2).distances
        (machine.learn later).distances other.distances := by
      intro place _
      rw [alike.distances.2, learnsBoth]
      unfold Machine.learn
      rw [alike.distances.1]
      rfl
    have alikeSecond := Session.onMachine_alike (secondText_alike readsSecond covers fuel _)
      (alike.relearn (Session.oneText_within stays le) agree) (others (tree session.nextNode).2).2
      (others (tree session.nextNode).2).2
    rw [Session.run_of_read (readsSecond.read _) resolvedLater]
    refine alikeSecond.mono fun last last' ⟨alikeLast, isLast, _⟩ => ?_
    unfold Session.Alike
    rw [isLast]
    exact alikeLast
  · -- both have failed in the first text, for the nodes of which they know the same distances
    obtain ⟨alike, isNext, -⟩ := states
    obtain ⟨⟨has, sameToken⟩, sameFault⟩ := alikeFailure
    refine ⟨.runtime ?_ sameFault, ?_⟩
    · rw [sameToken]
      exact stays _ has
    · unfold Session.Alike
      rw [isNext]
      exact alike.relearn (Session.oneText_within stays (Nat.le_refl _))
        fun _ isBelow => Likeness.known _ alike.distances isBelow

end

/-! ### Nothing but line ends -/

/-- Nothing but the line ends of a text. -/
def lineEndsOnly (source : String) : String :=
  String.ofList (source.toList.filter (· = '\n'))

theorem lineEndsIn_lineEndsOnly (source : String) :
    lineEndsIn (lineEndsOnly source ++ "\n") = lineEndsIn (source ++ "\n") := by
  rw [lineEndsIn_newline, lineEndsIn_newline]
  unfold lineEndsIn lineEndsOnly
  rw [String.toList_ofList, List.count_filter (by simp)]

/-- Line ends read as no program at all. -/
theorem readsAs_lineEndsOnly (source : String) : ReadsAs (lineEndsOnly source) (pure []) := by
  have nothing : diagnosticsOf (Utf8.encode (lineEndsOnly source)) = [] ∧
      innerTokens (Utf8.encode (lineEndsOnly source)) = [] := by
    rw [encode_eq]
    unfold lineEndsOnly
    rw [String.toList_ofList]
    induction source.toList with
    | nil => exact ⟨rfl, rfl⟩
    | cons first rest ih =>
      by_cases isEnd : first = '\n'
      · have newline : String.utf8EncodeChar '\n' = [Byte.newline] := by decide
        have clean : diagnosticsOf [] = [] := rfl
        have tokens := innerTokens_append clean
          ((rest.filter (· = '\n')).flatMap String.utf8EncodeChar)
        rw [isEnd, List.filter_cons_of_pos (by rfl), List.flatMap_cons, newline]
        refine ⟨diagnosticsOf_append clean ih.1, tokens.trans ?_⟩
        rw [ih.2]
        rfl
      · rw [List.filter_cons_of_neg (by simpa using isEnd)]
        exact ih
  refine ⟨nothing.1, ?_, fun _ => ⟨[], rfl⟩⟩
  rw [nothing.2]
  exact .noDeclarations

/-! ### Running one text after the other -/

/-- **Running two texts one after the other is running them as one.** If each of them is accepted by
itself, so is the one text, whose tokens are those of the first and then those of the second,
further below by the line ends that come before them. In any session the two ways of running end
alike: with the same output, error and values of variables, where tokens of the second text stand
further below. If in place of the first text only its line ends come before the second one, not even
the tokens differ. -/
theorem runs_as_one {clock : Nat → Float} {past : Past} {session : Session} {first second : String}
    (after : Session.After clock past session) (accepted : Accepted first)
    (acceptedSecond : Accepted second) (fuel : Nat) :
    Accepted (first ++ "\n" ++ second) ∧
      innerTokens (Utf8.encode (first ++ "\n" ++ second)) =
        innerTokens (Utf8.encode first) ++
          (innerTokens (Utf8.encode second)).map (Token.below (lineEndsIn (first ++ "\n"))) ∧
      Outcome.Alike Eq (Failure.Alike (session.moved first second))
        (Session.Alike (session.moved first second))
        ((do Session.run fuel first; Session.run fuel second) session)
        (Session.run fuel (first ++ "\n" ++ second) session) ∧
      Outcome.Alike Eq (Failure.Alike .same) (Session.Alike .same)
        ((do
          Session.run fuel first
          Session.run fuel (lineEndsOnly first ++ "\n" ++ second)) session)
        (Session.run fuel (first ++ "\n" ++ second) session) := by
  obtain ⟨tree, reads⟩ := accepted.reads
  obtain ⟨others, readsSecond⟩ := acceptedSecond.reads
  have readsWhole := reads.append readsSecond
  refine ⟨readsWhole.accepted, innerTokens_newline_append reads.clean second, ?_, ?_⟩
  · have stays : ∀ token, session.HasToken first token → session.Moves first second token token :=
      fun _ => .stays
    exact bothTexts_alike after.upheld reads readsSecond readsWhole (fun _ => rfl) stays
      (fun _ => Session.Moves.below) fuel
  · -- after the line ends of the first text, the second reads as it does after the first text
    have readsBelow := (readsAs_lineEndsOnly first).append readsSecond
    have same : (do return (← tree) ++ belowText first (← others) : Numbered (List Stmt)) = (do
        let program ← tree
        let below ← (do return (← pure []) ++ belowText (lineEndsOnly first) (← others) :
          Numbered (List Stmt))
        return program ++ relabelStatements ⟨id, id⟩ below) := by
      funext index
      simp only [Numbered.bind_apply, Numbered.pure_apply, relabelStatements_id, belowText,
        lineEndsIn_lineEndsOnly, List.nil_append]
    rw [same] at readsWhole
    have keeps : Relabelling.KeepsLexemes ⟨id, id⟩ := fun _ => rfl
    exact bothTexts_alike after.upheld reads readsBelow readsWhole keeps
      (fun _ _ => rfl) (fun _ _ => rfl) fuel

/-- A comment ends the first text, and an error on the first line of the second is one on
the second line of both. -/
theorem error_on_second_line :
    Accepted "fun f() \x7b\x7d // f" ∧ Accepted "-f;" ∧
      (∃ later, (do
        Session.run 9 "fun f() \x7b\x7d // f"
        Session.run 9 "-f;" : Step Session Failure Unit) (.start fun _ => 0) =
          .failed (.runtime ⟨⟨.symbol .minus, "-", 1⟩, .operandNotNumber⟩) later) ∧
      ∃ later, Session.run 9 ("fun f() \x7b\x7d // f" ++ "\n" ++ "-f;") (.start fun _ => 0) =
        .failed (.runtime ⟨⟨.symbol .minus, "-", 2⟩, .operandNotNumber⟩) later := by
  have accepted : Accepted "fun f() \x7b\x7d // f" := ⟨_, _, _, rfl, rfl⟩
  have acceptedSecond : Accepted "-f;" := ⟨_, _, _, rfl, rfl⟩
  obtain ⟨last, failed⟩ : ∃ later, (do
      Session.run 9 "fun f() \x7b\x7d // f"
      Session.run 9 "-f;" : Step Session Failure Unit) (.start fun _ => 0) =
        .failed (.runtime ⟨⟨.symbol .minus, "-", 1⟩, .operandNotNumber⟩) later := ⟨_, rfl⟩
  refine ⟨accepted, acceptedSecond, ⟨last, failed⟩, ?_⟩
  obtain ⟨-, -, alike, -⟩ := runs_as_one .start accepted acceptedSecond 9
  rw [failed] at alike
  generalize Session.run 9 ("fun f() \x7b\x7d // f" ++ "\n" ++ "-f;") _ = outcome at alike ⊢
  cases alike with
  | @failed _ _ _ another alikeFailure _ =>
    cases alikeFailure with
    | @runtime _ other moves fault =>
      obtain ⟨token, found⟩ := other
      obtain rfl : found = .operandNotNumber := fault
      cases moves with
      | below => exact ⟨another, rfl⟩
      | stays has =>
        -- the minus stands neither in the first text nor in a function that was there before
        rcases has with inFirst | ⟨scope, name, closure, bound, -⟩
        · have tokens : (innerTokens (Utf8.encode "fun f() \x7b\x7d // f")).map Token.lexeme =
            ["fun", "f", "(", ")", "\x7b", "\x7d"] := rfl
          have isOne : "-" ∈ (innerTokens (Utf8.encode "fun f() \x7b\x7d // f")).map Token.lexeme :=
            List.mem_map.mpr ⟨_, inFirst, rfl⟩
          rw [tokens] at isOne
          exact absurd isOne (by decide)
        · obtain ⟨-, -, -, ⟨root, isRoot, -⟩, -⟩ :=
            (Upheld.atStart _).fits.values scope name _ bound
          cases isRoot

end Lox
