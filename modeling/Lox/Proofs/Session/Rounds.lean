/-
**The rounds of a loop need no scopes of their own.**

* `ForLoop.ResolvesAlike` — the code of a loop and of its copy with other nodes leads to the same
  scopes, where the copy has no scopes for the rounds.
* `ForLoop.runInBlocks_matches` — then the loop with a scope in each round and the
  copy without do the same.
* `ForLoop.resolvesAlike` — it is so if either knows the distances that a walk of its own has found.
  `ForLoop.resolves_copy`: a copy does so once its references are learnt.
-/

import Lox.Proofs.Evaluation.Loops
import Lox.Proofs.Scoping.Relabelled
import Lox.Proofs.Session.Control

namespace Lox

/-- The scopes around a part that stands in one more scope if something is given. -/
def Standing.around {α : Type} (standing : Standing) (given : Option α) (stack : List Standing) :
    List Standing :=
  match given with
  | none => stack
  | some _ => standing :: stack

namespace ForLoop

variable (loop : ForLoop) (lookups : Lookups) (change : NodeId → NodeId)

/-- What is run in each round resolves alike. The scope of the round is not there in the sparser
run. -/
structure PartsResolveAlike (stack : List Standing) : Prop where
  condition : ∀ given ∈ loop.condition, Expr.ResolvesAlike lookups change stack given
  body : loop.body.ResolvesAlike lookups change (Standing.skipped.around loop.increment stack)
  increment : ∀ given ∈ loop.increment, Expr.ResolvesAlike lookups change (.skipped :: stack) given

/-- The initializer resolves alike in the scope of the loop, and so does what is run in each
round. -/
structure ResolvesAlike (stack : List Standing) : Prop where
  initializer : ∀ given ∈ loop.initializer, Stmt.ResolvesAlike lookups change (.kept :: stack) given
  parts : loop.PartsResolveAlike lookups change (Standing.kept.around loop.initializer stack)

end ForLoop

/-! ### Running -/

section

variable {lookups : Lookups} {change : NodeId → NodeId} {base : Chart} {stack : List Standing}

theorem Run.Matches.andThen {first first' second second' : Run Flow}
    (both : Run.Matches lookups base stack (Flow.Matches lookups) first first')
    (rest : ∀ later, base <+: later →
      Run.Matches lookups later stack (Flow.Matches lookups) second second') :
    Run.Matches lookups base stack (Flow.Matches lookups) (first.andThen second)
      (first'.andThen second') := by
  refine both.bind fun later flow flow' extension alike => ?_
  cases alike with
  | normal => exact rest later extension
  | returned alike => exact .pure fun _ further => .returned (alike.mono further)

theorem Run.Restores.andThen {first second : Run Flow} (restores : first.Restores)
    (rest : second.Restores) :
    (first.andThen second).Restores := by
  refine Step.Stays.bind restores fun flow => ?_
  cases flow with
  | normal => exact rest
  | returned value => exact .pure _

namespace ForLoop

variable {loop : ForLoop}

theorem restores_advance (loop : ForLoop) (fuel : Nat) : (loop.advance fuel).Restores := by
  unfold advance
  cases loop.increment with
  | none => exact .pure _
  | some increment => exact .bind ((restoring fuel).evaluate increment) fun _ => .pure _

theorem decide_matches (alike : loop.PartsResolveAlike lookups change stack) (fuel : Nat) :
    Run.Matches lookups base stack (Value.Matches lookups) (loop.decide fuel)
      ((loop.relabel change).decide fuel) := by
  have given := alike.condition
  unfold decide relabel
  dsimp only
  cases found : loop.condition with
  | none => exact .plain fun _ => Value.noConfusion
  | some condition => exact (evaluatesMatching lookups fuel).evaluate (given condition found)

/-- The sparser run does without the scope of a round. -/
theorem roundInBlock_matches (alike : loop.PartsResolveAlike lookups change stack) (fuel : Nat) :
    Run.Matches lookups base stack (Flow.Matches lookups) (loop.roundInBlock fuel)
      ((execute fuel (loop.relabel change).body).andThen ((loop.relabel change).advance fuel)) := by
  have restores := Run.Restores.andThen ((restoring fuel).execute (loop.relabel change).body)
    ((loop.relabel change).restores_advance fuel)
  have resolves := alike.body
  have given := alike.increment
  unfold advance relabel at restores ⊢
  unfold roundInBlock advance
  dsimp only at restores ⊢
  cases found : loop.increment with
  | none =>
    rw [found] at resolves
    show Run.Matches lookups base stack (Flow.Matches lookups) (execute fuel loop.body)
      ((execute fuel (loop.body.relabel ⟨change, id⟩)).andThen (pure .normal))
    rw [Run.andThen_normal]
    exact (evaluatesMatching lookups fuel).execute resolves
  | some increment =>
    rw [found] at resolves restores
    refine .inSkippedScope (fun machine later left => (restores machine later left).scope)
      fun later _ => ?_
    refine .andThen ((evaluatesMatching lookups fuel).execute resolves) fun further _ => ?_
    refine .bind ((evaluatesMatching lookups fuel).evaluate (given increment found))
      fun _ _ _ _ _ => ?_
    exact .pure fun _ _ => .normal

/-- All rounds, by induction on the fuel. -/
theorem roundsInBlocks_matches (alike : loop.PartsResolveAlike lookups change stack) (fuel : Nat) :
    Run.Matches lookups base stack (Flow.Matches lookups) (loop.roundsInBlocks fuel)
      ((loop.relabel change).rounds fuel) := by
  induction fuel generalizing base with
  | zero => exact .exhausted
  | succ fuel ih =>
    unfold roundsInBlocks rounds
    rw [← Run.andThen_assoc]
    refine .bind (decide_matches alike fuel) fun _ decision decision' _ alikeDecision => ?_
    refine .ite alikeDecision.resembles.truthy ?_ (.pure fun _ _ => .normal)
    exact .andThen (roundInBlock_matches alike fuel) fun _ _ => ih

/-- **The copy without scopes for the rounds does the same.** -/
theorem runInBlocks_matches (alike : loop.ResolvesAlike lookups change stack) (fuel : Nat) :
    Run.Matches lookups base stack (Flow.Matches lookups) (loop.runInBlocks fuel)
      ((loop.relabel change).run fuel) := by
  have given := alike.initializer
  have parts := alike.parts
  unfold runInBlocks run
  rw [show (loop.relabel change).initializer =
    loop.initializer.map (Stmt.relabel ⟨change, id⟩) from rfl]
  cases found : loop.initializer with
  | none =>
    rw [found] at parts
    exact roundsInBlocks_matches parts fuel
  | some initializer =>
    rw [found] at parts
    refine .inNewScope fun later _ => .andThen ?_ fun _ _ => roundsInBlocks_matches parts fuel
    exact (evaluatesMatching lookups fuel).execute (given initializer found)

end ForLoop

end

/-! ### Resolving -/

namespace ForLoop

variable {loop : ForLoop} {lookups : Lookups} {change : NodeId → NodeId} {stack : List Standing}

/-- What is run in each round resolves alike if the distances are those of a walk over the tree, and
of a walk over the condition, the body and the increment, one after the other. -/
theorem partsResolveAlike {frames others : List Frame} {walk other : Walk}
    (thins : Thins stack walk.scopes other.scopes)
    (wellFormed : Site.WellFormed ⟨.statement (.while (loop.condition.getD (.literal .true))
      (.withIncrement loop.body loop.increment)), frames, walk⟩)
    (fuller : Site.Resolves ⟨.statement (.while (loop.condition.getD (.literal .true))
      (.withIncrement loop.body loop.increment)), frames, walk⟩ id lookups.fuller)
    (sparser : Site.Resolves ⟨.statements loop.parts, others, other⟩ change lookups.sparser) :
    loop.PartsResolveAlike lookups change stack := by
  obtain ⟨initializer, condition, increment, body, declaresNothing⟩ := loop
  dsimp only at wellFormed fuller
  -- the condition, after which the scopes are the same as before
  obtain ⟨isCondition, later, scopes, remaining⟩ :
      (∀ given ∈ condition, Expr.ResolvesAlike lookups change stack given) ∧
        ∃ later : Walk, later.scopes = other.scopes ∧
          Site.Resolves ⟨.statements (body :: increment.toList.map .expression),
            others, later⟩ change lookups.sparser := by
    cases condition with
    | none => exact ⟨nofun, other, rfl, sparser⟩
    | some condition =>
      refine ⟨?_, condition.walk other, condition.scopes_walk other,
        sparser.of_child Site.moreStatements_child⟩
      rintro given ⟨⟩
      have first := (sparser.of_child Site.firstStatement_child).of_child List.mem_cons_self
      exact Site.resolvesAlike ⟨.expression condition, frames, walk⟩ thins
        (wellFormed.of_child List.mem_cons_self) trivial (fuller.of_child List.mem_cons_self) first
  have isBody : Site.mk (.statement (.withIncrement body increment)) frames
      ((condition.getD (.literal .true)).walk walk) ∈
        Site.children ⟨.statement
          (.while (condition.getD (.literal .true)) (.withIncrement body increment)),
          frames, walk⟩ := List.mem_cons_of_mem _ List.mem_cons_self
  have wellFormedBody := wellFormed.of_child isBody
  have fullerBody := fuller.of_child isBody
  have thinsBody : Thins stack ((condition.getD (.literal .true)).walk walk).scopes
      later.scopes := by
    rw [Expr.scopes_walk, scopes]
    exact thins
  have sparserBody := remaining.of_child Site.firstStatement_child
  have apart {stack : List Standing} : Part.KeepsNames stack (.statement body) :=
    keepsNames_of_none declaresNothing
  cases increment with
  | none => exact ⟨isCondition,
      Site.resolvesAlike _ thinsBody wellFormedBody apart fullerBody sparserBody, nofun⟩
  | some increment =>
    -- the body and the increment stand in a block
    have wellFormedAll := wellFormedBody.of_child Site.block_child
    have fullerAll := fullerBody.of_child Site.block_child
    have wellFormedFirst := wellFormedAll.of_child Site.firstStatement_child
    have thinsFirst := Thins.skipped thinsBody
    refine ⟨isCondition, Site.resolvesAlike _ thinsFirst wellFormedFirst apart
      (fullerAll.of_child Site.firstStatement_child) sparserBody, ?_⟩
    rintro given ⟨⟩
    have isIncrement {frames : List Frame} {walk : Walk} :
        Site.mk (.expression increment) frames walk ∈
        Site.children ⟨.statement (.expression increment), frames, walk⟩ := List.mem_cons_self
    have fullerLast := (fullerAll.of_child Site.moreStatements_child).of_child
      Site.firstStatement_child
    have sparserLast := (remaining.of_child Site.moreStatements_child).of_child
      Site.firstStatement_child
    have wellFormedLast := (wellFormedAll.of_child Site.moreStatements_child).of_child
      Site.firstStatement_child
    exact Site.resolvesAlike ⟨.expression increment, _, _⟩
      (thinsFirst.afterStatement wellFormedFirst others apart)
      (wellFormedLast.of_child isIncrement) trivial (fullerLast.of_child isIncrement)
      (sparserLast.of_child isIncrement)

/-- **A loop and its copy resolve alike if either knows the distances that a walk of its own has
found.** -/
theorem resolvesAlike {frames others : List Frame} {walk : Walk}
    (thins : Thins stack walk.scopes walk.scopes)
    (wellFormed : Site.WellFormed ⟨.statement loop.lowered, frames, walk⟩)
    (fuller : Site.Resolves ⟨.statement loop.lowered, frames, walk⟩ id lookups.fuller)
    (sparser : Site.Resolves ⟨.statements loop.text, others, loop.entry walk⟩
      change lookups.sparser) :
    loop.ResolvesAlike lookups change stack := by
  obtain ⟨initializer, condition, increment, body, declaresNothing⟩ := loop
  cases initializer with
  | none =>
    have same : Thins stack walk.scopes walk.anew.scopes := thins
    exact ⟨nofun, partsResolveAlike same wellFormed fuller sparser⟩
  | some initializer =>
    have wellFormedAll := wellFormed.of_child Site.block_child
    have fullerAll := fuller.of_child Site.block_child
    have wellFormedFirst := wellFormedAll.of_child Site.firstStatement_child
    have kept : Thins (.kept :: stack) walk.openScope.scopes walk.openScope.anew.scopes :=
      .kept thins
    have keeps {form : Stmt} : Part.KeepsNames (.kept :: stack) (.statement form) := fun _ => nofun
    constructor
    · rintro given ⟨⟩
      exact Site.resolvesAlike _ kept wellFormedFirst keeps
        (fullerAll.of_child Site.firstStatement_child) (sparser.of_child Site.firstStatement_child)
    · have after := kept.afterStatement wellFormedFirst others keeps
      exact partsResolveAlike after
        ((wellFormedAll.of_child Site.moreStatements_child).of_child Site.firstStatement_child)
        ((fullerAll.of_child Site.moreStatements_child).of_child Site.firstStatement_child)
        (sparser.of_child Site.moreStatements_child)

/-! ### The references of a copy -/

/-- The nodes of what is in the loop are those of its tree. -/
theorem nodes_text (loop : ForLoop) : nodesOfStatements loop.text = loop.lowered.nodes := by
  unfold text parts lowered
  rw [Stmt.nodes_forLoop]
  cases loop.initializer <;> cases loop.condition <;> cases loop.increment <;>
    simp [nodesOfStatements, nodesOfOptional, Stmt.nodes]

/-- There is one reference for each node. -/
theorem nodes_references (loop : ForLoop) (walk : Walk) :
    (loop.references walk).map Reference.node = loop.lowered.nodes := by
  have found := Site.nodes_after ⟨.statements loop.text, [], loop.entry walk⟩
  have nothing : (loop.entry walk).nodes = [] := by
    unfold entry
    cases loop.initializer <;> rfl
  rw [nothing, List.nil_append] at found
  exact found.trans loop.nodes_text

theorem text_relabel (change : NodeId → NodeId) (loop : ForLoop) :
    (loop.relabel change).text = relabelStatements ⟨change, id⟩ loop.text := by
  unfold text parts relabel
  cases loop.initializer <;> cases loop.condition <;> cases loop.increment <;> rfl

/-- The references of a copy are those of the loop, with other nodes. -/
theorem references_relabel (change : NodeId → NodeId) (loop : ForLoop) (walk : Walk) :
    (loop.relabel change).references walk =
      (loop.references walk).map (Reference.relabel ⟨change, id⟩) := by
  have entry_relabel : (loop.relabel change).entry walk = loop.entry walk := by
    unfold entry relabel
    cases loop.initializer <;> rfl
  have same : (loop.entry walk).Relabels ⟨change, id⟩ (loop.entry walk) := by
    unfold entry
    cases loop.initializer <;> exact ⟨rfl, rfl, rfl, .nil⟩
  have found :=
    (Site.relabels (fun _ => rfl) ⟨.statements loop.text, [], loop.entry walk⟩ same).references
  unfold references
  rw [text_relabel, entry_relabel]
  exact found

/-- **Once the references of a copy are learnt, the distances of its nodes are
those that the walk finds.** -/
theorem resolves_copy {change : NodeId → NodeId} (injective : Function.Injective change)
    {distances : Distances}
    (fresh : ∀ node ∈ loop.lowered.nodes, distances.get? (change node) = none)
    (nodup : loop.lowered.nodes.Nodup) (walk : Walk) :
    Site.Resolves ⟨.statements loop.text, [], loop.entry walk⟩ change
      (distances ++ Distances.ofReferences ((loop.relabel change).references walk)) := by
  rintro ⟨part, frames, inner⟩ node access name within rfl
  have isReference : Reference.mk node access name (distanceTo? name.lexeme inner.scopes) ∈
      loop.references walk :=
    within.reference
  have isCopy := List.mem_map_of_mem (f := Reference.relabel ⟨change, id⟩) isReference
  rw [← references_relabel] at isCopy
  have isNode : node ∈ loop.lowered.nodes :=
    loop.nodes_references walk ▸ List.mem_map_of_mem isReference
  have nodupCopy : (((loop.relabel change).references walk).map Reference.node).Nodup := by
    rw [references_relabel, List.map_map]
    have composed : Reference.node ∘ Reference.relabel ⟨change, id⟩ = change ∘ Reference.node := rfl
    rw [composed, ← List.map_map, nodes_references]
    exact nodup.map injective
  have found := Distances.get?_ofReferences nodupCopy isCopy
  rw [Distances.get?_append, fresh node isNode, Option.or_none]
  exact found

end ForLoop

end Lox
