/-
**Distances are lexical.**

* `Mention.node?`, `nodesOfStatements_eq` — each node of a program that is read
  is that of one occurrence.
* `Occurrence.Nearest` — the scope at this distance around an occurrence is the first one, from the
  innermost outward, that declares a name up to there.
* `distances_are_lexical` — the distance that is recorded for a node is that of the nearest scope
  around it that declares its name, and none is recorded where no scope around it does.
-/

import Lox.Proofs.Scoping.Defects
import Lox.Proofs.Session.History

namespace Lox

/-- The node of a variable that is read or assigned. -/
def Mention.node? : Mention → Option NodeId
  | .accesses node _ _ => some node
  | .declares _ | .returns _ => none

namespace Occurrence

/-- The scope at this distance is the nearest one around the occurrence that declares the name. -/
def Nearest (occurrence : Occurrence) (name : String) (distance : Nat) : Prop :=
  ∃ enclosure, occurrence.around[distance]? = some enclosure ∧ enclosure.Declares name ∧
    ∀ nearer other, nearer < distance → occurrence.around[nearer]? = some other →
    ¬ other.Declares name

theorem distance?_eq_some {occurrence : Occurrence} {name : String} {distance : Nat} :
    occurrence.distance? name = some distance ↔ occurrence.Nearest name distance := by
  unfold distance? Nearest
  simp only [List.findIdx?_eq_some_iff_getElem, decide_eq_true_iff, List.getElem?_eq_some_iff]
  constructor
  · rintro ⟨inside, declares, first⟩
    refine ⟨_, ⟨inside, rfl⟩, declares, ?_⟩
    rintro nearer _ isNearer ⟨_, rfl⟩
    exact first nearer isNearer
  · rintro ⟨_, ⟨inside, rfl⟩, declares, first⟩
    exact ⟨inside, declares, fun nearer isNearer => first nearer _ isNearer
      ⟨Nat.lt_trans isNearer inside, rfl⟩⟩

theorem distance?_eq_none {occurrence : Occurrence} {name : String} :
    occurrence.distance? name = none ↔
      ∀ enclosure ∈ occurrence.around, ¬ enclosure.Declares name := by
  unfold distance?
  simp only [List.findIdx?_eq_none_iff, decide_eq_false_iff_not]

/-- The references of occurrences have their nodes. -/
theorem map_node_references (occurrences : List Occurrence) :
    (occurrences.filterMap reference?).map Reference.node =
      occurrences.filterMap fun occurrence => occurrence.mention.node? := by
  rw [List.map_filterMap]
  refine congrArg (List.filterMap · occurrences) (funext fun occurrence => ?_)
  unfold reference? Mention.node?
  cases occurrence.mention <;> rfl

end Occurrence

section

variable {tokens : List Token} {nextNode next : Nat} {program : List Stmt}

/-- The references of a program that is read are those of what occurs in it. -/
theorem referencesOf_eq (parsed : parseProgram tokens nextNode = (.ok program, next)) :
    referencesOf program = (occurrencesOf program).filterMap Occurrence.reference? :=
  (finds_of_parsed parsed).references

/-- Each node of a program that is read is that of what occurs there, in the same order. -/
theorem nodesOfStatements_eq (parsed : parseProgram tokens nextNode = (.ok program, next)) :
    nodesOfStatements program = (occurrencesOf program).filterMap
      fun occurrence => occurrence.mention.node? := by
  rw [← Occurrence.map_node_references, ← referencesOf_eq parsed]
  exact (Site.nodes_after (.outermost (.statements program))).symm

/-- In a program that is read, no node comes twice. -/
theorem nodup_of_parsed (parsed : parseProgram tokens nextNode = (.ok program, next)) :
    (nodesOfStatements program).Nodup := by
  obtain ⟨taken, tree, derives, numbered⟩ := derives_of_parsed parsed
  have fresh := derives.fresh nextNode
  rw [numbered] at fresh
  exact fresh.nodup

/-- **Distances are lexical.** In a program that is read and resolved, each node is that of one
variable that is read or assigned. Its distance is that of the first scope around it, from the
innermost outward, in which its name is declared up to there: by a parameter, by a statement
right in the scope that stands before, or by the declaration right in the scope that the place is
part of. It has no distance if and only if no scope around it declares the name up to there,
whatever is declared later. -/
theorem distances_are_lexical {references : List Reference}
    (parsed : parseProgram tokens nextNode = (.ok program, next))
    (resolved : resolve program = .ok references) :
    nodesOfStatements program =
      ((occurrencesOf program).filterMap fun occurrence => occurrence.mention.node?) ∧
      (nodesOfStatements program).Nodup ∧
      ∀ occurrence ∈ occurrencesOf program, ∀ node access name,
        occurrence.mention = .accesses node access name →
        (∀ distance, (Distances.ofReferences references).get? node = some distance ↔
          occurrence.Nearest name.lexeme distance) ∧
        ((Distances.ofReferences references).get? node = none ↔
          ∀ enclosure ∈ occurrence.around, ¬ enclosure.Declares name.lexeme) := by
  have nodes := nodesOfStatements_eq parsed
  have nodup := nodup_of_parsed parsed
  refine ⟨nodes, nodup, fun occurrence occurs node access name isAccess => ?_⟩
  have recorded : (Distances.ofReferences references).get? node =
      occurrence.distance? name.lexeme := by
    obtain ⟨-, rfl⟩ := Walk.result_eq_ok.mp resolved
    have isReference : ⟨node, access, name, occurrence.distance? name.lexeme⟩ ∈
        referencesOf program := by
      rw [referencesOf_eq parsed]
      exact List.mem_filterMap.mpr ⟨occurrence, occurs, by simp [Occurrence.reference?, isAccess]⟩
    refine Distances.get?_ofReferences ?_ isReference
    rw [referencesOf_eq parsed, Occurrence.map_node_references, ← nodes]
    exact nodup
  rw [recorded]
  exact ⟨fun distance => Occurrence.distance?_eq_some, Occurrence.distance?_eq_none⟩

end

/-- A function reads a variable that the block around it declares later, and a block further inside
assigns that variable. -/
theorem distances_of_shadowed :
    ∃ program references, parseProgram (tokensOf (Utf8.encode
        "var a = 1; \x7b fun show() \x7b return a; \x7d var a = 2; \x7b a = show(); \x7d \x7d")) 0 =
          (.ok program, 4) ∧
      resolve program = .ok references ∧ (Distances.ofReferences references).get? ⟨0⟩ = none ∧
      (Distances.ofReferences references).get? ⟨3⟩ = some 1 := by
  obtain ⟨program, reading, writing, parsed, resolved, ⟨reads, isRead, isFree⟩,
      writes, isWritten, isNearest⟩ :
      ∃ program reading writing, parseProgram (tokensOf (Utf8.encode
        "var a = 1; \x7b fun show() \x7b return a; \x7d var a = 2; \x7b a = show(); \x7d \x7d")) 0 =
          (.ok program, 4) ∧
      resolve program = .ok (referencesOf program) ∧
      ((occurrencesOf program)[3]? = some reading ∧
        reading.mention = .accesses ⟨0⟩ .read ⟨.identifier, "a", 1⟩ ∧
        reading.distance? "a" = none) ∧
      (occurrencesOf program)[6]? = some writing ∧
        writing.mention = .accesses ⟨3⟩ .write ⟨.identifier, "a", 1⟩ ∧
        writing.distance? "a" = some 1 := ⟨_, _, _, rfl, rfl, ⟨rfl, rfl, rfl⟩, rfl, rfl, rfl⟩
  obtain ⟨-, -, lexical⟩ := distances_are_lexical parsed resolved
  refine ⟨program, _, parsed, resolved, ?_, ?_⟩
  · exact (lexical _ (List.mem_of_getElem? reads) _ _ _ isRead).2.mpr
      (Occurrence.distance?_eq_none.mp isFree)
  · exact ((lexical _ (List.mem_of_getElem? writes) _ _ _ isWritten).1 1).mpr
      (Occurrence.distance?_eq_some.mp isNearest)

end Lox
