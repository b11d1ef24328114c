/-
**The walk finds exactly what is wrong.**

* `Enclosure.Marks` — the marks of names in an open scope are those that the names
  have at a place in the text.
* `Walk.ComesTo` — the open scopes of a walk are those around a place, with the
  marks of their names there.
* `Walk.Finds` — between two walks, these occurrences have been found: what is wrong with them, and
  the distances of their variables.
* `Site.finds` — the walk over a part finds what occurs in it. The induction follows the sites of
  the text; one lemma for each operation of the walk says what is found and where the walk comes to.
* `static_errors_are_exact` — a program that is read is resolved unless something is wrong with an
  occurrence, and the diagnostics are those of its occurrences, in order.
-/

import Lox.Proofs.Grammar.Exact
import Lox.Proofs.Grammar.Trees
import Lox.Proofs.Scoping.Occurrences
import Lox.Proofs.Scoping.Relabelled
import Lox.Source

namespace Lox

/-! ### Marks of names -/

namespace Enclosure

/-- The mark that a name has in the scope: whether it may be read, if it is
declared up to the place. -/
def mark? (enclosure : Enclosure) (name : String) : Option Bool :=
  if enclosure.Initializes name then some false
  else if enclosure.Declares name then some true
  else none

/-- These are the marks of all names in the scope. -/
def Marks (enclosure : Enclosure) (names : Names Bool) : Prop :=
  ∀ name, names.get? name = enclosure.mark? name

variable {enclosure later : Enclosure} {names : Names Bool} {name : String}

theorem Initializes.declares (initializes : enclosure.Initializes name) :
    enclosure.Declares name := by
  obtain ⟨token, isToken, rfl⟩ := initializes
  obtain ⟨declaration, isPart, isVariable⟩ := Option.bind_eq_some_iff.mp isToken
  cases declaration with
  | «variable» =>
    obtain rfl := Option.some.inj isVariable
    exact .inr (.inr ⟨_, isPart, rfl⟩)
  | function => cases isVariable

theorem Marks.has (marks : enclosure.Marks names) (name : String) :
    names.has name = decide (enclosure.Declares name) := by
  unfold Names.has
  rw [marks, mark?]
  by_cases initializes : enclosure.Initializes name
  · simp [initializes, initializes.declares]
  · by_cases declares : enclosure.Declares name <;> simp [initializes, declares]

theorem Marks.get?_eq_false (marks : enclosure.Marks names) (name : String) :
    names.get? name = some false ↔ enclosure.Initializes name := by
  rw [marks, mark?]
  by_cases initializes : enclosure.Initializes name
  · simp [initializes]
  · by_cases declares : enclosure.Declares name <;> simp [initializes, declares]

/-- Where the place is part of no declaration, all that is declared may be read. -/
theorem mark?_of_none (noPart : enclosure.part? = none) (name : String) :
    enclosure.mark? name = if enclosure.Declares name then some true else none := by
  have ready : ¬ enclosure.Initializes name := by simp [Initializes, noPart]
  rw [mark?, if_neg ready]

/-- Coming to the initializer of a variable, its name is declared and may not be read. -/
theorem Marks.inInitializer (marks : enclosure.Marks names) (noPart : enclosure.part? = none)
    (name : Token) :
    Marks { enclosure with part? := some (.variable name) } (names.set name.lexeme false) := by
  intro other
  rw [Names.get?_set, marks, mark?_of_none noPart]
  by_cases here : other = name.lexeme
  · simp [mark?, Initializes, Declaration.variable?, here]
  · simp [mark?, Initializes, Declares, Declaration.variable?, Declaration.name,
      noPart, here, Ne.symm here]

/-- One more name is declared, and all that is declared may be read. -/
theorem Marks.define (marks : enclosure.Marks names) (noPart : enclosure.part? = none)
    (ready : ∀ other, ¬ later.Initializes other)
    (declares : ∀ other, later.Declares other ↔ enclosure.Declares other ∨ name = other) :
    later.Marks (names.set name true) := by
  intro other
  rw [Names.get?_set, marks, mark?_of_none noPart, mark?, if_neg (ready other)]
  by_cases here : other = name
  · rw [if_pos here, if_pos ((declares other).mpr (.inr here.symm))]
  · simp [declares, here, Ne.symm here]

/-- Coming past a parameter. -/
theorem Marks.parameter (marks : enclosure.Marks names) (noPart : enclosure.part? = none)
    (name : Token) :
    Marks { enclosure with parameters := enclosure.parameters ++ [name] }
      (names.set name.lexeme true) := by
  refine marks.define noPart (fun other => by simp [Initializes, noPart]) fun other => ?_
  simp only [Declares, List.mem_append, List.mem_singleton]
  grind

/-- Coming to the parameters and the body of a function, its name is declared and may be read. -/
theorem Marks.inFunction (marks : enclosure.Marks names) (noPart : enclosure.part? = none)
    (name : Token) :
    Marks { enclosure with part? := some (.function name) } (names.set name.lexeme true) := by
  refine marks.define noPart (fun other => by simp [Initializes, Declaration.variable?])
    fun other => ?_
  simp [Declares, noPart, Declaration.name, or_assoc]

/-- Coming past a statement that declares a name. -/
theorem Marks.past (marks : enclosure.Marks names) (noPart : enclosure.part? = none) {form : Stmt}
    {name : Token} (declared? : form.declared? = some name) :
    Marks { enclosure with earlier := enclosure.earlier ++ [form] }
      (names.set name.lexeme true) := by
  refine marks.define noPart (fun other => by simp [Initializes, noPart]) fun other => ?_
  simp only [Declares, List.mem_append, List.mem_singleton]
  grind

/-- Coming past a statement that declares nothing. -/
theorem Marks.pastOther (marks : enclosure.Marks names) {form : Stmt}
    (declared? : form.declared? = none) :
    Marks { enclosure with earlier := enclosure.earlier ++ [form] } names := by
  intro other
  have declares : Declares { enclosure with earlier := enclosure.earlier ++ [form] } other ↔
      enclosure.Declares other := by
    simp only [Declares, List.mem_append, List.mem_singleton]
    grind
  rw [marks, mark?, mark?]
  simp only [declares, Initializes]

/-- Nothing is declared at the beginning of a scope. -/
theorem marks_nil (frame : Frame) : Marks ⟨frame, [], [], none⟩ [] := by
  intro other
  simp [mark?, Initializes, Declares, Names.get?]

end Enclosure

/-! ### Where a walk comes to -/

/-- The place is part of no declaration right in the innermost scope. -/
def AtRest (around : List Enclosure) : Prop :=
  ∀ innermost ∈ around.head?, innermost.part? = none

theorem atRest_pastStatement {around : List Enclosure} (atRest : AtRest around) (form : Stmt) :
    AtRest (pastStatement form around) := by
  cases around with
  | nil => exact nofun
  | cons innermost outer =>
    rintro _ ⟨⟩
    exact atRest innermost rfl

theorem atRest_cons {frame : Frame} {parameters : List Token} {around : List Enclosure} :
    AtRest (⟨frame, parameters, [], none⟩ :: around) := by
  rintro _ ⟨⟩
  rfl

namespace Walk

/-- The open scopes of the walk are these, with the marks of their names at the place, and the
function that it is right within is the innermost one there. -/
structure ComesTo (walk : Walk) (around : List Enclosure) : Prop where
  scopes : List.Forall₂ Enclosure.Marks around walk.scopes
  currentFunction : walk.currentFunction = around.findSome? Enclosure.kind?

/-- Between the two walks, these occurrences have been found. -/
structure Finds (walk later : Walk) (found : List Occurrence) : Prop where
  diagnostics : later.diagnostics = walk.diagnostics ++ found.filterMap Occurrence.defect?
  references : later.references = walk.references ++ found.filterMap Occurrence.reference?

namespace Finds

variable {walk between later : Walk} {found foundAfter : List Occurrence}

theorem nothing (diagnostics : later.diagnostics = walk.diagnostics)
    (references : later.references = walk.references) :
    walk.Finds later [] :=
  ⟨by rw [diagnostics, List.filterMap_nil, List.append_nil], by rw [references,
    List.filterMap_nil, List.append_nil]⟩

theorem one {occurrence : Occurrence}
    (diagnostics : later.diagnostics = walk.diagnostics ++ occurrence.defect?.toList)
    (references : later.references = walk.references ++ occurrence.reference?.toList) :
    walk.Finds later [occurrence] := by
  refine ⟨diagnostics.trans ?_, references.trans ?_⟩
  · cases defect : occurrence.defect? <;> simp [defect]
  · cases reference : occurrence.reference? <;> simp [reference]

theorem trans (first : walk.Finds between found) (second : between.Finds later foundAfter) :
    walk.Finds later (found ++ foundAfter) :=
  ⟨by rw [second.diagnostics, first.diagnostics, List.filterMap_append, List.append_assoc],
    by rw [second.references, first.references, List.filterMap_append, List.append_assoc]⟩

/-- The walk goes on without finding anything. -/
theorem «then» (first : walk.Finds between found) (second : between.Finds later []) :
    walk.Finds later found :=
  List.append_nil found ▸ first.trans second

end Finds

variable {walk : Walk} {around : List Enclosure}

section

variable (comesTo : walk.ComesTo around)

include comesTo

/-- The walk finds the nearest scope with a name. -/
theorem ComesTo.distanceTo? (mention : Mention) (name : String) :
    distanceTo? name walk.scopes = Occurrence.distance? ⟨mention, around⟩ name := by
  unfold Lox.distanceTo? Occurrence.distance?
  obtain ⟨marks, -⟩ := comesTo
  dsimp only
  generalize walk.scopes = scopes at marks
  induction marks with
  | nil => rfl
  | cons first _ ih => rw [List.findIdx?_cons, List.findIdx?_cons, first.has, ih]

/-- What a name has to do with the innermost scope, the walk sees by its mark there. -/
theorem ComesTo.innermost? {holds : Enclosure → Prop} {test : Names Bool → Bool}
    (same : ∀ enclosure names, enclosure.Marks names → (test names = true ↔ holds enclosure)) :
    walk.innermost?.any test = true ↔ ∃ innermost ∈ around.head?, holds innermost := by
  obtain ⟨marks, -⟩ := comesTo
  unfold Walk.innermost?
  generalize walk.scopes = scopes at marks
  cases marks with
  | nil => simp
  | cons first _ => simp [same _ _ first]

theorem ComesTo.declares (name : Token) :
    walk.innermost?.any (·.has name.lexeme) = true ↔
      ∃ innermost ∈ around.head?, innermost.Declares name.lexeme :=
  comesTo.innermost? fun enclosure names marks => by rw [marks.has, decide_eq_true_iff]

theorem ComesTo.inOwnInitializer (name : Token) :
    walk.inOwnInitializer name = true ↔
      ∃ innermost ∈ around.head?, innermost.Initializes name.lexeme :=
  comesTo.innermost? fun enclosure names marks => by rw [beq_iff_eq, marks.get?_eq_false]

/-! ### What each operation of a walk finds -/

theorem finds_declare (name : Token) :
    walk.Finds (walk.declare name) [⟨.declares name, around⟩] := by
  refine .one ?_ (by simp [Occurrence.reference?])
  have unmarked : (walk.mark name false).diagnostics = walk.diagnostics := by
    unfold mark
    split <;> rfl
  unfold Walk.declare Occurrence.defect?
  dsimp only
  by_cases twice : walk.innermost?.any (·.has name.lexeme) = true
  · rw [if_pos twice, if_pos ((comesTo.declares name).mp twice), record, unmarked]
    rfl
  · rw [if_neg twice, if_neg (mt (comesTo.declares name).mpr twice), unmarked]
    exact (List.append_nil _).symm

theorem finds_refer (node : NodeId) (name : Token) :
    walk.Finds (walk.refer node .write name) [⟨.accesses node .write name, around⟩] := by
  refine .one (List.append_nil _).symm ?_
  simp [Occurrence.reference?, comesTo.distanceTo? (.accesses node .write name)]

theorem finds_readVariable (node : NodeId) (name : Token) :
    walk.Finds (walk.readVariable node name) [⟨.accesses node .read name, around⟩] := by
  refine .one ?_ (by simp [Occurrence.reference?, comesTo.distanceTo? (.accesses node .read name)])
  unfold Walk.readVariable Occurrence.defect?
  dsimp only
  by_cases own : walk.inOwnInitializer name = true
  · rw [if_pos own, if_pos ((comesTo.inOwnInitializer name).mp own)]
    rfl
  · rw [if_neg own, if_neg (mt (comesTo.inOwnInitializer name).mpr own)]
    exact (List.append_nil _).symm

/-- Outside of all functions there is none to return from. -/
theorem ComesTo.currentFunction_eq_none :
    walk.currentFunction = none ↔ ¬ ∃ enclosure ∈ around, enclosure.isFunction = true := by
  rw [comesTo.currentFunction, List.findSome?_eq_none_iff]
  simp [Enclosure.isFunction]

theorem finds_checkReturn (keyword : Token) :
    walk.Finds (walk.checkReturn keyword) [⟨.returns keyword, around⟩] := by
  refine .one ?_ (by simp [Occurrence.reference?])
  unfold Walk.checkReturn Occurrence.defect?
  dsimp only
  by_cases outside : walk.currentFunction = none
  · rw [if_pos outside, if_neg (comesTo.currentFunction_eq_none.mp outside)]
    rfl
  · rw [if_neg outside, if_pos (not_not.mp (mt comesTo.currentFunction_eq_none.mpr outside))]
    exact (List.append_nil _).symm

end

theorem finds_define (walk : Walk) (name : Token) : walk.Finds (walk.define name) [] :=
  .nothing (by unfold define mark; split <;> rfl) (walk.references_define name)

/-! ### Where each operation of a walk comes to -/

section

variable {later : Walk} (comesTo : walk.ComesTo around)

include comesTo

theorem ComesTo.of_same (scopes : later.scopes = walk.scopes)
    (currentFunction : later.currentFunction = walk.currentFunction) :
    later.ComesTo around :=
  ⟨scopes ▸ comesTo.scopes, currentFunction ▸ comesTo.currentFunction⟩

theorem ComesTo.afterExpression (value : Expr) : (value.walk walk).ComesTo around :=
  comesTo.of_same (value.scopes_walk walk)
    (Site.currentFunction_after ⟨.expression value, [], walk⟩)

/-- A name is marked in the innermost scope, and the place in it is another one. -/
theorem ComesTo.mark (atRest : AtRest around) {name : Token} {readable : Bool}
    (change : Enclosure → Enclosure) (scopes : later.scopes = (walk.mark name readable).scopes)
    (currentFunction : later.currentFunction = walk.currentFunction)
    (frame : ∀ enclosure, (change enclosure).frame = enclosure.frame)
    (marks : ∀ enclosure names, enclosure.Marks names → enclosure.part? = none →
      (change enclosure).Marks (names.set name.lexeme readable)) :
    later.ComesTo (around.modifyHead change) := by
  obtain ⟨marked, inside⟩ := comesTo
  refine ⟨?_, ?_⟩
  · rw [scopes, scopes_mark]
    generalize walk.scopes = stack at marked
    cases marked with
    | nil => exact .nil
    | cons first rest => exact .cons (marks _ _ first (atRest _ rfl)) rest
  · rw [currentFunction, inside]
    cases around with
    | nil => rfl
    | cons innermost outer => simp [List.findSome?_cons, Enclosure.kind?, frame]

theorem ComesTo.inInitializer (atRest : AtRest around) (name : Token) :
    (walk.declare name).ComesTo (inDeclaration (.variable name) around) :=
  comesTo.mark atRest _ (scopes_declare walk name) (currentFunction_declare walk name)
    (fun _ => rfl) fun _ _ marks noPart => marks.inInitializer noPart name

theorem ComesTo.inDeclaredFunction (atRest : AtRest around) (name : Token) :
    ((walk.declare name).define name).ComesTo (inDeclaration (.function name) around) :=
  comesTo.mark atRest _ (scopes_define_of_declare rfl)
    ((currentFunction_define _ name).trans (currentFunction_declare walk name)) (fun _ => rfl)
    fun _ _ marks noPart => marks.inFunction noPart name

theorem ComesTo.openBlock (forms : List Stmt) :
    walk.openScope.ComesTo (⟨.block forms, [], [], none⟩ :: around) := by
  exact ⟨.cons (Enclosure.marks_nil _) comesTo.scopes, comesTo.currentFunction⟩

/-- A statement that declares nothing leaves the walk where it was. -/
theorem ComesTo.afterOther {form : Stmt} {frames : List Frame}
    (wellFormed : Site.WellFormed ⟨.statement form, frames, walk⟩)
    (declared? : form.declared? = none) :
    (form.walk walk).ComesTo around := by
  have scopes := Site.scopes_after wellFormed
  rw [declared?] at scopes
  exact comesTo.of_same scopes (Site.currentFunction_after ⟨.statement form, frames, walk⟩)

/-- After a statement, the walk comes to what stands past it. -/
theorem ComesTo.past (atRest : AtRest around) {form : Stmt} {frames : List Frame}
    (wellFormed : Site.WellFormed ⟨.statement form, frames, walk⟩) :
    (form.walk walk).ComesTo (pastStatement form around) := by
  cases declared? : form.declared? with
  | some name =>
    have scopes := Site.scopes_after wellFormed
    rw [declared?] at scopes
    exact comesTo.mark atRest _ scopes (Site.currentFunction_after ⟨.statement form, frames, walk⟩)
      (fun _ => rfl) fun _ _ marks noPart => marks.past noPart declared?
  | none =>
    obtain ⟨marked, inside⟩ := comesTo.afterOther wellFormed declared?
    refine ⟨?_, ?_⟩
    · generalize (form.walk walk).scopes = stack at marked
      cases marked with
      | nil => exact .nil
      | cons first rest => exact .cons (first.pastOther declared?) rest
    · rw [inside]
      cases around with
      | nil => rfl
      | cons innermost outer => rfl

end

/-- The walk over parameters finds them, and comes past them. -/
theorem ComesTo.parameters {kind : FunctionKind} {body : FunctionBody} {before : List Token}
    (comesTo : walk.ComesTo (⟨.function kind body, before, [], none⟩ :: around))
    (parameters : List Token) :
    (parameters.foldl parameter walk).ComesTo
        (⟨.function kind body, before ++ parameters, [], none⟩ :: around) ∧
      walk.Finds (parameters.foldl parameter walk)
        (occurrencesOfParameters kind body around before parameters) := by
  induction parameters generalizing walk before with
  | nil =>
    rw [List.append_nil]
    exact ⟨comesTo, .nothing rfl rfl⟩
  | cons first rest ih =>
    have passed : (walk.parameter first).ComesTo
        (⟨.function kind body, before ++ [first], [], none⟩ :: around) :=
      comesTo.mark atRest_cons
        (fun innermost => { innermost with parameters := innermost.parameters ++ [first] })
        (scopes_define_of_declare rfl)
          ((currentFunction_define _ first).trans (currentFunction_declare walk first))
        (fun _ => rfl) fun _ _ marks noPart => marks.parameter noPart first
    obtain ⟨comes, finds⟩ := ih passed
    rw [List.append_assoc] at comes
    have found : walk.Finds (walk.parameter first) [⟨.declares first, _⟩] :=
      (finds_declare comesTo first).trans (finds_define _ first)
    exact ⟨comes, found.trans finds⟩

/-- The walk that starts the body of a function finds its parameters. -/
theorem ComesTo.enterFunction (comesTo : walk.ComesTo around) (kind : FunctionKind)
    (body : FunctionBody) (parameters : List Token) :
    (walk.enterFunction kind parameters).ComesTo
        (⟨.function kind body, parameters, [], none⟩ :: around) ∧
      walk.Finds (walk.enterFunction kind parameters)
        (occurrencesOfParameters kind body around [] parameters) := by
  have entered : ComesTo { walk.openScope with currentFunction := some kind }
      (⟨.function kind body, [], [], none⟩ :: around) :=
    ⟨.cons (Enclosure.marks_nil _) comesTo.scopes, rfl⟩
  obtain ⟨comes, finds⟩ := entered.parameters parameters
  exact ⟨comes, ⟨finds.diagnostics, finds.references⟩⟩

end Walk

/-! ### What the walk over a part finds -/

/-- The part is no statement, or the place of the part is part of no declaration
right in the innermost scope. -/
def Part.Fits (around : List Enclosure) : Part → Prop
  | .statement _ | .statements _ => AtRest around
  | _ => True

namespace Site

/-- The walk over each part right within a site finds what occurs in it, when it comes there. -/
def InnerFinds (site : Site) : Prop :=
  ∀ child ∈ site.children, ∀ {inside : List Enclosure}, child.walk.ComesTo inside →
    child.part.Fits inside →
    child.walk.Finds child.after (child.part.occurrences inside)

section

variable {frames : List Frame} {walk : Walk} {around : List Enclosure}

theorem finds_expression {value : Expr} (inner : InnerFinds ⟨.expression value, frames, walk⟩)
    (comesTo : walk.ComesTo around) : walk.Finds (value.walk walk) (value.occurrences around) := by
  cases value with
  | literal => exact .nothing rfl rfl
  | grouping value | unary _ value =>
    exact inner ⟨.expression value, frames, walk⟩ List.mem_cons_self comesTo trivial
  | binary left _ right | logical left _ right =>
    exact (inner ⟨.expression left, frames, walk⟩ (by simp [children, Expr.sites])
      comesTo trivial).trans
      (inner ⟨.expression right, frames, left.walk walk⟩ (by simp [children, Expr.sites])
        (comesTo.afterExpression left) trivial)
  | ternary condition _ yes no =>
    have decided := comesTo.afterExpression condition
    exact ((inner ⟨.expression condition, frames, walk⟩
      (by simp [children, Expr.sites]) comesTo trivial).trans
      (inner ⟨.expression yes, frames, _⟩ (by simp [children, Expr.sites]) decided trivial)).trans
      (inner ⟨.expression no, frames, _⟩ (by simp [children, Expr.sites])
        (decided.afterExpression yes) trivial)
  | «variable» node name => exact Walk.finds_readVariable comesTo node name
  | assign node name value =>
    exact (inner ⟨.expression value, frames, walk⟩ (by simp [children, Expr.sites])
      comesTo trivial).trans (Walk.finds_refer (comesTo.afterExpression value) node name)
  | call callee arguments _ =>
    exact (inner ⟨.expression callee, frames, walk⟩ (by simp [children, Expr.sites])
      comesTo trivial).trans
      (inner ⟨.arguments arguments, frames, _⟩ arguments_child
        (comesTo.afterExpression callee) trivial)
  | lambda _ body => exact inner ⟨.function .lambda body, frames, walk⟩ lambda_child comesTo trivial

theorem finds_statement {form : Stmt} (wellFormed : WellFormed ⟨.statement form, frames, walk⟩)
    (inner : InnerFinds ⟨.statement form, frames, walk⟩) (comesTo : walk.ComesTo around)
    (fits : AtRest around) :
    walk.Finds (form.walk walk) (form.occurrences around) := by
  cases form with
  | expression value | print _ value =>
    exact inner ⟨.expression value, frames, walk⟩ List.mem_cons_self comesTo trivial
  | var name initializer =>
    have declared := Walk.finds_declare comesTo name
    cases initializer with
    | none => exact declared.trans (Walk.finds_define _ name)
    | some initializer =>
      have found := inner ⟨.expression initializer, frames, walk.declare name⟩ List.mem_cons_self
        (comesTo.inInitializer fits name) trivial
      exact (declared.trans found).then (Walk.finds_define _ name)
  | block forms =>
    have found := inner _ block_child (comesTo.openBlock forms) atRest_cons
    exact ⟨found.diagnostics, found.references⟩
  | «if» condition yes no =>
    have decided := comesTo.afterExpression condition
    cases no with
    | none =>
      exact (inner ⟨.expression condition, frames, walk⟩
        (by simp [children, Stmt.sites]) comesTo trivial).trans
        (inner ⟨.statement yes, frames, _⟩ (by simp [children, Stmt.sites]) decided fits)
    | some no =>
      have isYes : Site.WellFormed ⟨.statement yes, frames, condition.walk walk⟩ :=
        wellFormed.of_child (by simp [children, Stmt.sites])
      have nothing : yes.declared? = none := (wellFormed_iff.mp wellFormed).1.1
      exact ((inner ⟨.expression condition, frames, walk⟩
        (by simp [children, Stmt.sites]) comesTo trivial).trans
        (inner ⟨.statement yes, frames, _⟩ (by simp [children, Stmt.sites]) decided fits)).trans
        (inner ⟨.statement no, frames, _⟩ (by simp [children, Stmt.sites])
          (decided.afterOther isYes nothing) fits)
  | «while» condition body =>
    exact (inner ⟨.expression condition, frames, walk⟩
      (by simp [children, Stmt.sites]) comesTo trivial).trans
      (inner ⟨.statement body, frames, _⟩ (by simp [children, Stmt.sites])
        (comesTo.afterExpression condition) fits)
  | function name body =>
    have declared := (Walk.finds_declare comesTo name).then (Walk.finds_define _ name)
    exact declared.trans (inner _ function_child (comesTo.inDeclaredFunction fits name) trivial)
  | «return» keyword value =>
    have checked := Walk.finds_checkReturn comesTo keyword
    cases value with
    | none => exact checked
    | some value =>
      exact checked.trans (inner ⟨.expression value, frames, walk.checkReturn keyword⟩
        List.mem_cons_self
        (comesTo.of_same (Walk.scopes_checkReturn walk keyword)
          (Walk.currentFunction_checkReturn walk keyword)) trivial)

end

/-- **The walk over a part finds what occurs in it.** -/
theorem finds (site : Site) (wellFormed : site.WellFormed) {around : List Enclosure}
    (comesTo : site.walk.ComesTo around) (fits : site.part.Fits around) :
    site.walk.Finds site.after (site.part.occurrences around) := by
  induction site using Site.induction generalizing around with
  | step site ih =>
    obtain ⟨part, frames, walk⟩ := site
    replace comesTo : walk.ComesTo around := comesTo
    have inner : InnerFinds ⟨part, frames, walk⟩ :=
      fun child isChild _ comes fits => ih child isChild (wellFormed.of_child isChild) comes fits
    cases part with
    | expression value => exact finds_expression inner comesTo
    | statement form => exact finds_statement wellFormed inner comesTo fits
    | arguments values =>
      cases values with
      | nil => exact .nothing rfl rfl
      | cons first rest =>
        exact (inner ⟨.expression first, frames, walk⟩ firstArgument_child comesTo trivial).trans
          (inner ⟨.arguments rest, frames, _⟩ moreArguments_child
            (comesTo.afterExpression first) trivial)
    | statements forms =>
      cases forms with
      | nil => exact .nothing rfl rfl
      | cons first rest =>
        have isFirst := wellFormed.of_child firstStatement_child
        exact (inner ⟨.statement first, frames, walk⟩ firstStatement_child comesTo fits).trans
          (inner ⟨.statements rest, frames, _⟩ moreStatements_child (comesTo.past fits isFirst)
            (atRest_pastStatement fits first))
    | function kind body =>
      obtain ⟨parameters, forms⟩ := body
      obtain ⟨entered, found⟩ := comesTo.enterFunction kind ⟨parameters, forms⟩ parameters
      have foundThere := inner _ body_child entered atRest_cons
      exact ⟨(found.trans foundThere).diagnostics, (found.trans foundThere).references⟩
    | target node access name =>
      cases access with
      | read => exact Walk.finds_readVariable comesTo node name
      | write => exact Walk.finds_refer comesTo node name

end Site

/-! ### Programs -/

/-- What is wrong with a program, in the order of what occurs in it. -/
def defectsOf (program : List Stmt) : List Diagnostic :=
  (occurrencesOf program).filterMap Occurrence.defect?

/-- At the start, the walk is in no scope. -/
theorem Walk.comesTo_start : Walk.start.ComesTo [] :=
  ⟨.nil, rfl⟩

/-- The tree that is read from a token list is one of the grammar. -/
theorem derives_of_parsed {tokens : List Token} {nextNode next : Nat} {program : List Stmt}
    (parsed : parseProgram tokens nextNode = (.ok program, next)) :
    ∃ taken tree, Derives true .declarations taken tree ∧ tree nextNode = (program, next) := by
  obtain ⟨cursor, ran, clean, rfl⟩ := Parse.run_eq_ok.mp parsed
  obtain ⟨-, taken, tree, -, ⟨derives, -⟩, numbered⟩ :=
    (recognized _).declarations _ _ _ _ _ _ ran clean
  exact ⟨taken, tree, derives, numbered⟩

/-- **The walk over a program that is read finds all that occurs in it,** and nothing else. -/
theorem finds_of_parsed {tokens : List Token} {nextNode next : Nat} {program : List Stmt}
    (parsed : parseProgram tokens nextNode = (.ok program, next)) :
    Walk.start.Finds (walkStatements program .start) (occurrencesOf program) := by
  obtain ⟨taken, tree, derives, numbered⟩ := derives_of_parsed parsed
  have wellFormed := derives.wellFormed nextNode
  rw [numbered] at wellFormed
  exact Site.finds ⟨.statements program, [], .start⟩ (wellFormed _ _) Walk.comesTo_start nofun

/-- **The walk finds exactly what is wrong.** A program that is read is refused if and only if
something is wrong with what occurs in it: a `return` outside of every function; a name that is
declared in a block, or among the parameters or right in the body of a function, where it was
declared before; a variable that is read in its own initializer, outside of the functions there. The
diagnostics are one for each of these, in the order of the tree. Otherwise, the answer is all
references of the program. -/
theorem static_errors_are_exact {tokens : List Token} {nextNode next : Nat} {program : List Stmt}
    (parsed : parseProgram tokens nextNode = (.ok program, next)) :
    (walkStatements program .start).diagnostics = defectsOf program ∧
      (∀ diagnostics, resolve program = .error diagnostics ↔
        diagnostics = defectsOf program ∧ diagnostics ≠ []) ∧
      ∀ references, resolve program = .ok references ↔
        references = referencesOf program ∧ defectsOf program = [] := by
  have found : (walkStatements program .start).diagnostics = defectsOf program :=
    (finds_of_parsed parsed).diagnostics
  refine ⟨found, fun diagnostics => ?_, fun references => ?_⟩
  · unfold resolve Walk.result
    rw [found]
    by_cases clean : defectsOf program = []
    · simp [clean]
    · rw [if_neg (mt List.isEmpty_iff.mp clean), Except.error.injEq]
      grind
  · unfold resolve
    rw [Walk.result_eq_ok, found, and_comm]
    exact and_congr_left fun _ => eq_comm

/-- A program with each of the defects, of which one comes twice. -/
theorem finds_all_defects :
    ∃ program, parseProgram (tokensOf (Utf8.encode
        "fun f(a, a) \x7b \x7d \x7b var b = fun () \x7b b; \x7d; var b = b; \x7d return;")) 0 =
          (.ok program, 2) ∧
      resolve program = .error [⟨1, .atToken "a", .alreadyDeclared⟩,
        ⟨1, .atToken "b", .alreadyDeclared⟩,
        ⟨1, .atToken "b", .ownInitializer⟩, ⟨1, .atToken "return", .topLevelReturn⟩] := by
  obtain ⟨program, parsed, found⟩ : ∃ program, parseProgram (tokensOf (Utf8.encode
      "fun f(a, a) \x7b \x7d \x7b var b = fun () \x7b b; \x7d; var b = b; \x7d return;")) 0 =
        (.ok program, 2) ∧
      defectsOf program = [⟨1, .atToken "a", .alreadyDeclared⟩, ⟨1, .atToken "b", .alreadyDeclared⟩,
        ⟨1, .atToken "b", .ownInitializer⟩, ⟨1, .atToken "return", .topLevelReturn⟩] :=
          ⟨_, rfl, rfl⟩
  exact ⟨program, parsed, ((static_errors_are_exact parsed).2.1 _).mpr
    ⟨found.symm, List.cons_ne_nil _ _⟩⟩

end Lox
