/-
**What the walk finds in a program where a local variable has another name.**

* `Site.declared_once` — where the walk finds no defect, no two statements right in a scope
  declare the same name, nor one that was there before. So no function is declared next to
  the variable of a renaming.
* `Renaming.Suits` — the walk has found no defect in the program and the distances that the renaming
  knows, and the new name occurs nowhere.
* `Renaming.Scopes` — the open scopes of two walks, where those of the second name as the renaming
  says. `Scopes.reads`: a name under which something is referred to leads to the same scope in both.
* `Walk.Renames` — so do two walks. `Site.findsSame`: this stays so from part to part.
* `resolve_rename` — a renamed program is resolved, with the same distances.
-/

import Lox.Proofs.Grammar.Roles
import Lox.Proofs.Renaming
import Lox.Proofs.Scoping.Marks
import Lox.Proofs.Scoping.Nodes

namespace Lox

/-! ### Names that are declared -/

/-- Where a declaration is no defect, its name was not in the scope before. -/
theorem Walk.not_has_of_clean {walk : Walk} {name : Token} {innermost : Names Bool}
    {outer : List (Names Bool)} (scopes : walk.scopes = innermost :: outer)
    (clean : (walk.declare name).diagnostics = []) :
    innermost.has name.lexeme = false := by
  by_contra twice
  unfold Walk.declare Walk.innermost? at clean
  dsimp only at clean
  rw [scopes, List.head?_cons, Option.any_some, if_pos (Bool.not_eq_false _ ▸ twice)] at clean
  exact List.append_ne_nil_of_right_ne_nil _ (List.cons_ne_nil _ _) clean

/-- A walk that has found no defect had found none before. -/
theorem Walk.Before.clean {walk later : Walk} (before : walk.Before later)
    (clean : later.diagnostics = []) :
    walk.diagnostics = [] :=
  List.eq_nil_of_prefix_nil (clean ▸ before.diagnostics)

namespace Site

variable {frames : List Frame} {walk : Walk} {innermost : Names Bool} {outer : List (Names Bool)}

/-- Where a statement is no defect, the name that it declares was not in the scope before. -/
theorem not_has_of_clean {form : Stmt} {name : Token} (scopes : walk.scopes = innermost :: outer)
    (clean : (form.walk walk).diagnostics = []) (declares : form.declared? = some name) :
    innermost.has name.lexeme = false := by
  refine Walk.not_has_of_clean scopes ?_
  cases form with
  | var declared initializer =>
    obtain rfl := Option.some.inj declares
    cases initializer with
    | none => exact (Walk.before_define _ declared).clean clean
    | some initializer =>
      have before := walk_before ⟨.expression initializer, [], walk.declare declared⟩
      exact (before.trans (Walk.before_define _ declared)).clean clean
  | function declared body =>
    obtain rfl := Option.some.inj declares
    have before :=
      walk_before ⟨.function .function body, [], (walk.declare declared).define declared⟩
    exact ((Walk.before_define _ declared).trans before).clean clean
  | _ => cases declares

/-- **No two statements right in a scope declare the same name, nor one that was there before.** -/
theorem declared_once {forms : List Stmt}
    (wellFormed : WellFormed ⟨.statements forms, frames, walk⟩)
    (scopes : walk.scopes = innermost :: outer)
    (clean : (walkStatements forms walk).diagnostics = []) :
    (∀ form ∈ forms, ∀ name, form.declared? = some name → innermost.has name.lexeme = false) ∧
      ∀ form ∈ forms, ∀ other ∈ forms, ∀ name another, form.declared? = some name →
        other.declared? = some another → name.lexeme = another.lexeme → form = other := by
  induction forms generalizing walk innermost with
  | nil => exact ⟨nofun, nofun⟩
  | cons first rest ih =>
    have cleanFirst := (walk_before ⟨.statements rest, frames, first.walk walk⟩).clean clean
    have isFirst : WellFormed ⟨.statement first, frames, walk⟩ :=
      wellFormed.of_child (by simp [children])
    have isRest : WellFormed ⟨.statements rest, frames, first.walk walk⟩ :=
      wellFormed.of_child (by simp [children])
    have isNew (name : Token) (declares : first.declared? = some name) : innermost.has name.lexeme =
        false :=
      not_has_of_clean scopes cleanFirst declares
    have left := scopes_after isFirst
    cases declares : first.declared? with
    | none =>
      rw [declares] at left
      obtain ⟨isNewRest, once⟩ := ih isRest (left.trans scopes) clean
      refine ⟨List.forall_mem_cons.mpr ⟨isNew, isNewRest⟩, ?_⟩
      intro form isForm other isOther name another isName isAnother same
      rcases List.mem_cons.mp isForm with rfl | isFurther
      · cases declares.symm.trans isName
      · rcases List.mem_cons.mp isOther with rfl | otherIsFurther
        · cases declares.symm.trans isAnother
        · exact once form isFurther other otherIsFurther name another isName isAnother same
    | some declared =>
      have marked : (first.walk walk).scopes = innermost.set declared.lexeme true :: outer := by
        rw [left, declares, Walk.afterDeclaring, Walk.define, Walk.scopes_mark, scopes]
        rfl
      obtain ⟨isNewRest, once⟩ := ih isRest marked clean
      have further (form : Stmt) (isForm : form ∈ rest) (name : Token)
          (declares : form.declared? = some name) :
          name.lexeme ≠ declared.lexeme ∧ innermost.has name.lexeme = false := by
        have isNew := isNewRest form isForm name declares
        unfold Names.has at isNew ⊢
        rw [Names.get?_set] at isNew
        by_cases same : name.lexeme = declared.lexeme
        · rw [if_pos same] at isNew
          cases isNew
        · rw [if_neg same] at isNew
          exact ⟨same, isNew⟩
      refine ⟨List.forall_mem_cons.mpr ⟨isNew, fun form isForm name declares =>
        (further form isForm name declares).2⟩, ?_⟩
      intro form isForm other isOther name another isName isAnother same
      rcases List.mem_cons.mp isForm with rfl | isFurther
      · obtain rfl := Option.some.inj (declares.symm.trans isName)
        rcases List.mem_cons.mp isOther with rfl | isFurther
        · rfl
        · exact absurd same.symm (further other isFurther another isAnother).1
      · rcases List.mem_cons.mp isOther with rfl | otherIsFurther
        · obtain rfl := Option.some.inj (declares.symm.trans isAnother)
          exact absurd same (further form isFurther name isName).1
        · exact once form isFurther other otherIsFurther name another isName isAnother same

end Site

/-- The part declares no function of this name right where it stands. -/
def Part.Spares (name : String) : Part → Prop
  | .statement (.function declared _) => declared.lexeme ≠ name
  | .statements forms =>
    ∀ declared body, Stmt.function declared body ∈ forms → declared.lexeme ≠ name
  | _ => True

/-- What spares a name does so from statement to statement. -/
theorem Part.spares_cons {name : String} {first : Stmt} {rest : List Stmt}
    (spares : Part.Spares name (.statements (first :: rest))) :
    Part.Spares name (.statement first) ∧ Part.Spares name (.statements rest) := by
  refine ⟨?_, fun declared body isForm => spares declared body (List.mem_cons_of_mem _ isForm)⟩
  cases first with
  | function declared body => exact spares declared body List.mem_cons_self
  | _ => trivial

namespace Site

variable {frames : List Frame} {walk : Walk}

/-- **Next to a variable, no function of its name is declared.** -/
theorem spares_of_variable {forms : List Stmt} {innermost : Names Bool} {outer : List (Names Bool)}
    {name : String} (wellFormed : WellFormed ⟨.statements forms, frames, walk⟩)
    (scopes : walk.scopes = innermost :: outer)
    (clean : (walkStatements forms walk).diagnostics = [])
    (declares : innermost.has name = true ∨ declaresVariable name forms = true) :
    Part.Spares name (.statements forms) := by
  obtain ⟨isNew, once⟩ := declared_once wellFormed scopes clean
  rintro function body isFunction rfl
  rcases declares with before | declares
  · exact Bool.false_ne_true ((isNew _ isFunction function rfl).symm.trans before)
  · obtain ⟨form, isForm, isVariable⟩ := List.any_eq_true.mp declares
    cases form with
    | var declared initializer =>
      have same := once _ isForm _ isFunction declared function rfl rfl (eq_of_beq isVariable)
      cases same
    | _ => cases isVariable

end Site

/-! ### Scopes of both walks -/

namespace Renaming

/-- The open scopes of two walks. Those of the second name as the renaming says, and none of the
first has the new name. -/
inductive Scopes (change : Renaming) : List Bool → List (Names Bool) → List (Names Bool) → Prop
  | nil : Scopes change [] [] []
  | cons {isChosen : Bool} {names names' : Names Bool} {chosen : List Bool}
      {scopes scopes' : List (Names Bool)} :
      (∀ name, names'.get? (change.naming isChosen name) = names.get? name) →
      names.get? change.new = none → Scopes change chosen scopes scopes' →
      Scopes change (isChosen :: chosen) (names :: scopes) (names' :: scopes')

variable {change : Renaming}

/-- A name that a scope does not have, the other scope does not have under any name that it may
get. -/
theorem get?_none {isChosen : Bool} {names names' : Names Bool} {name : String}
    (same : ∀ name, names'.get? (change.naming isChosen name) = names.get? name)
    (unused : names.get? change.new = none) (isNot : name ≠ change.new)
    (missing : names.get? name = none) (elsewhere : Bool) :
    names'.get? (change.naming elsewhere name) = none := by
  have back (text : String) : names'.get? text = names.get? (change.naming isChosen text) := by
    rw [← same, naming_naming]
  rw [back]
  have either : change.naming isChosen (change.naming elsewhere name) = name ∨
      change.naming isChosen (change.naming elsewhere name) = change.new := by
    by_cases here : elsewhere = isChosen
    · rw [here, naming_naming]
      exact .inl rfl
    · cases isChosen with
      | false => exact change.naming_cases elsewhere isNot
      | true =>
        rw [Bool.eq_false_of_not_eq_true here]
        exact change.naming_cases true isNot
  rcases either with isName | isNew
  · rw [isName, missing]
  · rw [isNew, unused]

theorem distanceTo?_cons (name : String) (names : Names Bool) (scopes : List (Names Bool)) :
    distanceTo? name (names :: scopes) =
      if names.has name then some 0 else (distanceTo? name scopes).map (· + 1) :=
  List.findIdx?_cons

/-- **A name leads to the same scope in both walks**, if it is the one that this scope gives it. It
is pending in its own initializer in both, or in neither. -/
theorem Scopes.reads {chosen : List Bool} {scopes scopes' : List (Names Bool)} {name : String}
    (place : List Nat) (alike : change.Scopes chosen scopes scopes') (isNot : name ≠ change.new) :
    distanceTo? (change.naming (Spot.chosenAt ⟨place, chosen⟩ (distanceTo? name scopes)) name)
        scopes' = distanceTo? name scopes ∧
      (scopes'.head?.any fun names => names.get?
          (change.naming (Spot.chosenAt ⟨place, chosen⟩ (distanceTo? name scopes)) name) ==
            some false) =
        scopes.head?.any fun names => names.get? name == some false := by
  induction alike with
  | nil => exact ⟨rfl, rfl⟩
  | @cons isChosen names names' chosen scopes scopes' same unused alike ih =>
    rw [distanceTo?_cons, distanceTo?_cons]
    by_cases has : names.has name = true
    · have here : names'.get? (change.naming isChosen name) = names.get? name := same name
      rw [if_pos has]
      refine ⟨if_pos ?_, congrArg (· == some false) here⟩
      exact (congrArg Option.isSome here).trans has
    · have missing : names.get? name = none := Option.not_isSome_iff_eq_none.mp has
      rw [if_neg has]
      have outward (distance : Option Nat) :
          Spot.chosenAt ⟨place, isChosen :: chosen⟩ (distance.map (· + 1)) =
          Spot.chosenAt ⟨place, chosen⟩ distance := by cases distance <;> rfl
      rw [outward]
      have missing' :=
        get?_none same unused isNot missing
          (Spot.chosenAt ⟨place, chosen⟩ (distanceTo? name scopes))
      constructor
      · rw [if_neg (by rw [Names.has, missing']; exact Bool.false_ne_true), ih.1]
      · rw [List.head?_cons, List.head?_cons, Option.any_some, Option.any_some, missing, missing']

end Renaming

/-! ### Both walks -/

/-- The same node is accessed in the same way, with the same distance. -/
def Reference.Matches (reference other : Reference) : Prop :=
  other.node = reference.node ∧ other.access = reference.access ∧
    other.distance = reference.distance

/-- The second walk knows the same, of a renamed program. -/
structure Walk.Renames (change : Renaming) (chosen : List Bool) (walk later : Walk) : Prop where
  scopes : change.Scopes chosen walk.scopes later.scopes
  currentFunction : later.currentFunction = walk.currentFunction
  references : List.Forall₂ Reference.Matches walk.references later.references
  clean : later.diagnostics = [] ↔ walk.diagnostics = []

namespace Walk.Renames

variable {change : Renaming} {spot : Spot} {chosen : List Bool} {isChosen : Bool}
  {walk later : Walk}

theorem record (renames : walk.Renames change chosen later) (token other : Token)
    (defect : Defect) :
    (walk.record token defect).Renames change chosen (later.record other defect) :=
  ⟨renames.scopes, renames.currentFunction, renames.references,
    iff_of_false (List.append_ne_nil_of_right_ne_nil _ (List.cons_ne_nil _ _))
      (List.append_ne_nil_of_right_ne_nil _ (List.cons_ne_nil _ _))⟩

theorem openScope (renames : walk.Renames change chosen later) (isChosen : Bool) :
    walk.openScope.Renames change (isChosen :: chosen) later.openScope :=
  ⟨.cons (fun _ => rfl) rfl renames.scopes, renames.currentFunction, renames.references,
    renames.clean⟩

theorem closeScope (renames : walk.Renames change (isChosen :: chosen) later) :
    walk.closeScope.Renames change chosen later.closeScope := by
  refine ⟨?_, renames.currentFunction, renames.references, renames.clean⟩
  have scopes := renames.scopes
  unfold Walk.closeScope
  dsimp only
  generalize walk.scopes = before at scopes
  generalize later.scopes = after at scopes
  cases scopes with
  | cons _ _ outer => exact outer

theorem checkReturn (renames : walk.Renames change chosen later) (keyword : Token) :
    (walk.checkReturn keyword).Renames change chosen (later.checkReturn keyword) := by
  unfold Walk.checkReturn
  rw [renames.currentFunction]
  by_cases outside : walk.currentFunction = none
  · rw [if_pos outside, if_pos outside]
    exact renames.record keyword keyword _
  · rw [if_neg outside, if_neg outside]
    exact renames

section

variable {name name' : Token} (isNot : name.lexeme ≠ change.new)
  (named : name'.lexeme = change.naming (spot.chosenAt (some 0)) name.lexeme)

include isNot named

theorem mark (renames : walk.Renames change spot.chosen later) (readable : Bool) :
    (walk.mark name readable).Renames change spot.chosen (later.mark name' readable) := by
  obtain ⟨scopes, currentFunction, references, clean⟩ := renames
  obtain ⟨place, chosen⟩ := spot
  obtain ⟨before, _, _, _⟩ := walk
  obtain ⟨after, _, _, _⟩ := later
  cases scopes with
  | nil => exact ⟨.nil, currentFunction, references, clean⟩
  | @cons isChosen names names' chosen scopes scopes' same unused outer =>
    refine ⟨.cons (fun other => ?_) ?_ outer, currentFunction, references, clean⟩
    · rw [named, Names.get?_set, Names.get?_set, same]
      exact if_congr (change.naming isChosen).injective.eq_iff rfl rfl
    · rw [Names.get?_set, if_neg (Ne.symm isNot), unused]

omit isNot in
/-- The innermost scope has the name that is declared, or neither has it. -/
theorem has (renames : walk.Renames change spot.chosen later) :
    later.innermost?.any (·.has name'.lexeme) = walk.innermost?.any (·.has name.lexeme) := by
  obtain ⟨scopes, -, -, -⟩ := renames
  obtain ⟨place, chosen⟩ := spot
  obtain ⟨before, _, _, _⟩ := walk
  obtain ⟨after, _, _, _⟩ := later
  cases scopes with
  | nil => rfl
  | @cons isChosen names names' chosen scopes scopes' same =>
    rw [named]
    exact congrArg Option.isSome (same name.lexeme)

theorem declare (renames : walk.Renames change spot.chosen later) :
    (walk.declare name).Renames change spot.chosen (later.declare name') := by
  unfold Walk.declare
  dsimp only
  rw [renames.has named]
  by_cases twice : walk.innermost?.any (·.has name.lexeme) = true
  · rw [if_pos twice, if_pos twice]
    exact (renames.mark isNot named false).record _ _ _
  · rw [if_neg twice, if_neg twice]
    exact renames.mark isNot named false

theorem define (renames : walk.Renames change spot.chosen later) :
    (walk.define name).Renames change spot.chosen (later.define name') :=
  renames.mark isNot named true

end

section

variable {node : NodeId} {name : Token} (isNot : name.lexeme ≠ change.new)
  (distance : change.distance node = distanceTo? name.lexeme walk.scopes)

include isNot distance

theorem refer (renames : walk.Renames change spot.chosen later) (access : Access) :
    (walk.refer node access name).Renames change spot.chosen
      (later.refer node access (change.referred spot node name)) := by
  have leads := (renames.scopes.reads spot.place isNot).1
  refine ⟨renames.scopes, renames.currentFunction,
    List.rel_append renames.references (.cons ⟨rfl, rfl, ?_⟩ .nil), renames.clean⟩
  show distanceTo? (change.referred spot node name).lexeme later.scopes =
    distanceTo? name.lexeme walk.scopes
  rw [Renaming.referred, Renaming.lexeme_token isNot, distance]
  exact leads

theorem readVariable (renames : walk.Renames change spot.chosen later) :
    (walk.readVariable node name).Renames change spot.chosen
      (later.readVariable node (change.referred spot node name)) := by
  have same : later.inOwnInitializer (change.referred spot node name) =
      walk.inOwnInitializer name := by
    have pending := (renames.scopes.reads spot.place isNot).2
    rw [← distance, ← Renaming.lexeme_token isNot] at pending
    exact pending
  unfold Walk.readVariable
  rw [same]
  by_cases own : walk.inOwnInitializer name = true
  · rw [if_pos own, if_pos own]
    refine (renames.record _ _ _).refer isNot ?_ .read
    exact distance
  · rw [if_neg own, if_neg own]
    exact renames.refer isNot distance .read

end

theorem enterFunction (renames : walk.Renames change spot.chosen later) (kind : FunctionKind)
    (parameters : List Token) (unused : ∀ name ∈ parameters, name.lexeme ≠ change.new)
    (isChosen : Bool) :
    (walk.enterFunction kind parameters).Renames change (isChosen :: spot.chosen)
      (later.enterFunction kind (parameters.map (change.declared (spot.inside isChosen)))) := by
  unfold Walk.enterFunction
  have opened := renames.openScope isChosen
  have entered : Walk.Renames change (spot.inside isChosen).chosen
      { walk.openScope with currentFunction := some kind }
      { later.openScope with currentFunction := some kind } :=
    ⟨opened.scopes, rfl, opened.references, opened.clean⟩
  revert entered
  generalize ({ walk.openScope with currentFunction := some kind } : Walk) = outer
  generalize ({ later.openScope with currentFunction := some kind } : Walk) = other
  intro entered
  induction parameters generalizing outer other with
  | nil => exact entered
  | cons first rest ih =>
    obtain ⟨isNot, unused⟩ := List.forall_mem_cons.mp unused
    have named := change.lexeme_token isNot ((spot.inside isChosen).chosenAt (some 0))
    exact ih unused _ _ ((entered.declare isNot named).define isNot named)

end Walk.Renames

/-! ### The renamed program -/

/-- The walk has found no defect in the text, and for each place where a variable is read or
assigned the distance that the renaming knows. The new name occurs nowhere. -/
structure Renaming.Suits (change : Renaming) (root : Site) : Prop where
  wellFormed : root.WellFormed
  clean : root.after.diagnostics = []
  unused : ∀ token ∈ root.part.tokens, token.lexeme ≠ change.new
  distance : ∀ node access name frames walk, Within root ⟨.target node access name, frames, walk⟩ →
    change.distance node = distanceTo? name.lexeme walk.scopes

section

variable {change : Renaming} {root : Site}

/-- If the variable is renamed in the scope of the part, the part declares no function of its
name. -/
def Renaming.Spares (change : Renaming) (spot : Spot) (part : Part) : Prop :=
  spot.chosenAt (some 0) = true → part.Spares change.old

namespace Renaming.Suits

variable {spot : Spot} {forms : List Stmt} {frames : List Frame} {walk : Walk}

theorem ne_new (suits : change.Suits root) {site : Site} (within : Within root site) {name : Token}
    (isToken : name ∈ site.part.tokens) : name.lexeme ≠ change.new :=
  suits.unused name (within.tokens_subset isToken)

/-- Where the variable is renamed in a block, no function of its name is declared right there. -/
theorem spares_block (suits : change.Suits root)
    (within : Within root ⟨.statements forms, frames, walk.openScope⟩) :
    change.Spares (spot.inside (change.choosesBlock spot forms)) (.statements forms) := by
  intro isChosen
  have declares : declaresVariable change.old forms = true := (Bool.and_eq_true_iff.mp isChosen).2
  exact Site.spares_of_variable (suits.wellFormed.within within) rfl
    (within.before.clean suits.clean) (.inr declares)

/-- Where the variable is renamed in a function, no function of its name is
declared right in its body. -/
theorem spares_function {parameters : List Token} (suits : change.Suits root)
    (within : Within root ⟨.statements forms, frames, walk.enterFunction kind parameters⟩) :
    change.Spares (spot.inside (change.choosesFunction spot parameters forms))
      (.statements forms) := by
  intro isChosen
  have declares := Bool.or_eq_true_iff.mp (Bool.and_eq_true_iff.mp isChosen).2
  refine Site.spares_of_variable (suits.wellFormed.within within)
    (Walk.scopes_enterFunction walk kind parameters)
    (within.before.clean suits.clean) (declares.imp_left fun isParameter => ?_)
  obtain ⟨name, isName, same⟩ := List.any_eq_true.mp isParameter
  rw [Names.has, Names.get?_parameters, if_pos (List.mem_map.mpr ⟨name, isName, eq_of_beq same⟩)]
  rfl

end Renaming.Suits

/-- A statement that declares nothing spares all names. -/
theorem Part.spares_of_none {form : Stmt} (declares : form.declared? = none) (name : String) :
    Part.Spares name (.statement form) := by
  cases form with
  | function => cases declares
  | _ => trivial

/-- The walk over the renamed part finds the same as the walk over the part,
though under other names. -/
def Renaming.FindsSame (change : Renaming) (site : Site) : Prop :=
  ∀ (spot : Spot) (later : Walk), change.Spares spot site.part →
    site.walk.Renames change spot.chosen later →
    site.after.Renames change spot.chosen ((site.part.rename change spot).walk later)

namespace Renaming.FindsSame

variable {frames : List Frame} {walk : Walk}

theorem expression (suits : change.Suits root) {value : Expr}
    (within : Within root ⟨.expression value, frames, walk⟩)
    (ih : ∀ child ∈ Site.children ⟨.expression value, frames, walk⟩, change.FindsSame child) :
    change.FindsSame ⟨.expression value, frames, walk⟩ := by
  intro spot later _ renames
  have unused {name : Token} (isToken : name ∈ value.tokens) : name.lexeme ≠ change.new :=
    suits.ne_new within isToken
  have inner (index : Nat) (value' : Expr) (between : Walk) {later : Walk}
      (isChild : Site.mk (.expression value') frames between ∈ value.sites frames walk)
      (renames : between.Renames change spot.chosen later) :
      (value'.walk between).Renames change spot.chosen
        ((value'.rename change (spot.part index)).walk later) :=
    ih _ isChild (spot.part index) _ (fun _ => trivial) renames
  cases value with
  | literal => exact renames
  | grouping value | unary _ value => exact inner 0 value walk (by simp [Expr.sites]) renames
  | binary left _ right | logical left _ right =>
    have first := inner 0 left walk (by simp [Expr.sites]) renames
    exact inner 1 right (left.walk walk) (by simp [Expr.sites]) first
  | ternary condition _ yes no =>
    have decided := inner 0 condition walk (by simp [Expr.sites]) renames
    have first := inner 1 yes (condition.walk walk) (by simp [Expr.sites]) decided
    exact inner 2 no (yes.walk (condition.walk walk)) (by simp [Expr.sites]) first
  | «variable» node name =>
    have toTarget := within.step
      (by simp [Site.children, Expr.sites] : ⟨.target node .read name, frames, walk⟩ ∈ _)
    exact renames.readVariable (unused (by simp [Expr.tokens]))
      (suits.distance node .read name frames walk toTarget)
  | assign node name value =>
    have assigned := inner 0 value walk (by simp [Expr.sites]) renames
    have toTarget := within.step
      (by simp [Site.children, Expr.sites] : ⟨.target node .write name,
        frames, value.walk walk⟩ ∈ _)
    exact assigned.refer (unused (by simp [Expr.tokens]))
      (suits.distance node .write name frames _ toTarget) .write
  | call callee arguments closing =>
    have called := inner 0 callee walk (by simp [Expr.sites]) renames
    exact ih _ Site.arguments_child (spot.part 1) _ (fun _ => trivial) called
  | lambda keyword body => exact ih _ Site.lambda_child (spot.part 0) _ (fun _ => trivial) renames

theorem statement (suits : change.Suits root) {form : Stmt}
    (within : Within root ⟨.statement form, frames, walk⟩)
    (ih : ∀ child ∈ Site.children ⟨.statement form, frames, walk⟩, change.FindsSame child) :
    change.FindsSame ⟨.statement form, frames, walk⟩ := by
  intro spot later spares renames
  have unused {name : Token} (isToken : name ∈ form.tokens) : name.lexeme ≠ change.new :=
    suits.ne_new within isToken
  have inner (index : Nat) (value : Expr) (between : Walk) {later : Walk}
      (isChild : Site.mk (.expression value) frames between ∈ form.sites frames walk)
      (renames : between.Renames change spot.chosen later) :
      (value.walk between).Renames change spot.chosen
        ((value.rename change (spot.part index)).walk later) :=
    ih _ isChild (spot.part index) _ (fun _ => trivial) renames
  have branch (index : Nat) (form' : Stmt) (between : Walk) {later : Walk}
      (isChild : Site.mk (.statement form') frames between ∈ form.sites frames walk)
      (declares : form'.declared? = none) (renames : between.Renames change spot.chosen later) :
      (form'.walk between).Renames change spot.chosen
        ((form'.rename change (spot.part index)).walk later) :=
    ih _ isChild (spot.part index) _ (fun _ => Part.spares_of_none declares _) renames
  have apart := (Site.wellFormed_iff.mp (suits.wellFormed.within within)).1
  cases form with
  | expression value | print _ value => exact inner 0 value walk (by simp [Stmt.sites]) renames
  | var name initializer =>
    have isNot := unused (by cases initializer <;> simp [Stmt.tokens] : name ∈ _)
    have named := change.lexeme_token isNot (spot.chosenAt (some 0))
    have declared := renames.declare isNot named
    cases initializer with
    | none => exact declared.define isNot named
    | some initializer =>
      exact (inner 0 initializer (walk.declare name) (by simp [Stmt.sites]) declared).define
        isNot named
  | block forms =>
    exact (ih _ Site.block_child (spot.inside (change.choosesBlock spot forms)) _
      (suits.spares_block (within.step Site.block_child)) (renames.openScope _)).closeScope
  | «if» condition yes no =>
    have decided := inner 0 condition walk (by cases no <;> simp [Stmt.sites]) renames
    cases no with
    | none => exact branch 1 yes (condition.walk walk) (by simp [Stmt.sites]) apart.1 decided
    | some no =>
      have first := branch 1 yes (condition.walk walk) (by simp [Stmt.sites]) apart.1 decided
      exact branch 2 no (yes.walk (condition.walk walk)) (by simp [Stmt.sites])
        (apart.2 no rfl) first
  | «while» condition body =>
    have decided := inner 0 condition walk (by simp [Stmt.sites]) renames
    exact branch 1 body (condition.walk walk) (by simp [Stmt.sites]) apart decided
  | function name body =>
    have isNot := unused (by simp [Stmt.tokens] : name ∈ _)
    have named : name.lexeme = change.naming (spot.chosenAt (some 0)) name.lexeme :=
      (change.naming_of_ne _ spares isNot).symm
    exact ih _ Site.function_child (spot.part 0) _ (fun _ => trivial)
      ((renames.declare isNot named).define isNot named)
  | «return» keyword value =>
    cases value with
    | none => exact renames.checkReturn keyword
    | some value =>
      exact inner 0 value (walk.checkReturn keyword) (by simp [Stmt.sites])
        (renames.checkReturn keyword)

theorem function (suits : change.Suits root) {kind : FunctionKind} {parameters : List Token}
    {forms : List Stmt} (within : Within root ⟨.function kind ⟨parameters, forms⟩, frames, walk⟩)
    (ih : ∀ child ∈ Site.children ⟨.function kind ⟨parameters, forms⟩, frames, walk⟩,
      change.FindsSame child) :
    change.FindsSame ⟨.function kind ⟨parameters, forms⟩, frames, walk⟩ := by
  intro spot later _ renames
  have unused (name : Token) (isName : name ∈ parameters) : name.lexeme ≠ change.new :=
    suits.ne_new within (by simp [Part.tokens, FunctionBody.tokens, isName])
  have entered := renames.enterFunction kind parameters unused
    (change.choosesFunction spot parameters forms)
  have closed :=
    (ih _ Site.body_child (spot.inside _) _ (suits.spares_function (within.step Site.body_child))
    entered).closeScope
  exact ⟨closed.scopes, renames.currentFunction, closed.references, closed.clean⟩

end Renaming.FindsSame

/-- **The walk over a renamed part finds the same**, though under other names. -/
theorem Site.findsSame (suits : change.Suits root) (site : Site) (within : Within root site) :
    change.FindsSame site := by
  induction site using Site.induction with
  | step site ih =>
    have ih (child : Site) (isChild : child ∈ site.children) : change.FindsSame child :=
      ih child isChild (within.step isChild)
    obtain ⟨part, frames, walk⟩ := site
    cases part with
    | expression value => exact .expression suits within ih
    | statement form => exact .statement suits within ih
    | function kind body =>
      obtain ⟨parameters, forms⟩ := body
      exact .function suits within ih
    | arguments values =>
      intro spot later _ renames
      cases values with
      | nil => exact renames
      | cons first rest =>
        have evaluated := ih _ firstArgument_child (spot.part 0) _ (fun _ => trivial) renames
        exact ih _ moreArguments_child (spot.part 1) _ (fun _ => trivial) evaluated
    | statements forms =>
      intro spot later spares renames
      cases forms with
      | nil => exact renames
      | cons first rest =>
        have both (isChosen : spot.chosenAt (some 0) = true) := Part.spares_cons (spares isChosen)
        have executed := ih _ firstStatement_child (spot.part 0) _
          (fun isChosen => (both isChosen).1) renames
        exact ih _ moreStatements_child (spot.part 1) _ (fun isChosen => (both isChosen).2) executed
    | target node access name =>
      intro spot later _ renames
      have isNot := suits.ne_new within (by simp [Part.tokens] : name ∈ _)
      have distance := suits.distance node access name frames walk within
      cases access with
      | read => exact renames.readVariable isNot distance
      | write => exact renames.refer isNot distance .write

/-- **A renamed program is resolved, and its nodes have the same distances.** -/
theorem resolve_rename {program : List Stmt} {references : List Reference}
    (suits : change.Suits (.outermost (.statements program)))
    (resolved : resolve program = .ok references) :
    ∃ others, resolve (renameStatements change program .start) = .ok others ∧
      List.Forall₂ Reference.Matches references others := by
  obtain ⟨clean, rfl⟩ := Walk.result_eq_ok.mp resolved
  have start : Walk.start.Renames change Spot.start.chosen .start := ⟨.nil, rfl, .nil, Iff.rfl⟩
  have renames := Site.findsSame suits _ (.refl _) .start .start
    (fun isChosen => absurd isChosen Bool.false_ne_true) start
  exact ⟨_, Walk.result_eq_ok.mpr ⟨renames.clean.mpr clean, rfl⟩, renames.references⟩

end

end Lox
