/-
**What the trees of derivations have in common.**

* `Fresh low high nodes` — the nodes are different from one another, and numbered from `low` on and
  below `high`.
* `Derives.fresh` — the nodes of a tree are fresh between the index it is
  numbered from and the next.
* `Derives.wellFormed` — in the tree of a program, no branch and no body of a loop declares
  anything.
-/

import Lox.Proofs.Grammar
import Lox.Proofs.Scoping.Marks
import Lox.Proofs.Scoping.Nodes

namespace Lox

/-! ### Fresh nodes -/

/-- Different nodes, numbered from `low` on and below `high`. -/
structure Fresh (low high : Nat) (nodes : List NodeId) : Prop where
  le : low ≤ high
  nodup : nodes.Nodup
  bounds : ∀ node ∈ nodes, low ≤ node.index ∧ node.index < high

namespace Fresh

variable {low middle high : Nat} {nodes others : List NodeId}

theorem nil (low : Nat) : Fresh low low [] :=
  ⟨Nat.le_refl low, List.nodup_nil, nofun⟩

theorem single (low : Nat) : Fresh low (low + 1) [⟨low⟩] := by
  refine ⟨Nat.le_succ low, List.nodup_singleton _, fun node isNode => ?_⟩
  obtain rfl := List.mem_singleton.mp isNode
  exact ⟨Nat.le_refl low, Nat.lt_succ_self low⟩

theorem append (first : Fresh low middle nodes) (second : Fresh middle high others) :
    Fresh low high (nodes ++ others) := by
  refine ⟨Nat.le_trans first.le second.le, ?_, fun node isNode => ?_⟩
  · refine List.nodup_append.mpr ⟨first.nodup, second.nodup, ?_⟩
    rintro node inFirst other inSecond rfl
    have := (first.bounds node inFirst).2
    have := (second.bounds node inSecond).1
    omega
  · rcases List.mem_append.mp isNode with inFirst | inSecond
    · exact ⟨(first.bounds node inFirst).1,
        Nat.lt_of_lt_of_le (first.bounds node inFirst).2 second.le⟩
    · exact ⟨Nat.le_trans first.le (second.bounds node inSecond).1, (second.bounds node inSecond).2⟩

theorem of_eq (fresh : Fresh low high nodes) (same : nodes = others) : Fresh low high others :=
  same ▸ fresh

theorem perm (fresh : Fresh low high nodes) (same : nodes.Perm others) : Fresh low high others :=
  ⟨fresh.le, same.nodup_iff.mp fresh.nodup,
    fun node isNode => fresh.bounds node (same.mem_iff.mpr isNode)⟩

/-- An index that was passed over belongs to no node. -/
theorem weaken (fresh : Fresh (low + 1) high nodes) : Fresh low high nodes :=
  ⟨Nat.le_of_succ_le fresh.le, fresh.nodup,
    fun node isNode => ⟨Nat.le_of_succ_le (fresh.bounds node isNode).1,
      (fresh.bounds node isNode).2⟩⟩

end Fresh

/-! ### The nodes of trees -/

/-- The nodes of an expression, if there is one. -/
def nodesOfOptional (value : Option Expr) : List NodeId :=
  value.elim [] Expr.nodes

/-- The nodes of the tree of a phrase. -/
def Phrase.nodes : (phrase : Phrase) → phrase.Tree → List NodeId
  | .declarations, forms => nodesOfStatements forms
  | .declaration _, form | .variable, form | .statement _, form
  | .expressionStatement, form => form.nodes
  | .initializer, value | .optional, value => nodesOfOptional value
  | .forInitializer, form => Option.elim form [] Stmt.nodes
  | .function, body => body.nodes
  | .expression, value | .ternary, value | .binary _, value | .operand _, value | .unary, value
  | .call, value | .primary, value => Expr.nodes value
  | .joined _, others => others.flatMap fun other => other.2.nodes
  | .calls, lists => lists.flatMap fun list => nodesOfArguments list.1
  | .arguments, values | .argumentList _, values => nodesOfArguments values

theorem Level.nodes_joinAll (level : Level) (left : Expr) (others : List (Token × Expr)) :
    (level.joinAll left others).nodes =
      left.nodes ++ others.flatMap fun other => other.2.nodes := by
  induction others generalizing left with
  | nil => exact (List.append_nil _).symm
  | cons other rest ih =>
    have joined : (level.join left other.1 other.2).nodes = left.nodes ++ other.2.nodes := by
      cases level <;> rfl
    have unfolded : level.joinAll left (other :: rest) =
      level.joinAll (level.join left other.1 other.2) rest := rfl
    rw [unfolded, ih, joined, List.flatMap_cons, List.append_assoc]

theorem Expr.nodes_callAll (callee : Expr) (calls : List (List Expr × Token)) :
    (callee.callAll calls).nodes =
      callee.nodes ++ calls.flatMap fun call => nodesOfArguments call.1 := by
  induction calls generalizing callee with
  | nil => exact (List.append_nil _).symm
  | cons call rest ih =>
    have unfolded : callee.callAll (call :: rest) = (Expr.call callee call.1 call.2).callAll rest :=
      rfl
    rw [unfolded, ih, Expr.nodes, List.flatMap_cons, List.append_assoc]

/-- The nodes of a `for` loop: its body comes before its increment. -/
theorem Stmt.nodes_forLoop (initializer : Option Stmt) (condition increment : Option Expr)
    (body : Stmt) :
    (Stmt.forLoop initializer condition increment body).nodes =
      Option.elim initializer [] Stmt.nodes ++ nodesOfOptional condition ++ body.nodes ++
        nodesOfOptional increment := by
  cases initializer <;> cases condition <;> cases increment <;>
    simp [Stmt.forLoop, Stmt.withInitializer, Stmt.withIncrement, Stmt.nodes, nodesOfStatements,
      nodesOfOptional, Expr.nodes]

/-- **The nodes of a tree are numbered in order, and no number comes twice.** -/
theorem Derives.fresh {nearest : Bool} {phrase : Phrase} {tokens : List Token}
    {tree : Numbered phrase.Tree} (derives : Derives nearest phrase tokens tree) (index : Nat) :
    Fresh index (tree index).2 (phrase.nodes (tree index).1) := by
  induction derives generalizing index with
  | noDeclarations | noOperators | noCalls | noArguments | noInitializer | nothing | forNothing
  | literal => exact .nil index
  | moreDeclarations _ _ first others => exact (first index).append (others _)
  | functionDeclaration _ _ _ ih | variableDeclaration _ _ ih | statementDeclaration _ ih
  | ofExpression _ ih | expressionStatement _ _ ih | print _ _ _ ih | block _ _ _ ih
  | initializer _ _ ih
  | something _ ih | forVariable _ _ ih | forExpression _ ih | function _ _ _ _ _ _ _ ih
  | ofTernary _ ih
  | ofBinary _ ih | ofTighter _ _ ih | ofUnary _ _ ih | ofCall _ ih | unary _ _ _ ih
  | group _ _ _ ih
  | lambda _ _ ih | someArguments _ _ ih => exact ih index
  | declared name _ _ ih =>
    have nodes : ∀ value, (Stmt.var name.1 value).nodes = nodesOfOptional value := by
      rintro (_ | _) <;> rfl
    refine (ih index).of_eq ?_
    exact (nodes _).symm
  | returning keyword _ _ ih =>
    have nodes : ∀ value, (Stmt.return keyword.1 value).nodes = nodesOfOptional value := by
      rintro (_ | _) <;> rfl
    refine (ih index).of_eq ?_
    exact (nodes _).symm
  | ifThen _ _ _ _ _ condition yes => exact (condition index).append (yes _)
  | ifElse _ _ _ _ _ _ _ _ condition yes no =>
    exact ((condition index).append (yes _)).append (no _)
  | whileLoop _ _ _ _ _ condition body => exact (condition index).append (body _)
  | forLoop _ _ _ _ _ _ _ _ initial condition increment body =>
    have inOrder := (((initial index).append (condition _)).append (increment _)).append (body _)
    refine inOrder.perm ?_
    refine List.Perm.trans ?_ (.of_eq (Stmt.nodes_forLoop _ _ _ _).symm)
    rw [List.append_assoc, List.append_assoc _ (Stmt.nodes _)]
    exact List.perm_append_comm.append_left _
  | assign _ _ _ ih => exact ((ih (index + 1)).append (.single _)).weaken
  | ternary _ _ _ _ _ condition yes no => exact ((condition index).append (yes _)).append (no _)
  | binary _ _ left others =>
    refine ((left index).append (others _)).of_eq ?_
    exact (Level.nodes_joinAll _ _ _).symm
  | moreOperators _ _ _ _ right others => exact (right index).append (others _)
  | call _ _ callee calls =>
    refine ((callee index).append (calls _)).of_eq ?_
    exact (Expr.nodes_callAll _ _).symm
  | moreCalls _ _ _ _ values others => exact (values index).append (others _)
  | oneArgument _ ih => exact (ih index).of_eq (List.append_nil _).symm
  | moreArguments _ _ _ value others => exact (value index).append (others _)
  | name => exact .single index

/-! ### Branches and bodies of loops -/

/-- Wherever this part stands, no branch and no body of a loop in it declares anything. -/
def Part.WellFormed (part : Part) : Prop :=
  ∀ frames walk, Site.WellFormed ⟨part, frames, walk⟩

/-- The parts right within a part, wherever it stands. -/
def Part.Contains (part : Part) (parts : List Part) : Prop :=
  ∀ frames walk, (Site.children ⟨part, frames, walk⟩).map Site.part = parts

/-- In the tree of a phrase, no branch and no body of a loop declares anything, and a
statement does not either. -/
def Phrase.WellFormed : (phrase : Phrase) → phrase.Tree → Prop
  | .declarations, forms => Part.WellFormed (.statements forms)
  | .declaration _, form | .variable, form => Part.WellFormed (.statement form)
  | .statement _, form | .expressionStatement, form =>
    Part.WellFormed (.statement form) ∧ Stmt.declared? form = none
  | .initializer, value | .optional, value => ∀ inner : Expr, value = some inner →
    Part.WellFormed (.expression inner)
  | .forInitializer, form => ∀ inner : Stmt, form = some inner → Part.WellFormed (.statement inner)
  | .function, body => ∀ kind, Part.WellFormed (.function kind body)
  | .expression, value | .ternary, value | .binary _, value | .operand _, value | .unary, value
  | .call, value | .primary, value => Part.WellFormed (.expression value)
  | .joined _, others => ∀ other ∈ others, Part.WellFormed (.expression other.2)
  | .calls, lists => ∀ list ∈ lists, Part.WellFormed (.arguments list.1)
  | .arguments, values | .argumentList _, values => Part.WellFormed (.arguments values)

namespace Part.WellFormed

variable {part first second third : Part}

theorem of_parts {parts : List Part} (apart : part.DeclaresApart) (contains : part.Contains parts)
    (inner : ∀ one ∈ parts, one.WellFormed) : part.WellFormed := by
  refine fun frames walk => Site.wellFormed_iff.mpr ⟨apart, fun child isChild => ?_⟩
  have isPart : child.part ∈ parts := contains frames walk ▸ List.mem_map_of_mem isChild
  exact inner child.part isPart child.frames child.walk

theorem of_none (apart : part.DeclaresApart) (contains : part.Contains []) : part.WellFormed :=
  of_parts apart contains nofun

theorem of_one (apart : part.DeclaresApart) (contains : part.Contains [first])
    (isFirst : first.WellFormed) : part.WellFormed :=
  of_parts apart contains (by simpa using isFirst)

theorem of_two (apart : part.DeclaresApart) (contains : part.Contains [first, second])
    (isFirst : first.WellFormed) (isSecond : second.WellFormed) : part.WellFormed :=
  of_parts apart contains (by simpa using ⟨isFirst, isSecond⟩)

theorem of_three (apart : part.DeclaresApart) (contains : part.Contains [first, second, third])
    (isFirst : first.WellFormed) (isSecond : second.WellFormed) (isThird : third.WellFormed) :
    part.WellFormed :=
  of_parts apart contains (by simpa using ⟨isFirst, isSecond, isThird⟩)

theorem noStatements : Part.WellFormed (.statements []) :=
  of_none trivial fun _ _ => rfl

theorem statements {first : Stmt} {rest : List Stmt} (isFirst : Part.WellFormed (.statement first))
    (isRest : Part.WellFormed (.statements rest)) : Part.WellFormed (.statements (first :: rest)) :=
  of_two trivial (fun _ _ => rfl) isFirst isRest

theorem noArguments : Part.WellFormed (.arguments []) :=
  of_none trivial fun _ _ => rfl

theorem arguments {first : Expr} {rest : List Expr} (isFirst : Part.WellFormed (.expression first))
    (isRest : Part.WellFormed (.arguments rest)) : Part.WellFormed (.arguments (first :: rest)) :=
  of_two trivial (fun _ _ => rfl) isFirst isRest

theorem target (node : NodeId) (access : Access) (name : Token) :
    Part.WellFormed (.target node access name) :=
  of_none trivial fun _ _ => rfl

theorem block {forms : List Stmt} (inner : Part.WellFormed (.statements forms)) :
    Part.WellFormed (.statement (.block forms)) :=
  of_one trivial (fun _ _ => rfl) inner

theorem «while» {condition : Expr} {body : Stmt}
    (isCondition : Part.WellFormed (.expression condition))
    (isBody : Part.WellFormed (.statement body)) (apart : body.declared? = none) :
    Part.WellFormed (.statement (.while condition body)) :=
  of_two apart (fun _ _ => rfl) isCondition isBody

theorem forLoop {initializer : Option Stmt} {condition increment : Option Expr} {body : Stmt}
    (isInitializer : Phrase.WellFormed .forInitializer initializer)
    (isCondition : Phrase.WellFormed .optional condition)
    (isIncrement : Phrase.WellFormed .optional increment)
    (isBody : Part.WellFormed (.statement body)) (apart : body.declared? = none) :
    Part.WellFormed (.statement (.forLoop initializer condition increment body)) ∧
      (Stmt.forLoop initializer condition increment body).declared? = none := by
  have repeated : Part.WellFormed (.statement (body.withIncrement increment)) ∧
      (body.withIncrement increment).declared? = none := by
    cases increment with
    | none => exact ⟨isBody, apart⟩
    | some increment =>
      have last : Part.WellFormed (.statement (.expression increment)) :=
        of_one trivial (fun _ _ => rfl) (isIncrement _ rfl)
      exact ⟨(isBody.statements (last.statements noStatements)).block, rfl⟩
  have decided : Part.WellFormed (.expression (condition.getD (.literal .true))) := by
    cases condition with
    | none => exact of_none trivial fun _ _ => rfl
    | some condition => exact isCondition _ rfl
  have loop := decided.while repeated.1 repeated.2
  cases initializer with
  | none => exact ⟨loop, rfl⟩
  | some initializer =>
    exact ⟨((isInitializer _ rfl).statements (loop.statements noStatements)).block, rfl⟩

theorem joinAll {level : Level} {left : Expr} {others : List (Token × Expr)}
    (isLeft : Part.WellFormed (.expression left))
    (areOthers : Phrase.WellFormed (.joined level) others) :
    Part.WellFormed (.expression (level.joinAll left others)) := by
  induction others generalizing left with
  | nil => exact isLeft
  | cons other rest ih =>
    refine ih ?_ fun inner isInner => areOthers inner (List.mem_cons_of_mem _ isInner)
    have isRight := areOthers other List.mem_cons_self
    cases level <;> exact of_two trivial (fun _ _ => rfl) isLeft isRight

theorem callAll {callee : Expr} {calls : List (List Expr × Token)}
    (isCallee : Part.WellFormed (.expression callee)) (areCalls : Phrase.WellFormed .calls calls) :
    Part.WellFormed (.expression (callee.callAll calls)) := by
  induction calls generalizing callee with
  | nil => exact isCallee
  | cons call rest ih =>
    refine ih ?_ fun inner isInner => areCalls inner (List.mem_cons_of_mem _ isInner)
    exact of_two trivial (fun _ _ => rfl) isCallee (areCalls call List.mem_cons_self)

end Part.WellFormed

open Part.WellFormed in
/-- **In the tree of a derivation, no branch and no body of a loop declares anything.** -/
theorem Derives.wellFormed {nearest : Bool} {phrase : Phrase} {tokens : List Token}
    {tree : Numbered phrase.Tree} (derives : Derives nearest phrase tokens tree) (index : Nat) :
    phrase.WellFormed (tree index).1 := by
  induction derives generalizing index with
  | noDeclarations => exact noStatements
  | noArguments => exact Part.WellFormed.noArguments
  | noOperators | noCalls | noInitializer | nothing | forNothing => exact nofun
  | moreDeclarations _ _ first others => exact (first index).statements (others _)
  | functionDeclaration _ _ _ ih => exact of_one trivial (fun _ _ => rfl) (ih index .function)
  | variableDeclaration _ _ ih | someArguments _ _ ih | ofTernary _ ih
  | ofBinary _ ih | ofTighter _ _ ih
  | ofUnary _ _ ih | ofCall _ ih | ofExpression _ ih => exact ih index
  | statementDeclaration _ ih => exact (ih index).1
  | @declared name _ _ value _ ih =>
    have isValue := ih index
    show Part.WellFormed (.statement (.var name (value index).1))
    cases found : (value index).1 with
    | none => exact of_none trivial fun _ _ => rfl
    | some inner => exact of_one trivial (fun _ _ => rfl) (isValue inner found)
  | initializer _ _ ih | something _ ih | forVariable _ _ ih =>
    rintro inner isInner
    obtain rfl := Option.some.inj isInner
    exact ih index
  | forExpression _ ih =>
    rintro inner isInner
    obtain rfl := Option.some.inj isInner
    exact (ih index).1
  | expressionStatement _ _ ih | print _ _ _ ih =>
    exact ⟨of_one trivial (fun _ _ => rfl) (ih index), rfl⟩
  | @returning keyword _ _ value _ ih =>
    have isValue := ih index
    refine ⟨?_, rfl⟩
    show Part.WellFormed (.statement (.return keyword (value index).1))
    cases found : (value index).1 with
    | none => exact of_none trivial fun _ _ => rfl
    | some inner => exact of_one trivial (fun _ _ => rfl) (isValue inner found)
  | block _ _ _ ih => exact ⟨(ih index).block, rfl⟩
  | ifThen _ _ _ _ _ condition yes =>
    exact ⟨of_two ⟨(yes _).2, nofun⟩ (fun _ _ => rfl) (condition index) (yes _).1, rfl⟩
  | ifElse _ _ _ _ _ _ _ _ condition yes no =>
    refine ⟨of_three ⟨(yes _).2, ?_⟩ (fun _ _ => rfl) (condition index) (yes _).1 (no _).1, rfl⟩
    rintro other isOther
    obtain rfl := Option.some.inj isOther
    exact (no _).2
  | whileLoop _ _ _ _ _ condition body =>
    exact ⟨(condition index).while (body _).1 (body _).2, rfl⟩
  | forLoop _ _ _ _ _ _ _ _ initial condition increment body =>
    exact Part.WellFormed.forLoop (initial index) (condition _) (increment _) (body _).1 (body _).2
  | function _ _ _ _ _ _ _ ih => exact fun _ => of_one trivial (fun _ _ => rfl) (ih index)
  | assign _ _ _ ih => exact of_two trivial (fun _ _ => rfl) (ih _) (target _ _ _)
  | ternary _ _ _ _ _ condition yes no =>
    exact of_three trivial (fun _ _ => rfl) (condition index) (yes _) (no _)
  | binary _ _ left others => exact (left index).joinAll (others _)
  | moreOperators _ _ _ _ right others => exact List.forall_mem_cons.mpr ⟨right index, others _⟩
  | unary _ _ _ ih | group _ _ _ ih => exact of_one trivial (fun _ _ => rfl) (ih index)
  | lambda _ _ ih => exact of_one trivial (fun _ _ => rfl) (ih index .lambda)
  | call _ _ callee calls => exact (callee index).callAll (calls _)
  | moreCalls _ _ _ _ values others => exact List.forall_mem_cons.mpr ⟨values index, others _⟩
  | oneArgument _ ih => exact (ih index).arguments Part.WellFormed.noArguments
  | moreArguments _ _ _ value others => exact (value index).arguments (others _)
  | literal => exact of_none trivial fun _ _ => rfl
  | name => exact of_one trivial (fun _ _ => rfl) (target _ _ _)

end Lox
