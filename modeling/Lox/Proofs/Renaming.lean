/-
**Local variables under other names.**

* `Renaming` — one declaration of a local variable or a parameter, by the block or the
  function that it stands in and by its name, and another name for it. What refers to it is
  known by the distances of nodes.
* `Spot` — where in a program one is, and in which of the scopes around the
  variable is to be renamed.
* `Expr.rename`, `Stmt.rename` and so on put a renaming into effect: at the declaration, and
  wherever a variable of that name is read or assigned whose distance leads to the scope of the
  declaration. The names of declared functions stay.
* `Renaming.naming` — what a scope of the program calls its variables in the renamed program.
  `lexeme_declared`, `lexeme_referred`: names are renamed as the scope says that they belong to.
-/

import Lox.Proofs.Evaluation.Accord

namespace Lox

/-- A declaration of a variable or a parameter, and another name for it. -/
structure Renaming where
  /-- Where the block or the function stands in the program: which part one goes to at each step on
  the way there, the last step first. -/
  scope : List Nat
  old : String
  new : String
  /-- The distance of the variable that is read or assigned at a node; none if it is global. -/
  distance : NodeId → Option Nat

/-- A place in a program. -/
structure Spot where
  /-- Which part one goes to at each step on the way there, the last step first. -/
  place : List Nat
  /-- Whether the variable is renamed in the scopes around, innermost first. -/
  chosen : List Bool

namespace Spot

/-- The outermost place. -/
def start : Spot :=
  ⟨[], []⟩

/-- The place of one of the parts right within. -/
def part (spot : Spot) (index : Nat) : Spot :=
  { spot with place := index :: spot.place }

/-- The place within a scope that is opened here. -/
def inside (spot : Spot) (isChosen : Bool) : Spot :=
  ⟨0 :: spot.place, isChosen :: spot.chosen⟩

/-- Whether the variable is renamed in the scope that a distance leads to. Global variables are
not. -/
def chosenAt (spot : Spot) : (distance : Option Nat) → Bool
  | some distance => spot.chosen.getD distance false
  | none => false

end Spot

/-- Whether a variable of this name is declared right among the statements. -/
def declaresVariable (name : String) (forms : List Stmt) : Bool :=
  forms.any fun
    | .var declared _ => declared.lexeme == name
    | _ => false

namespace Renaming

/-- The token where the variable is renamed if it is the one. -/
def token (change : Renaming) (isChosen : Bool) (name : Token) : Token :=
  if isChosen && name.lexeme == change.old then { name with lexeme := change.new } else name

/-- The name of a variable that is declared at a place. -/
def declared (change : Renaming) (spot : Spot) (name : Token) : Token :=
  change.token (spot.chosenAt (some 0)) name

/-- The name of a variable that is read or assigned at a place. -/
def referred (change : Renaming) (spot : Spot) (node : NodeId) (name : Token) : Token :=
  change.token (spot.chosenAt (change.distance node)) name

/-- Whether the declaration stands right in the block. -/
def choosesBlock (change : Renaming) (spot : Spot) (forms : List Stmt) : Bool :=
  spot.place == change.scope && declaresVariable change.old forms

/-- Whether the declaration is a parameter of the function, or stands right in its body. -/
def choosesFunction (change : Renaming) (spot : Spot) (parameters : List Token)
    (forms : List Stmt) : Bool :=
  spot.place == change.scope &&
    (parameters.any (·.lexeme == change.old) || declaresVariable change.old forms)

end Renaming

/-! ### Renamed trees -/

mutual

/-- The expression at a place, under the new name. -/
def Expr.rename (change : Renaming) : Expr → Spot → Expr
  | .literal value, _ => .literal value
  | .grouping inner, spot => .grouping (inner.rename change (spot.part 0))
  | .unary operator right, spot => .unary operator (right.rename change (spot.part 0))
  | .binary left operator right, spot =>
    .binary (left.rename change (spot.part 0)) operator (right.rename change (spot.part 1))
  | .logical left operator right, spot =>
    .logical (left.rename change (spot.part 0)) operator (right.rename change (spot.part 1))
  | .ternary condition question yes no, spot =>
    .ternary (condition.rename change (spot.part 0)) question (yes.rename change (spot.part 1))
      (no.rename change (spot.part 2))
  | .variable node name, spot => .variable node (change.referred spot node name)
  | .assign node name value, spot =>
    .assign node (change.referred spot node name) (value.rename change (spot.part 0))
  | .call callee arguments closing, spot =>
    .call (callee.rename change (spot.part 0))
      (renameArguments change arguments (spot.part 1)) closing
  | .lambda keyword body, spot => .lambda keyword (body.rename change (spot.part 0))

/-- The expressions at a place, under the new name. -/
def renameArguments (change : Renaming) : List Expr → Spot → List Expr
  | [], _ => []
  | first :: rest, spot =>
    first.rename change (spot.part 0) :: renameArguments change rest (spot.part 1)

/-- The statement at a place, under the new name. -/
def Stmt.rename (change : Renaming) : Stmt → Spot → Stmt
  | .expression value, spot => .expression (value.rename change (spot.part 0))
  | .print keyword value, spot => .print keyword (value.rename change (spot.part 0))
  | .var name none, spot => .var (change.declared spot name) none
  | .var name (some initializer), spot =>
    .var (change.declared spot name) (some (initializer.rename change (spot.part 0)))
  | .block forms, spot =>
    .block (renameStatements change forms (spot.inside (change.choosesBlock spot forms)))
  | .if condition yes none, spot =>
    .if (condition.rename change (spot.part 0)) (yes.rename change (spot.part 1)) none
  | .if condition yes (some no), spot =>
    .if (condition.rename change (spot.part 0)) (yes.rename change (spot.part 1))
      (some (no.rename change (spot.part 2)))
  | .while condition body, spot =>
    .while (condition.rename change (spot.part 0)) (body.rename change (spot.part 1))
  | .function name body, spot => .function name (body.rename change (spot.part 0))
  | .return keyword none, _ => .return keyword none
  | .return keyword (some value), spot => .return keyword (some (value.rename change (spot.part 0)))

/-- The statements at a place, under the new name. -/
def renameStatements (change : Renaming) : List Stmt → Spot → List Stmt
  | [], _ => []
  | first :: rest, spot =>
    first.rename change (spot.part 0) :: renameStatements change rest (spot.part 1)

/-- The body of the function at a place, under the new name. -/
def FunctionBody.rename (change : Renaming) : FunctionBody → Spot → FunctionBody
  | ⟨parameters, forms⟩, spot =>
    ⟨parameters.map (change.declared (spot.inside (change.choosesFunction spot parameters forms))),
      renameStatements change forms (spot.inside (change.choosesFunction spot parameters forms))⟩

end

/-- Of `{ var a; { var a; a; } a; fun f() { a; } }`, the outer variable is renamed: in its
declaration, and where it is read in the block and in the function. -/
example (a b f : Token) (isOld : a = ⟨.identifier, "a", 1⟩) (isNew : b = ⟨.identifier, "b", 1⟩) :
    renameStatements ⟨[0], "a", "b", fun node => some (if node = ⟨2⟩ then 1 else 0)⟩
        [.block [.var a none, .block [.var a none, .expression (.variable ⟨0⟩ a)],
          .expression (.variable ⟨1⟩ a), .function f ⟨[], [.expression (.variable ⟨2⟩ a)]⟩]]
          .start =
      [.block [.var b none, .block [.var a none, .expression (.variable ⟨0⟩ a)],
        .expression (.variable ⟨1⟩ b), .function f ⟨[], [.expression (.variable ⟨2⟩ b)]⟩]] := by
  subst isOld isNew
  rfl

/-- The part at a place, under the new name. -/
def Part.rename (change : Renaming) : Part → Spot → Part
  | .expression value, spot => .expression (value.rename change spot)
  | .arguments values, spot => .arguments (renameArguments change values spot)
  | .statement form, spot => .statement (form.rename change spot)
  | .statements forms, spot => .statements (renameStatements change forms spot)
  | .function kind body, spot => .function kind (body.rename change spot)
  | .target node access name, spot => .target node access (change.referred spot node name)

/-! ### Names of scopes -/

namespace Renaming

variable {change : Renaming} {spot : Spot} {name : Token}

/-- What a scope calls its variables in the renamed program. -/
def naming (change : Renaming) (isChosen : Bool) : Naming :=
  if isChosen then Equiv.swap change.old change.new else 1

/-- What the scopes around a place call their variables in the renamed program. -/
def stack (change : Renaming) (spot : Spot) : List Naming :=
  spot.chosen.map change.naming

theorem lexeme_token (isNot : name.lexeme ≠ change.new) (isChosen : Bool) :
    (change.token isChosen name).lexeme = change.naming isChosen name.lexeme := by
  unfold token naming
  cases isChosen with
  | false => rfl
  | true =>
    by_cases same : name.lexeme = change.old
    · rw [if_pos (by simpa using same), if_pos rfl, same, Equiv.swap_apply_left]
    · rw [if_neg (by simpa using same), if_pos rfl, Equiv.swap_apply_of_ne_of_ne same isNot]

/-- What is neither the old name nor the new one stays. -/
theorem naming_of_ne {text : String} (isChosen : Bool)
    (notOld : isChosen = true → text ≠ change.old) (notNew : text ≠ change.new) :
    change.naming isChosen text = text := by
  cases isChosen with
  | false => rfl
  | true => exact Equiv.swap_apply_of_ne_of_ne (notOld rfl) notNew

/-- What is not the new name stays or becomes it. -/
theorem naming_cases {text : String} (isChosen : Bool) (notNew : text ≠ change.new) :
    change.naming isChosen text = text ∨ change.naming isChosen text = change.new := by
  cases isChosen with
  | false => exact .inl rfl
  | true =>
    by_cases same : text = change.old
    · exact .inr (same ▸ Equiv.swap_apply_left _ _)
    · exact .inl (change.naming_of_ne true (fun _ => same) notNew)

/-- A scope that renames twice renames back. -/
theorem naming_naming (isChosen : Bool) (text : String) :
    change.naming isChosen (change.naming isChosen text) = text := by
  cases isChosen with
  | false => rfl
  | true => exact Equiv.congr_fun (Equiv.swap_swap change.old change.new) text

theorem namingAt_stack (distance : Option Nat) :
    namingAt (change.stack spot) distance = change.naming (spot.chosenAt distance) := by
  cases distance with
  | none => rfl
  | some distance =>
    show (spot.chosen.map change.naming).getD distance (change.naming false) = _
    rw [List.getD_eq_getElem?_getD, List.getElem?_map, Option.getD_map]
    exact congrArg change.naming (List.getD_eq_getElem?_getD ..).symm

/-- **A declared variable is named as its scope says.** -/
theorem lexeme_declared (isNot : name.lexeme ≠ change.new) :
    (change.declared spot name).lexeme = namingAt (change.stack spot) (some 0) name.lexeme := by
  rw [namingAt_stack]
  exact lexeme_token isNot _

/-- **A variable that is read or assigned is named as the scope says that it belongs to.** -/
theorem lexeme_referred {node : NodeId} (isNot : name.lexeme ≠ change.new) :
    (change.referred spot node name).lexeme =
      namingAt (change.stack spot) (change.distance node) name.lexeme := by
  rw [namingAt_stack]
  exact lexeme_token isNot _

end Renaming

end Lox
