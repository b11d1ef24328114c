/-
**What occurs in the text of a program, and in which scopes.**

* `Mention` — what names matter to: a name is declared, a variable is read or
  assigned, or there is a `return`.
* `Enclosure` — a scope around a place in the text: the block or the body of a function
  that opens it, what stands right in it before the place, and the declaration right in it
  that the place is part of.
* `Occurrence` — a mention and the scopes around it, innermost first. `occurrencesOf` — all that
  occurs in a program, in the order of its tree. No walk is made for that.
* `Occurrence.defect?` — what is wrong with an occurrence. `Occurrence.distance?` — the nearest
  scope around it that declares its name.
-/

import Lox.Proofs.Scoping.Marks

namespace Lox

/-! ### Occurrences -/

/-- What names matter to. -/
inductive Mention where
  /-- A variable, a function or a parameter is declared. -/
  | declares (name : Token)
  | accesses (node : NodeId) (access : Access) (name : Token)
  | returns (keyword : Token)

/-- A declaration that other things are part of. -/
inductive Declaration where
  /-- A variable, of which the initializer is part. -/
  | variable (name : Token)
  /-- A function, of which the parameters and the body are part. -/
  | function (name : Token)

/-- The name that is declared. -/
def Declaration.name : Declaration → Token
  | .variable name | .function name => name

/-- The name of the variable that is declared, if it is one. -/
def Declaration.variable? : Declaration → Option Token
  | .variable name => some name
  | .function _ => none

/-- A scope around a place in the text. -/
structure Enclosure where
  /-- What opens the scope. -/
  frame : Frame
  /-- The parameters in the scope that stand before the place. -/
  parameters : List Token
  /-- The statements right in the scope that stand before the place. -/
  earlier : List Stmt
  /-- The declaration right in the scope that the place is part of. -/
  part? : Option Declaration

namespace Enclosure

/-- The kind of the function whose scope it is, if it is that of a function. -/
def kind? (enclosure : Enclosure) : Option FunctionKind :=
  match enclosure.frame with
  | .function kind _ => some kind
  | .block _ => none

/-- The scope is that of a function. -/
def isFunction (enclosure : Enclosure) : Bool :=
  enclosure.kind?.isSome

/-- The scope declares a name up to the place: by a parameter, by a statement right in it that
stands before the place, or by the declaration that the place is part of. -/
def Declares (enclosure : Enclosure) (name : String) : Prop :=
  (∃ token ∈ enclosure.parameters, token.lexeme = name) ∨
    (∃ form ∈ enclosure.earlier, ∃ token ∈ form.declared?, token.lexeme = name) ∨
    ∃ declaration ∈ enclosure.part?, declaration.name.lexeme = name

/-- The place is in the initializer of a variable of this name, which is declared right in the
scope. -/
def Initializes (enclosure : Enclosure) (name : String) : Prop :=
  ∃ token ∈ enclosure.part?.bind Declaration.variable?, token.lexeme = name

instance (enclosure : Enclosure) (name : String) : Decidable (enclosure.Declares name) := by
  unfold Declares
  infer_instance

instance (enclosure : Enclosure) (name : String) : Decidable (enclosure.Initializes name) := by
  unfold Initializes
  infer_instance

end Enclosure

/-- A mention in the text of a program. -/
structure Occurrence where
  mention : Mention
  /-- The scopes around it, innermost first. The global scope is none of them. -/
  around : List Enclosure

/-- The scopes around what comes after a statement. -/
def pastStatement (form : Stmt) (around : List Enclosure) : List Enclosure :=
  around.modifyHead fun innermost => { innermost with earlier := innermost.earlier ++ [form] }

/-- The scopes around what is part of a declaration. -/
def inDeclaration (declaration : Declaration) (around : List Enclosure) : List Enclosure :=
  around.modifyHead fun innermost => { innermost with part? := some declaration }

/-- The parameters of a function after the first ones. -/
def occurrencesOfParameters (kind : FunctionKind) (body : FunctionBody) (around : List Enclosure)
    (before : List Token) : (parameters : List Token) → List Occurrence
  | [] => []
  | name :: rest =>
    ⟨.declares name, ⟨.function kind body, before, [], none⟩ :: around⟩ ::
      occurrencesOfParameters kind body around (before ++ [name]) rest

mutual

/-- What occurs in an expression. The variable of an assignment comes after the value. -/
def Expr.occurrences (around : List Enclosure) : Expr → List Occurrence
  | .literal _ => []
  | .grouping inner => inner.occurrences around
  | .unary _ right => right.occurrences around
  | .binary left _ right | .logical left _ right =>
    left.occurrences around ++ right.occurrences around
  | .ternary condition _ yes no =>
    condition.occurrences around ++ yes.occurrences around ++ no.occurrences around
  | .variable node name => [⟨.accesses node .read name, around⟩]
  | .assign node name value => value.occurrences around ++ [⟨.accesses node .write name, around⟩]
  | .call callee arguments _ => callee.occurrences around ++ occurrencesOfArguments around arguments
  | .lambda _ body => body.occurrences .lambda around

/-- What occurs in expressions, in order. -/
def occurrencesOfArguments (around : List Enclosure) : List Expr → List Occurrence
  | [] => []
  | first :: rest => first.occurrences around ++ occurrencesOfArguments around rest

/-- What occurs in a statement. A name that is declared comes before its
initializer or its function. -/
def Stmt.occurrences (around : List Enclosure) : Stmt → List Occurrence
  | .expression value | .print _ value => value.occurrences around
  | .var name none => [⟨.declares name, around⟩]
  | .var name (some initializer) =>
    ⟨.declares name, around⟩ :: initializer.occurrences (inDeclaration (.variable name) around)
  | .block forms => occurrencesOfStatements (⟨.block forms, [], [], none⟩ :: around) forms
  | .if condition yes none => condition.occurrences around ++ yes.occurrences around
  | .if condition yes (some no) =>
    condition.occurrences around ++ yes.occurrences around ++ no.occurrences around
  | .while condition body => condition.occurrences around ++ body.occurrences around
  | .function name body =>
    ⟨.declares name, around⟩ :: body.occurrences .function (inDeclaration (.function name) around)
  | .return keyword none => [⟨.returns keyword, around⟩]
  | .return keyword (some value) => ⟨.returns keyword, around⟩ :: value.occurrences around

/-- What occurs in statements, each of which stands before the next. -/
def occurrencesOfStatements (around : List Enclosure) : List Stmt → List Occurrence
  | [] => []
  | first :: rest =>
    first.occurrences around ++ occurrencesOfStatements (pastStatement first around) rest

/-- What occurs in the body of a function, whose parameters are in the same scope as its
statements. -/
def FunctionBody.occurrences (kind : FunctionKind) (around : List Enclosure) :
    FunctionBody → List Occurrence
  | ⟨parameters, forms⟩ =>
    occurrencesOfParameters kind ⟨parameters, forms⟩ around [] parameters ++
      occurrencesOfStatements (⟨.function kind ⟨parameters, forms⟩, parameters, [], none⟩ :: around)
        forms

end

/-- What occurs in a part. -/
def Part.occurrences (around : List Enclosure) : Part → List Occurrence
  | .expression value => value.occurrences around
  | .arguments values => occurrencesOfArguments around values
  | .statement form => form.occurrences around
  | .statements forms => occurrencesOfStatements around forms
  | .function kind body => body.occurrences kind around
  | .target node access name => [⟨.accesses node access name, around⟩]

/-- What occurs in a program. -/
def occurrencesOf (program : List Stmt) : List Occurrence :=
  occurrencesOfStatements [] program

/-! ### What an occurrence means -/

namespace Occurrence

/-- What is wrong with an occurrence: a name that the same scope declares before, a variable that is
read in its own initializer, or a `return` outside of every function. -/
def defect? (occurrence : Occurrence) : Option Diagnostic :=
  match occurrence.mention with
  | .declares name =>
    if ∃ innermost ∈ occurrence.around.head?, innermost.Declares name.lexeme then
      some (.atToken name .alreadyDeclared)
    else none
  | .accesses _ .read name =>
    if ∃ innermost ∈ occurrence.around.head?, innermost.Initializes name.lexeme then
      some (.atToken name .ownInitializer)
    else none
  | .accesses _ .write _ => none
  | .returns keyword =>
    if ∃ enclosure ∈ occurrence.around, enclosure.isFunction = true then none
    else some (.atToken keyword .topLevelReturn)

/-- The number of scopes between an occurrence and the nearest scope around it that declares a
name. -/
def distance? (occurrence : Occurrence) (name : String) : Option Nat :=
  occurrence.around.findIdx? fun enclosure => enclosure.Declares name

/-- The reference for a variable that is read or assigned. -/
def reference? (occurrence : Occurrence) : Option Reference :=
  match occurrence.mention with
  | .accesses node access name => some ⟨node, access, name, occurrence.distance? name.lexeme⟩
  | _ => none

end Occurrence

end Lox
