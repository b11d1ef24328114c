/-
**Syntax trees as forms.**

* `Expr.form`, `Stmt.form` — a tree as a form. It is written like the tree (`Expr.toList_text`,
  `Stmt.toList_text`).
* `toList_programText` — a program is written like the forms of its statements, one on each line.
-/

import Lox.Proofs.Decimal.Numerals
import Lox.Proofs.Grammar.Roles
import Lox.Proofs.Scanning.Lexemes
import Lox.Proofs.Text.Forms
import Lox.Tree.Text

namespace Lox

/-! ### The forms of trees -/

/-- The form of a token. -/
@[simp]
def Token.form (token : Token) : Form :=
  .word token.lexeme

mutual

/-- The form of an expression. -/
def Expr.form : Expr → Form
  | .literal value => .word value.text
  | .grouping inner => .list [.word "group", inner.form]
  | .unary operator right => .list [operator.form, right.form]
  | .binary left operator right
  | .logical left operator right => .list [operator.form, left.form, right.form]
  | .ternary condition _ yes no => .list [.word "?:", condition.form, yes.form, no.form]
  | .variable _ name => name.form
  | .assign _ name value => .list [.word "=", name.form, value.form]
  | .call callee arguments _ => .list (.word "call" :: callee.form :: formsOfArguments arguments)
  | .lambda _ body => .list (.word "fun" :: body.forms)

/-- The forms of arguments. -/
def formsOfArguments : List Expr → List Form
  | [] => []
  | first :: rest => first.form :: formsOfArguments rest

/-- The form of a statement. -/
def Stmt.form : Stmt → Form
  | .expression value => .list [.word ";", value.form]
  | .print _ value => .list [.word "print", value.form]
  | .var name none => .list [.word "var", name.form]
  | .var name (some initializer) => .list [.word "var", name.form, initializer.form]
  | .block statements => .list (.word "block" :: formsOfStatements statements)
  | .if condition yes none => .list [.word "if", condition.form, yes.form]
  | .if condition yes (some no) => .list [.word "if", condition.form, yes.form, no.form]
  | .while condition body => .list [.word "while", condition.form, body.form]
  | .function name body => .list (.word "fun" :: name.form :: body.forms)
  | .return _ none => .list [.word "return"]
  | .return _ (some value) => .list [.word "return", value.form]

/-- The forms of statements. -/
def formsOfStatements : List Stmt → List Form
  | [] => []
  | first :: rest => first.form :: formsOfStatements rest

/-- The form of a function's parameters and those of its statements. -/
def FunctionBody.forms : FunctionBody → List Form
  | ⟨parameters, statements⟩ => .list (parameters.map Token.form) :: formsOfStatements statements

end

/-! ### Their texts -/

theorem toList_parametersText (parameters : List Token) :
    (parametersText parameters).toList = (Form.list (parameters.map Token.form)).chars := by
  rw [parametersText, Form.chars, charsOfAll_eq, List.map_map]
  simp [String.toList_intercalate, Function.comp_def]

mutual

theorem Expr.toList_text : (value : Expr) → value.text.toList = value.form.chars
  | .literal _ | .variable _ _ => rfl
  | .grouping inner => by simp [Expr.text, Expr.form, inner.toList_text]
  | .unary operator right => by simp [Expr.text, Expr.form, right.toList_text]
  | .binary left operator right | .logical left operator right => by
    simp [Expr.text, Expr.form, left.toList_text, right.toList_text]
  | .ternary condition _ yes no => by
    simp [Expr.text, Expr.form, condition.toList_text, yes.toList_text, no.toList_text]
  | .assign _ name value => by simp [Expr.text, Expr.form, value.toList_text]
  | .call callee arguments _ => by
    simp [Expr.text, Expr.form, callee.toList_text, toList_argumentsText arguments]
  | .lambda _ body => by simp [Expr.text, Expr.form, ← body.toList_text]

theorem toList_argumentsText : (arguments : List Expr) →
    (argumentsText arguments).toList = charsOfRest ' ' (formsOfArguments arguments)
  | [] => rfl
  | first :: rest => by simp [argumentsText, formsOfArguments, first.toList_text,
      toList_argumentsText rest]

theorem Stmt.toList_text : (statement : Stmt) → statement.text.toList = statement.form.chars
  | .expression value | .print _ value | .var _ (some value) | .return _ (some value) => by
    simp [Stmt.text, Stmt.form, value.toList_text]
  | .var _ none | .return _ none => by simp [Stmt.text, Stmt.form]
  | .block statements => by simp [Stmt.text, Stmt.form, toList_statementsText statements]
  | .if condition yes none | .while condition yes => by
    simp [Stmt.text, Stmt.form, condition.toList_text, yes.toList_text]
  | .if condition yes (some no) => by
    simp [Stmt.text, Stmt.form, condition.toList_text, yes.toList_text, no.toList_text]
  | .function _ body => by simp [Stmt.text, Stmt.form, ← body.toList_text]

theorem toList_statementsText : (statements : List Stmt) →
    (statementsText statements).toList = charsOfRest ' ' (formsOfStatements statements)
  | [] => rfl
  | first :: rest => by simp [statementsText, formsOfStatements, first.toList_text,
      toList_statementsText rest]

theorem FunctionBody.toList_text :
    (body : FunctionBody) → ' ' :: body.text.toList = charsOfRest ' ' body.forms
  | ⟨parameters, statements⟩ => by
    simp [FunctionBody.text, FunctionBody.forms, toList_parametersText,
      toList_statementsText statements]

end

/-- The text of a program has the form of each statement on a line of its own. -/
theorem toList_programText (statements : List Stmt) :
    (programText statements).toList = charsOfAll '\n' (formsOfStatements statements) := by
  have texts : (statements.map Stmt.text).map String.toList =
      (formsOfStatements statements).map Form.chars := by
    induction statements with
    | nil => rfl
    | cons first rest ih => simp [formsOfStatements, first.toList_text, ih]
  rw [programText, String.toList_intercalate, charsOfAll_eq, texts]
  rfl

end Lox
