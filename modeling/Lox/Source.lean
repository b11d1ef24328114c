/-
**Source texts read as programs and expressions.**

* `readProgram`, `readExpression` — the tree of a source text, or all that is wrong with its
  characters and its grammar. What concerns characters and what concerns tokens is put in the order
  of the lines, and on the same line the characters come first.

Trees that are read one after the other share no node identity: reading starts at the first unused
one and says which is the next.
-/

import Lox.Text.Utf8
import Lox.Token.Scan
import Lox.Tree.Parse

namespace Lox

/-- Diagnostics in the order of their lines; those of one line keep their order. -/
def inLineOrder (diagnostics : List Diagnostic) : List Diagnostic :=
  diagnostics.mergeSort fun first second => first.line ≤ second.line

/-- What was read, unless something is wrong with the characters or the tokens. -/
def withCharacters {α : Type} (characters : List Diagnostic) :
    Except (List Diagnostic) α → Except (List Diagnostic) α
  | .ok value => if characters.isEmpty then .ok value else .error characters
  | .error tokens => .error (inLineOrder (characters ++ tokens))

/-- The tree that `parse` makes of the tokens of a source text, and the next unused node
identity. -/
def readWith {α : Type} (parse : List Token → Nat → Except (List Diagnostic) α × Nat)
    (source : String) (nextNode : Nat) : Except (List Diagnostic) α × Nat :=
  let bytes := Utf8.encode source
  let (result, next) := parse (tokensOf bytes) nextNode
  (withCharacters (diagnosticsOf bytes) result, next)

/-- The program that a source text is. -/
def readProgram (source : String) (nextNode : Nat) : Except (List Diagnostic) (List Stmt) × Nat :=
  readWith parseProgram source nextNode

/-- The single expression that a source text is. -/
def readExpression (source : String) (nextNode : Nat) : Except (List Diagnostic) Expr × Nat :=
  readWith parseExpression source nextNode

end Lox
