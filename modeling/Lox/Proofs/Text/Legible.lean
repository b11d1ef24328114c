/-
**Trees with legible forms.**

* `Literal.Legible`, `Use.Legible` — constants and tokens whose texts are words
  that tell what they are.
* `Printable` — tokens without strings and with finite numbers only. What is read from them is
  legible (`Use.Fits.legible`, `legible_of_readProgram`).
* `Role.texts`, `Token.Genuine.mem_texts` — what the tokens of a role are written
  as, unless they are names.
* `Expr.legible_form`, `Stmt.legible_form` — the form of a tree in which
  everything is legible is legible.
-/

import Lox.Proofs.Text.Trees

namespace Lox

open Binary64 (Reading)

/-! ### Legible constants and tokens -/

/-- A constant is no string, and if it is a number then a finite one without a sign. -/
def Literal.Legible : Literal → Prop
  | .number value => ∃ magnitude, Reading.ofFloat value = .finite Bool.false magnitude
  | .string _ => False
  | _ => True

/-- A token is genuine and fits its role, or a constant is legible. -/
def Use.Legible : Use → Prop
  | .token role used => role.Fits used.kind ∧ used.Genuine
  | .literal value => value.Legible

/-- No strings are among the tokens, and only finite numbers. -/
structure Printable (tokens : List Token) : Prop where
  noString : ∀ token ∈ tokens, ∀ contents, token.kind ≠ .string contents
  finite : ∀ token ∈ tokens, ∀ value, token.kind = .number value →
    ∃ negative magnitude, Reading.ofFloat value = .finite negative magnitude

theorem Printable.mono {tokens all : List Token} (printable : Printable all)
    (subset : tokens ⊆ all) :
    Printable tokens :=
  ⟨fun token isToken => printable.noString token (subset isToken),
    fun token isToken => printable.finite token (subset isToken)⟩

theorem Token.Genuine.not_negative {token : Token} (genuine : token.Genuine) {value : Float}
    (isNumber : token.kind = .number value) {negative : Bool} {magnitude : Binary64.Magnitude}
    (isFinite : Reading.ofFloat value = .finite negative magnitude) : negative = false := by
  cases genuine <;> cases isNumber
  exact Binary64.not_negative_nearest isFinite

theorem Use.Fits.legible {tokens : List Token} (printable : Printable tokens)
    (genuine : ∀ token ∈ tokens, token.Genuine) {use : Use} (fits : use.Fits tokens) :
    use.Legible := by
  cases use with
  | token role used => exact ⟨fits.2, genuine used fits.1⟩
  | literal value =>
    rcases fits with rfl | ⟨token, isToken, isLiteral⟩
    · trivial
    unfold Kind.literal? at isLiteral
    split at isLiteral <;> cases isLiteral
    case h_4 value isNumber =>
      obtain ⟨negative, magnitude, isFinite⟩ := printable.finite token isToken value isNumber
      obtain rfl := (genuine token isToken).not_negative isNumber isFinite
      exact ⟨magnitude, isFinite⟩
    case h_5 contents isString => exact absurd isString (printable.noString token isToken contents)
    all_goals trivial

/-! ### Words -/

/-- What the tokens of a role are written as, unless they are names. -/
def Role.texts : Role → List String
  | .unary => ["!", "-"]
  | .binary => binarySymbols.map Symbol.spelling
  | .logical => ["or", "and"]
  | .question => ["?"]
  | .closing => [")"]
  | .name => []
  | .keyword word => [word.text]

theorem Token.Genuine.mem_texts {token : Token} (genuine : token.Genuine) {role : Role}
    (fits : role.Fits token.kind) (noName : role ≠ .name) : token.lexeme ∈ role.texts := by
  cases role with
  | unary =>
    rcases fits with isBang | isMinus
    · exact List.mem_cons.mpr (.inl (genuine.lexeme_symbol isBang))
    · exact List.mem_cons_of_mem _ (List.mem_singleton.mpr (genuine.lexeme_symbol isMinus))
  | binary =>
    obtain ⟨symbol, isOne, isSymbol⟩ := fits
    rw [genuine.lexeme_symbol isSymbol]
    exact List.mem_map_of_mem isOne
  | logical =>
    rcases fits with isOr | isAnd
    · exact List.mem_cons.mpr (.inl (genuine.lexeme_keyword isOr))
    · exact List.mem_cons_of_mem _ (List.mem_singleton.mpr (genuine.lexeme_keyword isAnd))
  | question | closing => exact List.mem_singleton.mpr (genuine.lexeme_symbol fits)
  | name => exact absurd rfl noName
  | keyword word => exact List.mem_singleton.mpr (genuine.lexeme_keyword fits)

theorem not_break_of_digit {c : Char} (isDigit : c.isDigit = true) : ¬ IsBreak c := by
  rintro (rfl | rfl | rfl | rfl) <;> cases isDigit

theorem IsNameStart.not_break {c : Char} (isStart : IsNameStart c) : ¬ IsBreak c := by
  rintro (rfl | rfl | rfl | rfl) <;> rcases isStart with isAlpha | isOther <;> contradiction

theorem IsNameStart.not_digit {c : Char} (isStart : IsNameStart c) : ¬ c.isDigit = true := by
  rcases isStart with isAlpha | rfl
  · simp only [Char.isAlpha, Char.isUpper, Char.isLower, Char.isDigit] at isAlpha ⊢
    grind
  · decide

theorem IsName.isWord {name : String} (isName : IsName name) : IsWord name := by
  obtain ⟨first, body, isText, isStart, all⟩ := isName.letters
  constructor <;> rw [isText]
  · exact List.cons_ne_nil first body
  · refine List.forall_mem_cons.mpr ⟨isStart.not_break, fun c isOne => ?_⟩
    rcases all c isOne with isStart | isDigit
    · exact isStart.not_break
    · exact not_break_of_digit isDigit

theorem Numeral.starts {text whole fraction : List Char} (numeral : Numeral text whole fraction) :
    ∃ first others, text = first :: others ∧ first.isDigit = true := by
  cases numeral with
  | whole areDigits | fraction areDigits =>
    obtain ⟨first, others, rfl⟩ := List.exists_cons_of_ne_nil areDigits.ne_nil
    exact ⟨first, _, rfl, areDigits.digit first List.mem_cons_self⟩

theorem Numeral.not_break {text whole fraction : List Char}
    (numeral : Numeral text whole fraction) :
    ∀ c ∈ text, ¬ IsBreak c := by
  intro c isOne
  cases numeral with
  | whole areDigits => exact not_break_of_digit (areDigits.digit c isOne)
  | fraction areDigits areDecimals =>
    rcases List.mem_append.mp isOne with isDigit | isRest
    · exact not_break_of_digit (areDigits.digit c isDigit)
    rcases List.mem_cons.mp isRest with rfl | isDecimal
    · decide
    · exact not_break_of_digit (areDecimals.digit c isDecimal)

/-- The text of a finite number without a sign is a numeral. -/
theorem numeral_inTree {value : Float} {magnitude : Binary64.Magnitude}
    (isFinite : Reading.ofFloat value = .finite false magnitude) :
    ∃ whole fraction, Numeral (Number.inTree value).toList whole fraction := by
  obtain ⟨_, _, ⟨whole, fraction, _, numeral, -⟩, -⟩ := Number.denotes_inTree isFinite
  exact ⟨whole, fraction, numeral⟩

theorem Literal.Legible.isWord {value : Literal} (legible : value.Legible) : IsWord value.text := by
  cases value with
  | number value =>
    obtain ⟨magnitude, isFinite⟩ := legible
    obtain ⟨_, _, numeral⟩ := numeral_inTree isFinite
    obtain ⟨first, others, isText, -⟩ := numeral.starts
    exact ⟨isText ▸ List.cons_ne_nil first others, numeral.not_break⟩
  | string => exact legible.elim
  | true | false | nil => simp [Literal.text, isWord_iff, IsBreak]

theorem Use.Legible.isWord_name {name : Token} (legible : (Use.token .name name).Legible) :
    IsWord name.lexeme :=
  (legible.2.isName legible.1).isWord

theorem Use.Legible.isWord_operator {role : Role} {operator : Token}
    (legible : (Use.token role operator).Legible)
    (isOperator : role = .unary ∨ role = .binary ∨ role = .logical) :
    IsWord operator.lexeme := by
  have words : ∀ text ∈ role.texts, IsWord text := by
    rcases isOperator with rfl | rfl | rfl <;>
      simp [Role.texts, binarySymbols, Symbol.spelling, isWord_iff, IsBreak]
  refine words _ (legible.2.mem_texts legible.1 ?_)
  rintro rfl
  simp at isOperator

/-! ### Legible trees -/

/-- The words that start forms, but for operators. -/
theorem isWord_head :
    ∀ text ∈ ["group", "?:", "=", "call", "fun", ";", "print", "var", "block", "if", "while",
    "return"], IsWord text := by
  simp [isWord_iff, IsBreak]

theorem allLegible_parameters {parameters : List Token}
    (legible : ∀ use ∈ parameters.map (Use.token .name), use.Legible) :
    AllLegible (parameters.map Token.form) := by
  induction parameters with
  | nil => trivial
  | cons first rest ih =>
    obtain ⟨isFirst, isRest⟩ := List.forall_mem_cons.mp legible
    exact ⟨isFirst.isWord_name, ih isRest⟩

mutual

theorem Expr.legible_form : (value : Expr) → (∀ use ∈ value.uses, use.Legible) → value.form.Legible
  | .literal _, legible => (List.forall_mem_singleton.mp legible).isWord
  | .grouping inner, legible => ⟨isWord_head _ (by simp), inner.legible_form legible, trivial⟩
  | .unary operator right, legible => by
    obtain ⟨isOperator, isRight⟩ := List.forall_mem_cons.mp legible
    exact ⟨isOperator.isWord_operator (.inl rfl), right.legible_form isRight, trivial⟩
  | .binary left operator right, legible => by
    obtain ⟨isLeft, isRest⟩ := List.forall_mem_append.mp legible
    obtain ⟨isOperator, isRight⟩ := List.forall_mem_cons.mp isRest
    exact ⟨isOperator.isWord_operator (.inr (.inl rfl)), left.legible_form isLeft,
      right.legible_form isRight, trivial⟩
  | .logical left operator right, legible => by
    obtain ⟨isLeft, isRest⟩ := List.forall_mem_append.mp legible
    obtain ⟨isOperator, isRight⟩ := List.forall_mem_cons.mp isRest
    exact ⟨isOperator.isWord_operator (.inr (.inr rfl)), left.legible_form isLeft,
      right.legible_form isRight, trivial⟩
  | .ternary condition question yes no, legible => by
    obtain ⟨isCondition, isRest⟩ := List.forall_mem_append.mp legible
    obtain ⟨-, isRest⟩ := List.forall_mem_cons.mp isRest
    obtain ⟨isYes, isNo⟩ := List.forall_mem_append.mp isRest
    exact ⟨isWord_head _ (by simp), condition.legible_form isCondition, yes.legible_form isYes,
      no.legible_form isNo, trivial⟩
  | .variable _ name, legible => (List.forall_mem_singleton.mp legible).isWord_name
  | .assign _ name value, legible => by
    obtain ⟨isName, isValue⟩ := List.forall_mem_cons.mp legible
    exact ⟨isWord_head _ (by simp), isName.isWord_name, value.legible_form isValue, trivial⟩
  | .call callee arguments closing, legible => by
    obtain ⟨isRest, -⟩ := List.forall_mem_append.mp legible
    obtain ⟨isCallee, areArguments⟩ := List.forall_mem_append.mp isRest
    exact ⟨isWord_head _ (by simp), callee.legible_form isCallee,
      legible_formsOfArguments arguments areArguments⟩
  | .lambda keyword body, legible =>
    ⟨isWord_head _ (by simp), body.legible_forms (List.forall_mem_cons.mp legible).2⟩

theorem legible_formsOfArguments :
    (arguments : List Expr) → (∀ use ∈ usesOfArguments arguments, use.Legible) →
    AllLegible (formsOfArguments arguments)
  | [], _ => trivial
  | first :: rest, legible => by
    obtain ⟨isFirst, isRest⟩ := List.forall_mem_append.mp legible
    exact ⟨first.legible_form isFirst, legible_formsOfArguments rest isRest⟩

theorem Stmt.legible_form :
    (statement : Stmt) → (∀ use ∈ statement.uses, use.Legible) → statement.form.Legible
  | .expression value, legible => ⟨isWord_head _ (by simp), value.legible_form legible, trivial⟩
  | .print _ value, legible | .return _ (some value), legible =>
    ⟨isWord_head _ (by simp), value.legible_form (List.forall_mem_cons.mp legible).2, trivial⟩
  | .var name none, legible =>
    ⟨isWord_head _ (by simp), (List.forall_mem_singleton.mp legible).isWord_name, trivial⟩
  | .var name (some initializer), legible => by
    obtain ⟨isName, isValue⟩ := List.forall_mem_cons.mp legible
    exact ⟨isWord_head _ (by simp), isName.isWord_name, initializer.legible_form isValue, trivial⟩
  | .block statements, legible =>
    ⟨isWord_head _ (by simp), legible_formsOfStatements statements legible⟩
  | .if condition yes none, legible => by
    obtain ⟨isCondition, isYes⟩ := List.forall_mem_append.mp legible
    exact ⟨isWord_head _ (by simp), condition.legible_form isCondition,
      yes.legible_form isYes, trivial⟩
  | .if condition yes (some no), legible => by
    obtain ⟨isRest, isNo⟩ := List.forall_mem_append.mp legible
    obtain ⟨isCondition, isYes⟩ := List.forall_mem_append.mp isRest
    exact ⟨isWord_head _ (by simp), condition.legible_form isCondition, yes.legible_form isYes,
      no.legible_form isNo, trivial⟩
  | .while condition body, legible => by
    obtain ⟨isCondition, isBody⟩ := List.forall_mem_append.mp legible
    exact ⟨isWord_head _ (by simp), condition.legible_form isCondition,
      body.legible_form isBody, trivial⟩
  | .function name body, legible => by
    obtain ⟨isName, isBody⟩ := List.forall_mem_cons.mp legible
    exact ⟨isWord_head _ (by simp), isName.isWord_name, body.legible_forms isBody⟩
  | .return _ none, _ => ⟨isWord_head _ (by simp), trivial⟩

theorem legible_formsOfStatements : (statements : List Stmt) →
    (∀ use ∈ usesOfStatements statements, use.Legible) → AllLegible (formsOfStatements statements)
  | [], _ => trivial
  | first :: rest, legible => by
    obtain ⟨isFirst, isRest⟩ := List.forall_mem_append.mp legible
    exact ⟨first.legible_form isFirst, legible_formsOfStatements rest isRest⟩

theorem FunctionBody.legible_forms : (body : FunctionBody) → (∀ use ∈ body.uses, use.Legible) →
    AllLegible body.forms
  | ⟨parameters, statements⟩, legible => by
    obtain ⟨areNames, areStatements⟩ := List.forall_mem_append.mp legible
    exact ⟨allLegible_parameters areNames, legible_formsOfStatements statements areStatements⟩

end

/-- Everything is legible in a program that a text without strings and with finite
numbers only is read as. -/
theorem legible_of_readProgram {source : String} {index later : Nat} {program : List Stmt}
    (read : readProgram source index = (.ok program, later))
    (printable : Printable (tokensOf (Utf8.encode source))) :
    ∀ use ∈ usesOfStatements program, use.Legible := by
  intro use isUse
  obtain ⟨tree, derives, isTree⟩ := derives_of_readProgram read
  have fits := derives.uses_fit index use
  rw [isTree] at fits
  have inner : innerTokens (Utf8.encode source) ⊆ tokensOf (Utf8.encode source) :=
    tokensOf_eq _ ▸ List.subset_append_left _ _
  exact (fits isUse).legible (printable.mono inner) fun token => genuine_of_mem

end Lox
