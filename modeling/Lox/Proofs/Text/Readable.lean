/-
**The text of a program determines its tree.**

* `withoutPlaces` — trees whose nodes and lines are forgotten.
* `Literal.eq_of_text`, `Use.Legible.token_eq` — legible constants, and legible tokens of the same
  role, are told apart by their texts.
* `Expr.construct_form`, `Stmt.form_eq` — the form of a tree tells its constructor.
* `Expr.eq_of_form`, `Stmt.eq_of_form` — legible trees with the same form are the same
  but for nodes and lines.
* `text_determines_program` — so are the programs that two texts are read as, if they are written
  alike.
-/

import Lox.Proofs.Text.Legible

namespace Lox

open Binary64 (Reading)

/-- All nodes become one, and all tokens come to stand on one line. -/
def withoutPlaces : Relabelling where
  node _ := ⟨0⟩
  token token := { token with line := 0 }

/-! ### Constants -/

/-- The words that are constants. -/
def constantWords : List String :=
  ["true", "false", "nil"]

/-- A word starts with a digit. -/
def startsWithDigit (text : String) : Bool :=
  text.toList.head?.any Char.isDigit

theorem startsWithDigit_inTree {value : Float} {magnitude : Binary64.Magnitude}
    (isFinite : Reading.ofFloat value = .finite false magnitude) :
    startsWithDigit (Number.inTree value) = true := by
  obtain ⟨_, _, numeral⟩ := numeral_inTree isFinite
  obtain ⟨first, others, isText, isDigit⟩ := numeral.starts
  rw [startsWithDigit, isText]
  exact isDigit

theorem constantWords_not_digit : ∀ text ∈ constantWords, startsWithDigit text = false := by
  simp [constantWords, startsWithDigit]

/-- A number is no constant word. -/
theorem inTree_notMem {value : Float} {magnitude : Binary64.Magnitude}
    (isFinite : Reading.ofFloat value = .finite false magnitude) :
    Number.inTree value ∉ constantWords := by
  intro isWord
  have noDigit := constantWords_not_digit _ isWord
  rw [startsWithDigit_inTree isFinite] at noDigit
  cases noDigit

/-- Legible constants are told apart by their texts. -/
theorem Literal.eq_of_text {value other : Literal} (legible : value.Legible)
    (legibleToo : other.Legible) (same : value.text = other.text) : value = other := by
  cases value with
  | string => exact legible.elim
  | number x =>
    obtain ⟨magnitude, isFinite⟩ := legible
    cases other with
    | string => exact legibleToo.elim
    | number y =>
      obtain ⟨_, isFiniteToo⟩ := legibleToo
      exact congrArg Literal.number (Number.inTree_injective isFinite isFiniteToo same)
    | true | false | nil =>
      refine absurd ?_ (inTree_notMem isFinite)
      rw [show Number.inTree x = _ from same]
      simp [Literal.text, constantWords]
  | true | false | nil =>
    cases other with
    | string => exact legibleToo.elim
    | number y =>
      obtain ⟨magnitude, isFinite⟩ := legibleToo
      refine absurd ?_ (inTree_notMem isFinite)
      rw [show Number.inTree y = _ from same.symm]
      simp [Literal.text, constantWords]
    | true | false | nil => first | rfl | simp [Literal.text] at same

/-! ### Tokens -/

/-- The tokens of a role are all symbols, all reserved words, or all names. -/
theorem Role.kinds (role : Role) : (∀ kind, role.Fits kind → ∃ symbol, kind = .symbol symbol) ∨
    (∀ kind, role.Fits kind → ∃ keyword, kind = .keyword keyword) ∨ ∀ kind, role.Fits kind →
    kind = .identifier := by
  cases role with
  | unary => exact .inl fun kind fits => fits.elim (fun isBang => ⟨_, isBang⟩) fun isMinus => ⟨_,
      isMinus⟩
  | binary => exact .inl fun kind ⟨symbol, _, isSymbol⟩ => ⟨symbol, isSymbol⟩
  | question | closing => exact .inl fun kind isSymbol => ⟨_, isSymbol⟩
  | logical => exact .inr (.inl fun kind fits => fits.elim (fun isOr => ⟨_, isOr⟩)
      fun isAnd => ⟨_, isAnd⟩)
  | keyword word => exact .inr (.inl fun kind isKeyword => ⟨word, isKeyword⟩)
  | name => exact .inr (.inr fun kind isName => isName)

namespace Use.Legible

variable {role : Role} {first second : Token} (legible : (Use.token role first).Legible)
  (legibleToo : (Use.token role second).Legible)

include legible legibleToo

theorem kind_eq (same : first.lexeme = second.lexeme) : first.kind = second.kind := by
  rcases role.kinds with symbols | keywords | names
  · obtain ⟨symbol, isSymbol⟩ := symbols _ legible.1
    obtain ⟨other, isOther⟩ := symbols _ legibleToo.1
    rw [legible.2.lexeme_symbol isSymbol, legibleToo.2.lexeme_symbol isOther] at same
    rw [isSymbol, isOther, Symbol.spelling_injective same]
  · obtain ⟨keyword, isKeyword⟩ := keywords _ legible.1
    obtain ⟨other, isOther⟩ := keywords _ legibleToo.1
    rw [legible.2.lexeme_keyword isKeyword, legibleToo.2.lexeme_keyword isOther] at same
    rw [isKeyword, isOther, Keyword.text_injective same]
  · rw [names _ legible.1, names _ legibleToo.1]

/-- Tokens of the same role are told apart by their texts. -/
theorem token_eq (same : first.lexeme = second.lexeme) :
    withoutPlaces.token first = withoutPlaces.token second := by
  have sameKind := legible.kind_eq legibleToo same
  simp [withoutPlaces, same, sameKind]

/-- Tokens of the same role need not be told apart if the role has one text only. -/
theorem token_eq_of_role {text : String} (only : role.texts = [text]) :
    withoutPlaces.token first = withoutPlaces.token second := by
  have noName : role ≠ .name := by
    rintro rfl
    cases only
  have isText := legible.2.mem_texts legible.1 noName
  have isTextToo := legibleToo.2.mem_texts legibleToo.1 noName
  rw [only, List.mem_singleton] at isText isTextToo
  exact legible.token_eq legibleToo (isText.trans isTextToo.symm)

end Use.Legible

theorem tokens_eq :
    {first second : List Token} → (∀ use ∈ first.map (Use.token .name), use.Legible) →
    (∀ use ∈ second.map (Use.token .name), use.Legible) →
    first.map Token.form = second.map Token.form →
    first.map withoutPlaces.token = second.map withoutPlaces.token
  | [], [], _, _, _ => rfl
  | name :: rest, other :: others, legible, legibleToo, same => by
    obtain ⟨isName, areNames⟩ := List.forall_mem_cons.mp legible
    obtain ⟨isNameToo, areNamesToo⟩ := List.forall_mem_cons.mp legibleToo
    obtain ⟨sameName, sameRest⟩ := List.cons.inj same
    rw [List.map_cons, List.map_cons, isName.token_eq isNameToo (Form.word.inj sameName),
      tokens_eq areNames areNamesToo sameRest]

/-! ### Constructors -/

/-- The constructors of expressions. -/
inductive Construct where
  | literal
  | grouping
  | unary
  | binary
  | logical
  | ternary
  | «variable»
  | assign
  | call
  | lambda
deriving DecidableEq

/-- The constructor of an expression. -/
def Expr.construct : Expr → Construct
  | .literal _ => .literal
  | .grouping _ => .grouping
  | .unary _ _ => .unary
  | .binary _ _ _ => .binary
  | .logical _ _ _ => .logical
  | .ternary _ _ _ _ => .ternary
  | .variable _ _ => .variable
  | .assign _ _ _ => .assign
  | .call _ _ _ => .call
  | .lambda _ _ => .lambda

/-- The constructor of the expression that a form is the form of. -/
def Form.construct : Form → Construct
  | .word text => if text ∈ constantWords ∨ startsWithDigit text = true then .literal else .variable
  | .list (.word "group" :: _) => .grouping
  | .list (.word "?:" :: _) => .ternary
  | .list (.word "=" :: _) => .assign
  | .list (.word "call" :: _) => .call
  | .list (.word "fun" :: _) => .lambda
  | .list (.word "or" :: _) | .list (.word "and" :: _) => .logical
  | .list [_, _] => .unary
  | .list _ => .binary

theorem Literal.Legible.isConstant {value : Literal} (legible : value.Legible) :
    value.text ∈ constantWords ∨ startsWithDigit value.text = Bool.true := by
  cases value with
  | number value =>
    obtain ⟨magnitude, isFinite⟩ := legible
    exact .inr (startsWithDigit_inTree isFinite)
  | string => exact legible.elim
  | true | false | nil => exact .inl (by simp [Literal.text, constantWords])

theorem IsName.notConstant {name : String} (isName : IsName name) :
    ¬ (name ∈ constantWords ∨ startsWithDigit name = true) := by
  have reserved : ∀ text ∈ constantWords, ∃ keyword : Keyword, keyword.text = text := by
    simp only [constantWords, List.forall_mem_cons]
    exact ⟨⟨.true, rfl⟩, ⟨.false, rfl⟩, ⟨.nil, rfl⟩, nofun⟩
  rintro (isWord | isDigit)
  · obtain ⟨keyword, isText⟩ := reserved name isWord
    exact isName.notReserved keyword isText
  · obtain ⟨first, body, isText, isStart, -⟩ := isName.letters
    rw [startsWithDigit, isText] at isDigit
    exact isStart.not_digit isDigit

theorem construct_unary : ∀ text ∈ Role.unary.texts, ∀ right,
    (Form.list [.word text, right]).construct = .unary := by
  simp [Role.texts, Form.construct]

theorem construct_binary : ∀ text ∈ Role.binary.texts, ∀ left right,
    (Form.list [.word text, left, right]).construct = .binary := by
  simp [Role.texts, binarySymbols, Symbol.spelling, Form.construct]

theorem construct_logical : ∀ text ∈ Role.logical.texts, ∀ left right,
    (Form.list [.word text, left, right]).construct = .logical := by
  simp [Role.texts, Form.construct]

/-- The form of an expression tells its constructor. -/
theorem Expr.construct_form {value : Expr} (legible : ∀ use ∈ value.uses, use.Legible) :
    value.form.construct = value.construct := by
  cases value with
  | grouping | ternary | assign | call | lambda => rfl
  | literal value => exact if_pos (List.forall_mem_singleton.mp legible).isConstant
  | «variable» _ name =>
    have isName := List.forall_mem_singleton.mp legible
    exact if_neg (isName.2.isName isName.1).notConstant
  | unary operator right =>
    have isOperator := (List.forall_mem_cons.mp legible).1
    exact construct_unary _ (isOperator.2.mem_texts isOperator.1 nofun) _
  | binary left operator right =>
    have isOperator := (List.forall_mem_cons.mp (List.forall_mem_append.mp legible).2).1
    exact construct_binary _ (isOperator.2.mem_texts isOperator.1 nofun) _ _
  | logical left operator right =>
    have isOperator := (List.forall_mem_cons.mp (List.forall_mem_append.mp legible).2).1
    exact construct_logical _ (isOperator.2.mem_texts isOperator.1 nofun) _ _

/-- Expressions with the same form have the same constructor. -/
theorem Expr.construct_eq {first second : Expr} (legible : ∀ use ∈ first.uses, use.Legible)
    (legibleToo : ∀ use ∈ second.uses, use.Legible) (same : first.form = second.form) :
    first.construct = second.construct := by
  rw [← Expr.construct_form legible, same, Expr.construct_form legibleToo]

/-- The word that starts the form of a statement. -/
def Stmt.head : Stmt → String
  | .expression _ => ";"
  | .print _ _ => "print"
  | .var _ _ => "var"
  | .block _ => "block"
  | .if _ _ _ => "if"
  | .while _ _ => "while"
  | .function _ _ => "fun"
  | .return _ _ => "return"

theorem Stmt.form_eq (statement : Stmt) :
    ∃ parts, statement.form = .list (.word statement.head :: parts) := by
  cases statement with
  | var _ value => cases value <;> exact ⟨_, rfl⟩
  | «if» _ _ no => cases no <;> exact ⟨_, rfl⟩
  | «return» _ value => cases value <;> exact ⟨_, rfl⟩
  | _ => exact ⟨_, rfl⟩

/-- Statements with the same form start with the same word. -/
theorem Stmt.head_eq {first second : Stmt} (same : first.form = second.form) :
    first.head = second.head := by
  obtain ⟨_, isForm⟩ := first.form_eq
  obtain ⟨_, isFormToo⟩ := second.form_eq
  rw [isForm, isFormToo] at same
  exact Form.word.inj (List.cons.inj (Form.list.inj same)).1

/-! ### Trees -/

mutual

/-- Expressions with the same form are the same but for nodes and lines. -/
theorem Expr.eq_of_form : (first second : Expr) → (∀ use ∈ first.uses, use.Legible) →
    (∀ use ∈ second.uses, use.Legible) → first.form = second.form →
    first.relabel withoutPlaces = second.relabel withoutPlaces
  | .literal value, second, legible, legibleToo, same => by
    cases second <;> cases Expr.construct_eq legible legibleToo same
    next other =>
    have isValue := List.forall_mem_singleton.mp legible
    have isOther := List.forall_mem_singleton.mp legibleToo
    exact congrArg Expr.literal (Literal.eq_of_text isValue isOther (Form.word.inj same))
  | .variable _ name, second, legible, legibleToo, same => by
    cases second <;> cases Expr.construct_eq legible legibleToo same
    next other =>
    have isName := List.forall_mem_singleton.mp legible
    have isOther := List.forall_mem_singleton.mp legibleToo
    exact congrArg (Expr.variable ⟨0⟩) (isName.token_eq isOther (Form.word.inj same))
  | .grouping inner, second, legible, legibleToo, same => by
    cases second <;> cases Expr.construct_eq legible legibleToo same
    next other =>
    simp only [Expr.form, Form.list.injEq, List.cons.injEq] at same
    rw [Expr.relabel, Expr.relabel, inner.eq_of_form other legible legibleToo same.2.1]
  | .unary operator right, second, legible, legibleToo, same => by
    cases second <;> cases Expr.construct_eq legible legibleToo same
    next other rightToo =>
    simp only [Expr.form, Token.form, Form.list.injEq, Form.word.injEq, List.cons.injEq] at same
    obtain ⟨isOperator, isRight⟩ := List.forall_mem_cons.mp legible
    obtain ⟨isOther, isRightToo⟩ := List.forall_mem_cons.mp legibleToo
    rw [Expr.relabel, Expr.relabel, isOperator.token_eq isOther same.1,
      right.eq_of_form rightToo isRight isRightToo same.2.1]
  | .binary left operator right, second, legible, legibleToo, same
  | .logical left operator right, second, legible, legibleToo, same => by
    cases second <;> cases Expr.construct_eq legible legibleToo same
    next leftToo other rightToo =>
    simp only [Expr.form, Token.form, Form.list.injEq, Form.word.injEq, List.cons.injEq] at same
    obtain ⟨isLeft, isRest⟩ := List.forall_mem_append.mp legible
    obtain ⟨isLeftToo, isRestToo⟩ := List.forall_mem_append.mp legibleToo
    obtain ⟨isOperator, isRight⟩ := List.forall_mem_cons.mp isRest
    obtain ⟨isOther, isRightToo⟩ := List.forall_mem_cons.mp isRestToo
    rw [Expr.relabel, Expr.relabel, isOperator.token_eq isOther same.1,
      left.eq_of_form leftToo isLeft isLeftToo same.2.1,
      right.eq_of_form rightToo isRight isRightToo same.2.2.1]
  | .ternary condition question yes no, second, legible, legibleToo, same => by
    cases second <;> cases Expr.construct_eq legible legibleToo same
    next conditionToo questionToo yesToo noToo =>
    simp only [Expr.form, Form.list.injEq, List.cons.injEq] at same
    obtain ⟨isCondition, isRest⟩ := List.forall_mem_append.mp legible
    obtain ⟨isConditionToo, isRestToo⟩ := List.forall_mem_append.mp legibleToo
    obtain ⟨isQuestion, isRest⟩ := List.forall_mem_cons.mp isRest
    obtain ⟨isQuestionToo, isRestToo⟩ := List.forall_mem_cons.mp isRestToo
    obtain ⟨isYes, isNo⟩ := List.forall_mem_append.mp isRest
    obtain ⟨isYesToo, isNoToo⟩ := List.forall_mem_append.mp isRestToo
    rw [Expr.relabel, Expr.relabel, isQuestion.token_eq_of_role isQuestionToo rfl,
      condition.eq_of_form conditionToo isCondition isConditionToo same.2.1,
      yes.eq_of_form yesToo isYes isYesToo same.2.2.1,
        no.eq_of_form noToo isNo isNoToo same.2.2.2.1]
  | .assign _ name value, second, legible, legibleToo, same => by
    cases second <;> cases Expr.construct_eq legible legibleToo same
    next other valueToo =>
    simp only [Expr.form, Token.form, Form.list.injEq, Form.word.injEq, List.cons.injEq] at same
    obtain ⟨isName, isValue⟩ := List.forall_mem_cons.mp legible
    obtain ⟨isOther, isValueToo⟩ := List.forall_mem_cons.mp legibleToo
    rw [Expr.relabel, Expr.relabel, isName.token_eq isOther same.2.1,
      value.eq_of_form valueToo isValue isValueToo same.2.2.1]
    rfl
  | .call callee arguments closing, second, legible, legibleToo, same => by
    cases second <;> cases Expr.construct_eq legible legibleToo same
    next calleeToo argumentsToo closingToo =>
    simp only [Expr.form, Form.list.injEq, List.cons.injEq] at same
    obtain ⟨isRest, isClosing⟩ := List.forall_mem_append.mp legible
    obtain ⟨isRestToo, isClosingToo⟩ := List.forall_mem_append.mp legibleToo
    obtain ⟨isCallee, areArguments⟩ := List.forall_mem_append.mp isRest
    obtain ⟨isCalleeToo, areArgumentsToo⟩ := List.forall_mem_append.mp isRestToo
    have isClosing := List.forall_mem_singleton.mp isClosing
    have isClosingToo := List.forall_mem_singleton.mp isClosingToo
    rw [Expr.relabel, Expr.relabel, isClosing.token_eq_of_role isClosingToo rfl,
      callee.eq_of_form calleeToo isCallee isCalleeToo same.2.1,
      arguments_eq_of_forms arguments argumentsToo areArguments areArgumentsToo same.2.2]
  | .lambda keyword body, second, legible, legibleToo, same => by
    cases second <;> cases Expr.construct_eq legible legibleToo same
    next keywordToo bodyToo =>
    simp only [Expr.form, Form.list.injEq, List.cons.injEq] at same
    obtain ⟨isKeyword, isBody⟩ := List.forall_mem_cons.mp legible
    obtain ⟨isKeywordToo, isBodyToo⟩ := List.forall_mem_cons.mp legibleToo
    rw [Expr.relabel, Expr.relabel, isKeyword.token_eq_of_role isKeywordToo rfl,
      body.eq_of_forms bodyToo isBody isBodyToo same.2]
termination_by structural first => first

theorem arguments_eq_of_forms :
    (first second : List Expr) → (∀ use ∈ usesOfArguments first, use.Legible) →
    (∀ use ∈ usesOfArguments second, use.Legible) →
    formsOfArguments first = formsOfArguments second →
    relabelArguments withoutPlaces first = relabelArguments withoutPlaces second
  | [], [], _, _, _ => rfl
  | value :: rest, other :: others, legible, legibleToo, same => by
    obtain ⟨isValue, isRest⟩ := List.forall_mem_append.mp legible
    obtain ⟨isOther, isRestToo⟩ := List.forall_mem_append.mp legibleToo
    obtain ⟨sameValue, sameRest⟩ := List.cons.inj same
    rw [relabelArguments, relabelArguments, value.eq_of_form other isValue isOther sameValue,
      arguments_eq_of_forms rest others isRest isRestToo sameRest]
termination_by structural first => first

/-- Statements with the same form are the same but for nodes and lines. -/
theorem Stmt.eq_of_form : (first second : Stmt) → (∀ use ∈ first.uses, use.Legible) →
    (∀ use ∈ second.uses, use.Legible) → first.form = second.form →
    first.relabel withoutPlaces = second.relabel withoutPlaces
  | .expression value, second, legible, legibleToo, same => by
    have head := Stmt.head_eq same
    cases second <;> simp [Stmt.head] at head
    next other =>
    simp only [Stmt.form, Form.list.injEq, List.cons.injEq] at same
    rw [Stmt.relabel, Stmt.relabel, value.eq_of_form other legible legibleToo same.2.1]
  | .print keyword value, second, legible, legibleToo, same => by
    have head := Stmt.head_eq same
    cases second <;> simp [Stmt.head] at head
    next keywordToo other =>
    simp only [Stmt.form, Form.list.injEq, List.cons.injEq] at same
    obtain ⟨isKeyword, isValue⟩ := List.forall_mem_cons.mp legible
    obtain ⟨isKeywordToo, isOther⟩ := List.forall_mem_cons.mp legibleToo
    rw [Stmt.relabel, Stmt.relabel, isKeyword.token_eq_of_role isKeywordToo rfl,
      value.eq_of_form other isValue isOther same.2.1]
  | .var name none, second, legible, legibleToo, same => by
    have head := Stmt.head_eq same
    cases second <;> simp [Stmt.head] at head
    next other initializer =>
    cases initializer <;> simp [Stmt.form] at same
    have isName := List.forall_mem_singleton.mp legible
    have isOther := List.forall_mem_singleton.mp legibleToo
    rw [Stmt.relabel, Stmt.relabel, isName.token_eq isOther same]
  | .var name (some value), second, legible, legibleToo, same => by
    have head := Stmt.head_eq same
    cases second <;> simp [Stmt.head] at head
    next other initializer =>
    cases initializer <;> simp [Stmt.form] at same
    next valueToo =>
    obtain ⟨isName, isValue⟩ := List.forall_mem_cons.mp legible
    obtain ⟨isOther, isValueToo⟩ := List.forall_mem_cons.mp legibleToo
    rw [Stmt.relabel, Stmt.relabel, isName.token_eq isOther same.1,
      value.eq_of_form valueToo isValue isValueToo same.2]
  | .block statements, second, legible, legibleToo, same => by
    have head := Stmt.head_eq same
    cases second <;> simp [Stmt.head] at head
    next others =>
    simp only [Stmt.form, Form.list.injEq, List.cons.injEq] at same
    rw [Stmt.relabel, Stmt.relabel,
      statements_eq_of_forms statements others legible legibleToo same.2]
  | .if condition yes none, second, legible, legibleToo, same => by
    have head := Stmt.head_eq same
    cases second <;> simp [Stmt.head] at head
    next conditionToo yesToo no =>
    cases no <;> simp [Stmt.form] at same
    obtain ⟨isCondition, isYes⟩ := List.forall_mem_append.mp legible
    obtain ⟨isConditionToo, isYesToo⟩ := List.forall_mem_append.mp legibleToo
    rw [Stmt.relabel, Stmt.relabel,
      condition.eq_of_form conditionToo isCondition isConditionToo same.1,
      yes.eq_of_form yesToo isYes isYesToo same.2]
  | .if condition yes (some no), second, legible, legibleToo, same => by
    have head := Stmt.head_eq same
    cases second <;> simp [Stmt.head] at head
    next conditionToo yesToo noToo =>
    cases noToo <;> simp [Stmt.form] at same
    next noToo =>
    obtain ⟨isRest, isNo⟩ := List.forall_mem_append.mp legible
    obtain ⟨isRestToo, isNoToo⟩ := List.forall_mem_append.mp legibleToo
    obtain ⟨isCondition, isYes⟩ := List.forall_mem_append.mp isRest
    obtain ⟨isConditionToo, isYesToo⟩ := List.forall_mem_append.mp isRestToo
    rw [Stmt.relabel, Stmt.relabel,
      condition.eq_of_form conditionToo isCondition isConditionToo same.1,
      yes.eq_of_form yesToo isYes isYesToo same.2.1, no.eq_of_form noToo isNo isNoToo same.2.2]
  | .while condition body, second, legible, legibleToo, same => by
    have head := Stmt.head_eq same
    cases second <;> simp [Stmt.head] at head
    next conditionToo bodyToo =>
    simp only [Stmt.form, Form.list.injEq, List.cons.injEq] at same
    obtain ⟨isCondition, isBody⟩ := List.forall_mem_append.mp legible
    obtain ⟨isConditionToo, isBodyToo⟩ := List.forall_mem_append.mp legibleToo
    rw [Stmt.relabel, Stmt.relabel,
      condition.eq_of_form conditionToo isCondition isConditionToo same.2.1,
      body.eq_of_form bodyToo isBody isBodyToo same.2.2.1]
  | .function name body, second, legible, legibleToo, same => by
    have head := Stmt.head_eq same
    cases second <;> simp [Stmt.head] at head
    next other bodyToo =>
    simp only [Stmt.form, Token.form, Form.list.injEq, Form.word.injEq, List.cons.injEq] at same
    obtain ⟨isName, isBody⟩ := List.forall_mem_cons.mp legible
    obtain ⟨isOther, isBodyToo⟩ := List.forall_mem_cons.mp legibleToo
    rw [Stmt.relabel, Stmt.relabel, isName.token_eq isOther same.2.1,
      body.eq_of_forms bodyToo isBody isBodyToo same.2.2]
  | .return keyword none, second, legible, legibleToo, same => by
    have head := Stmt.head_eq same
    cases second <;> simp [Stmt.head] at head
    next keywordToo value =>
    cases value <;> simp [Stmt.form] at same
    have isKeyword := List.forall_mem_singleton.mp legible
    have isKeywordToo := List.forall_mem_singleton.mp legibleToo
    rw [Stmt.relabel, Stmt.relabel, isKeyword.token_eq_of_role isKeywordToo rfl]
  | .return keyword (some value), second, legible, legibleToo, same => by
    have head := Stmt.head_eq same
    cases second <;> simp [Stmt.head] at head
    next keywordToo valueToo =>
    cases valueToo <;> simp [Stmt.form] at same
    next valueToo =>
    obtain ⟨isKeyword, isValue⟩ := List.forall_mem_cons.mp legible
    obtain ⟨isKeywordToo, isValueToo⟩ := List.forall_mem_cons.mp legibleToo
    rw [Stmt.relabel, Stmt.relabel, isKeyword.token_eq_of_role isKeywordToo rfl,
      value.eq_of_form valueToo isValue isValueToo same]
termination_by structural first => first

theorem statements_eq_of_forms :
    (first second : List Stmt) → (∀ use ∈ usesOfStatements first, use.Legible) →
    (∀ use ∈ usesOfStatements second, use.Legible) →
    formsOfStatements first = formsOfStatements second →
    relabelStatements withoutPlaces first = relabelStatements withoutPlaces second
  | [], [], _, _, _ => rfl
  | statement :: rest, other :: others, legible, legibleToo, same => by
    obtain ⟨isStatement, isRest⟩ := List.forall_mem_append.mp legible
    obtain ⟨isOther, isRestToo⟩ := List.forall_mem_append.mp legibleToo
    obtain ⟨sameStatement, sameRest⟩ := List.cons.inj same
    rw [relabelStatements, relabelStatements,
      statement.eq_of_form other isStatement isOther sameStatement,
      statements_eq_of_forms rest others isRest isRestToo sameRest]
termination_by structural first => first

theorem FunctionBody.eq_of_forms :
    (first second : FunctionBody) → (∀ use ∈ first.uses, use.Legible) →
    (∀ use ∈ second.uses, use.Legible) → first.forms = second.forms →
    first.relabel withoutPlaces = second.relabel withoutPlaces
  | ⟨parameters, statements⟩, ⟨parametersToo, statementsToo⟩, legible, legibleToo, same => by
    obtain ⟨areNames, areStatements⟩ := List.forall_mem_append.mp legible
    obtain ⟨areNamesToo, areStatementsToo⟩ := List.forall_mem_append.mp legibleToo
    obtain ⟨sameNames, sameStatements⟩ := List.cons.inj same
    rw [FunctionBody.relabel, FunctionBody.relabel,
      tokens_eq areNames areNamesToo (Form.list.inj sameNames),
      statements_eq_of_forms statements statementsToo areStatements areStatementsToo sameStatements]
termination_by structural first => first

end

/-! ### Programs -/

/-- **The text of a program determines its tree.** Take any two texts that are read as programs,
without strings and with finite numbers only. If the programs are written alike, they are the same
but for the identities of nodes and the lines of tokens. -/
theorem text_determines_program {first second : String} {index other later laterToo : Nat}
    {program programToo : List Stmt} (read : readProgram first index = (.ok program, later))
    (readToo : readProgram second other = (.ok programToo, laterToo))
    (printable : Printable (tokensOf (Utf8.encode first)))
    (printableToo : Printable (tokensOf (Utf8.encode second)))
    (sameText : programText program = programText programToo) :
    relabelStatements withoutPlaces program = relabelStatements withoutPlaces programToo := by
  have legible := legible_of_readProgram read printable
  have legibleToo := legible_of_readProgram readToo printableToo
  have sameChars := congrArg String.toList sameText
  rw [toList_programText, toList_programText] at sameChars
  exact statements_eq_of_forms program programToo legible legibleToo
    (forms_of_lines (legible_formsOfStatements program legible)
      (legible_formsOfStatements programToo legibleToo) sameChars)

/-- Two spellings of a call that are written alike. -/
theorem call_spelled_twice :
    ∃ program programToo, readProgram "-f(1);" 0 = (.ok program, 1) ∧
      readProgram "- f(\n1.0);" 7 = (.ok programToo, 8) ∧
      programText program = "(; (- (call f 1.0)))" ∧
      programText programToo = "(; (- (call f 1.0)))" ∧
      relabelStatements withoutPlaces program = relabelStatements withoutPlaces programToo := by
  have printable : Printable (tokensOf (Utf8.encode "-f(1);")) := by
    have tokens : tokensOf (Utf8.encode "-f(1);") =
        [⟨.symbol .minus, "-", 1⟩, ⟨.identifier, "f", 1⟩, ⟨.symbol .leftParen, "(", 1⟩,
        ⟨.number (readNumber ['1']), "1", 1⟩, ⟨.symbol .rightParen, ")", 1⟩,
        ⟨.symbol .semicolon, ";", 1⟩, .finish 1] := rfl
    have isOne : Reading.ofFloat (readNumber ['1']) = .finite false ⟨2 ^ 52, 1022⟩ := by
      decide +kernel
    constructor <;> simp [tokens, Token.finish, isOne]
  have printableToo : Printable (tokensOf (Utf8.encode "- f(\n1.0);")) := by
    have tokens : tokensOf (Utf8.encode "- f(\n1.0);") =
        [⟨.symbol .minus, "-", 1⟩, ⟨.identifier, "f", 1⟩, ⟨.symbol .leftParen, "(", 1⟩,
        ⟨.number (readNumber ['1', '.', '0']), "1.0", 2⟩, ⟨.symbol .rightParen, ")", 2⟩,
        ⟨.symbol .semicolon, ";", 2⟩, .finish 2] := rfl
    have isOne : Reading.ofFloat (readNumber ['1', '.', '0']) =
      .finite false ⟨2 ^ 52, 1022⟩ := by decide +kernel
    constructor <;> simp [tokens, Token.finish, isOne]
  refine ⟨_, _, rfl, rfl, by decide +kernel, by decide +kernel, ?_⟩
  exact text_determines_program rfl rfl printable printableToo (by decide +kernel)

end Lox
