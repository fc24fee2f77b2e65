import SpacingLint.Source.Parser

/-! # The grammar

The grammar of units as a relation between a construct and the shapes that make it up,
with one rule for every way of making it.  Expressions need no foresight.  Statements do:
a part of an `if` statement may be left out, and whether it is depends on the kind of the
lexeme that follows, so the rules for statements name that kind (`next`).  What a construct
begins with is enough to tell what it is (`Derives.statement_cases`), and what comes next
is enough to tell what was left out (`Derives.ne_nil_iff`).
-/
namespace SpacingLint

@[simp] theorem Shape.allLexemes_nil : allLexemes [] = [] := rfl

@[simp] theorem Shape.allLexemes_leaf (lexeme : Lexeme) (more : List Shape) :
    allLexemes (.leaf lexeme :: more) = lexeme :: allLexemes more := rfl

@[simp] theorem Shape.allLexemes_node (kind : Kind) (children more : List Shape) :
    allLexemes (.node kind children :: more) = allLexemes children ++ allLexemes more := rfl

@[simp] theorem Parser.peek_cons (lexeme : Lexeme) (ls : List Lexeme) :
    peek (lexeme :: ls) = lexeme.kind := rfl

namespace Grammar

/-- The kind of the first lexeme of some shapes, or `next` if they have none. -/
def firstKind (shapes : List Shape) (next : Kind) : Kind :=
  match Shape.allLexemes shapes with
  | [] => next
  | lexeme :: _ => lexeme.kind

/-- The constructs an expression is made of. -/
inductive Phrase where
  /-- A name, a number, or an expression in parentheses. -/
  | operand
  /-- Operators, each with the operand after it. -/
  | operations
  /-- An expression. -/
  | expression

/-- **The grammar of expressions**: the shapes that make up a phrase. -/
inductive Expresses : Phrase → List Shape → Prop
  | atom {lexeme : Lexeme}
      (hkind : lexeme.kind = .identifier ∨ lexeme.kind = .numberLiteral) :
      Expresses .operand [.leaf lexeme]
  | parenthesised {opening closing : Lexeme} {inner : List Shape}
      (hopening : opening.kind = .openParen) (hinner : Expresses .expression inner)
      (hclosing : closing.kind = .closeParen) :
      Expresses .operand (.leaf opening :: (inner ++ [.leaf closing]))
  | noOperation : Expresses .operations []
  | operation {operator : Lexeme} {operand more : List Shape}
      (hoperator : operator.kind = .operator) (hoperand : Expresses .operand operand)
      (hmore : Expresses .operations more) :
      Expresses .operations (.leaf operator :: (operand ++ more))
  | expression {first more : List Shape} (hfirst : Expresses .operand first)
      (hmore : Expresses .operations more) :
      Expresses .expression [.node .expression (first ++ more)]

/-- The constructs a unit is made of. -/
inductive Clause where
  /-- A statement. -/
  | statement
  /-- The condition of an `if` statement, or nothing. -/
  | condition
  /-- The statement an `if` or `else` guards, or nothing. -/
  | guarded
  /-- The `else` clause of an `if` statement, or nothing. -/
  | otherwise
  /-- Any number of statements. -/
  | statements

/-- The kinds that end a statement, so that none begins with them: the end of the file, the end
of a block, and the keyword of an `else` clause. -/
def EndsStatement (kind : Kind) : Prop :=
  kind = .endOfFile ∨ kind = .closeBrace ∨ kind = .elseKeyword

instance (kind : Kind) : Decidable (EndsStatement kind) :=
  inferInstanceAs (Decidable (_ ∨ _ ∨ _))

/-- **The grammar of statements**: the shapes that make up a clause before a lexeme of the
kind `next`.  The parts of an `if` statement that are left out are left out because of
what follows them. -/
inductive Derives : Clause → Kind → List Shape → Prop
  | ifStatement {next : Kind} {keyword : Lexeme} {test body otherwise : List Shape}
      (hkeyword : keyword.kind = .ifKeyword)
      (htest : Derives .condition (firstKind (body ++ otherwise) next) test)
      (hbody : Derives .guarded (firstKind otherwise next) body)
      (hotherwise : Derives .otherwise next otherwise) :
      Derives .statement next
        [.node .ifStatement (.leaf keyword :: (test ++ (body ++ otherwise)))]
  | block {next : Kind} {opening closing : Lexeme} {body : List Shape}
      (hopening : opening.kind = .openBrace) (hbody : Derives .statements .closeBrace body)
      (hclosing : closing.kind = .closeBrace) :
      Derives .statement next [.node .block (.leaf opening :: (body ++ [.leaf closing]))]
  | expressionStatement {next : Kind} {semicolon : Lexeme} {value : List Shape}
      (hvalue : Expresses .expression value) (hsemicolon : semicolon.kind = .semicolon) :
      Derives .statement next [.node .expressionStatement (value ++ [.leaf semicolon])]
  | noCondition {next : Kind} (hnext : next ≠ .openParen) : Derives .condition next []
  | condition {next : Kind} {opening closing : Lexeme} {inner : List Shape}
      (hopening : opening.kind = .openParen) (hinner : Expresses .expression inner)
      (hclosing : closing.kind = .closeParen) :
      Derives .condition next (.leaf opening :: (inner ++ [.leaf closing]))
  | unguarded {next : Kind} (hnext : EndsStatement next) : Derives .guarded next []
  | guarded {next : Kind} {body : List Shape} (hbody : Derives .statement next body) :
      Derives .guarded next body
  | noElse {next : Kind} (hnext : next ≠ .elseKeyword) : Derives .otherwise next []
  | elseClause {next : Kind} {keyword : Lexeme} {body : List Shape}
      (hkeyword : keyword.kind = .elseKeyword) (hbody : Derives .guarded next body) :
      Derives .otherwise next [.node .elseClause (.leaf keyword :: body)]
  | noStatement {next : Kind} : Derives .statements next []
  | statements {next : Kind} {first more : List Shape}
      (hfirst : Derives .statement (firstKind more next) first)
      (hmore : Derives .statements next more) : Derives .statements next (first ++ more)

/-- A unit: statements, and the end of the file. -/
def IsUnit (shape : Shape) : Prop :=
  ∃ body last, shape = .node .compilationUnit (body ++ [.leaf last]) ∧
    Derives .statements .endOfFile body ∧ last.kind = .endOfFile

/-! ## What constructs begin with -/

@[simp] theorem firstKind_nil (next : Kind) : firstKind [] next = next := rfl

@[simp] theorem firstKind_leaf (lexeme : Lexeme) (rest : List Shape) (next : Kind) :
    firstKind (.leaf lexeme :: rest) next = lexeme.kind := rfl

@[simp] theorem firstKind_node (kind : Kind) (children : List Shape) (next : Kind) :
    firstKind [.node kind children] next = firstKind children next := by
  simp [firstKind, Shape.allLexemes, Shape.lexemes]

@[simp] theorem firstKind_append (shapes more : List Shape) (next : Kind) :
    firstKind (shapes ++ more) next = firstKind shapes (firstKind more next) := by
  unfold firstKind
  rw [Shape.allLexemes_append]
  cases Shape.allLexemes shapes <;> rfl

theorem peek_append (shapes : List Shape) (rest : List Lexeme) :
    Parser.peek (Shape.allLexemes shapes ++ rest) = firstKind shapes (Parser.peek rest) := by
  unfold firstKind
  cases Shape.allLexemes shapes <;> rfl

/-- The kinds an expression begins with. -/
def StartsExpression (kind : Kind) : Prop :=
  kind = .identifier ∨ kind = .numberLiteral ∨ kind = .openParen

/-- The kinds a statement begins with. -/
def StartsStatement (kind : Kind) : Prop :=
  kind = .ifKeyword ∨ kind = .openBrace ∨ StartsExpression kind

theorem Expresses.starts {phrase : Phrase} {shapes : List Shape} (h : Expresses phrase shapes)
    (hphrase : phrase ≠ .operations) (next : Kind) :
    StartsExpression (firstKind shapes next) := by
  induction h generalizing next with
  | atom hkind =>
    rcases hkind with hkind | hkind
    · exact .inl hkind
    · exact .inr (.inl hkind)
  | parenthesised hopening => exact .inr (.inr hopening)
  | noOperation => exact absurd rfl hphrase
  | operation => exact absurd rfl hphrase
  | expression _ _ ih =>
    rw [firstKind_node, firstKind_append]
    exact ih nofun _

/-- **The first lexeme of a statement decides what it is.** -/
theorem Derives.statement_cases {next : Kind} {shapes : List Shape}
    (h : Derives .statement next shapes) (after : Kind) :
    ∃ kind children, shapes = [.node kind children] ∧
      (kind = .ifStatement ∧ firstKind children after = .ifKeyword ∨
        kind = .block ∧ firstKind children after = .openBrace ∨
        kind = .expressionStatement ∧ StartsExpression (firstKind children after)) := by
  cases h with
  | ifStatement hkeyword => exact ⟨_, _, rfl, .inl ⟨rfl, hkeyword⟩⟩
  | block hopening => exact ⟨_, _, rfl, .inr (.inl ⟨rfl, hopening⟩)⟩
  | expressionStatement hvalue =>
    refine ⟨_, _, rfl, .inr (.inr ⟨rfl, ?_⟩)⟩
    rw [firstKind_append]
    exact hvalue.starts nofun _

theorem Derives.starts {next : Kind} {shapes : List Shape} (h : Derives .statement next shapes)
    (after : Kind) : StartsStatement (firstKind shapes after) := by
  obtain ⟨kind, children, rfl, hcases⟩ := h.statement_cases after
  rw [firstKind_node]
  rcases hcases with ⟨-, hfirst⟩ | ⟨-, hfirst⟩ | ⟨-, hfirst⟩
  · exact .inl hfirst
  · exact .inr (.inl hfirst)
  · exact .inr (.inr hfirst)

theorem StartsStatement.not_ends {kind : Kind} (h : StartsStatement kind) :
    ¬ EndsStatement kind := by
  rcases h with rfl | rfl | rfl | rfl | rfl <;> decide

/-- **The next lexeme decides what is left out**: the condition of an `if` statement is
there exactly if a parenthesis is next, a guarded statement exactly if what is next does
not end the statement, and an `else` clause exactly if its keyword is next. -/
theorem Derives.ne_nil_iff {clause : Clause} {next : Kind} {shapes : List Shape}
    (h : Derives clause next shapes) :
    match clause with
    | .condition => shapes ≠ [] ↔ firstKind shapes next = .openParen
    | .guarded => shapes ≠ [] ↔ ¬ EndsStatement (firstKind shapes next)
    | .otherwise => shapes ≠ [] ↔ firstKind shapes next = .elseKeyword
    | .statement => shapes ≠ []
    | .statements => True := by
  cases h with
  | ifStatement => exact List.cons_ne_nil _ _
  | block => exact List.cons_ne_nil _ _
  | expressionStatement => exact List.cons_ne_nil _ _
  | noCondition hnext => exact iff_of_false (fun hne => hne rfl) hnext
  | condition hopening => exact iff_of_true (List.cons_ne_nil _ _) hopening
  | unguarded hnext => exact iff_of_false (fun hne => hne rfl) (not_not_intro hnext)
  | guarded hbody =>
    obtain ⟨_, _, rfl, -⟩ := hbody.statement_cases next
    exact iff_of_true (List.cons_ne_nil _ _) (hbody.starts next).not_ends
  | noElse hnext => exact iff_of_false (fun hne => hne rfl) hnext
  | elseClause hkeyword =>
    refine iff_of_true (List.cons_ne_nil _ _) ?_
    rw [firstKind_node]
    exact hkeyword
  | noStatement => trivial
  | statements => trivial

end Grammar

end SpacingLint
