import SpacingLint.Source.Shape

/-! # Parsing

The language has statements and expressions:

* a unit is a list of statements and the end of the file;
* a statement is an `if` statement, a block, or an expression and a semicolon;
* an `if` statement is its keyword, a condition in parentheses if a parenthesis
  follows, the statement it guards, and an `else` clause if the keyword follows;
* an `else` clause is its keyword and the statement it guards;
* a guarded statement is left out before the end of the file, a closing brace and
  the keyword `else`;
* a block is a list of statements between braces;
* an expression is a list of operands with operators between them, and an operand
  is a name, a number, or an expression in parentheses.

One lexeme of foresight decides every choice.  Each function below reads one
construct off the front of a list of lexemes and returns its shapes together with
the lexemes after it, of which there are fewer than a bound given in the type; that
is why parsing ends.
-/
namespace SpacingLint
namespace Parser

/-- Shapes read off the front of a list of lexemes, and the lexemes after them: fewer
than `bound`. -/
structure Parsed (bound : Nat) where
  /-- The shapes. -/
  shapes : List Shape
  /-- The lexemes after them. -/
  rest : List Lexeme
  /-- How many those are at most. -/
  rest_lt : rest.length < bound

/-- The kind of the first lexeme. -/
def peek : List Lexeme → Kind
  | [] => .endOfFile
  | lexeme :: _ => lexeme.kind

/-- The error that the first lexeme is not the wanted one. -/
def unexpected (expected : Expectation) : List Lexeme → SourceError
  | [] => .unexpectedToken 0 expected ""
  | lexeme :: _ => .unexpectedToken lexeme.offset expected lexeme.text

/-- Reads one lexeme. -/
def bump : (ls : List Lexeme) → Except SourceError (Parsed ls.length)
  | [] => .error (unexpected .token [])
  | lexeme :: rest => .ok ⟨[.leaf lexeme], rest, Nat.lt_succ_self _⟩

/-- Reads one lexeme of a kind. -/
def expect (kind : Kind) (expected : Expectation) (ls : List Lexeme) :
    Except SourceError (Parsed ls.length) :=
  if peek ls = kind then bump ls else .error (unexpected expected ls)

/-- Reads nothing. -/
def nothing (ls : List Lexeme) : Parsed (ls.length + 1) := ⟨[], ls, Nat.lt_succ_self _⟩

/-- The same result under a bound larger by one. -/
def Parsed.relax {bound : Nat} (parsed : Parsed bound) : Parsed (bound + 1) :=
  ⟨parsed.shapes, parsed.rest, Nat.lt_succ_of_lt parsed.rest_lt⟩

/-- One construct and another read after it. -/
def Parsed.andThen {bound after : Nat} (first : Parsed bound) (second : Parsed after)
    (h : after ≤ first.rest.length + 1 := by
      first
      | exact Nat.le_refl _
      | exact Nat.le_succ _) : Parsed bound :=
  ⟨first.shapes ++ second.shapes, second.rest, by
    have := first.rest_lt
    have := second.rest_lt
    omega⟩

/-- The shapes read so far, as the children of one node. -/
def Parsed.wrap {bound : Nat} (kind : Kind) (parsed : Parsed bound) : Parsed bound :=
  { parsed with shapes := [.node kind parsed.shapes] }

section Parts

variable {bound after : Nat} (first : Parsed bound) (second : Parsed after)
  (h : after ≤ first.rest.length + 1) (kind : Kind) (ls : List Lexeme)

@[simp] theorem shapes_nothing : (nothing ls).shapes = [] := rfl

@[simp] theorem rest_nothing : (nothing ls).rest = ls := rfl

@[simp] theorem Parsed.shapes_relax : first.relax.shapes = first.shapes := rfl

@[simp] theorem Parsed.rest_relax : first.relax.rest = first.rest := rfl

@[simp] theorem Parsed.shapes_andThen :
    (first.andThen second h).shapes = first.shapes ++ second.shapes := rfl

@[simp] theorem Parsed.rest_andThen : (first.andThen second h).rest = second.rest := rfl

@[simp] theorem Parsed.shapes_wrap : (first.wrap kind).shapes = [.node kind first.shapes] := rfl

@[simp] theorem Parsed.rest_wrap : (first.wrap kind).rest = first.rest := rfl

end Parts

/-! ## Expressions -/

mutual

/-- An expression. -/
def expression (ls : List Lexeme) : Except SourceError (Parsed ls.length) := do
  let first ← operand ls
  let more ← operations first.rest
  return (first.andThen more).wrap .expression
termination_by 2 * ls.length + 1
decreasing_by
  · omega
  · have := first.rest_lt
    omega

/-- Operators, each with the operand after it, as long as there are any. -/
def operations (ls : List Lexeme) : Except SourceError (Parsed (ls.length + 1)) := do
  if peek ls = .operator then
    let operator ← bump ls
    let next ← operand operator.rest
    let more ← operations next.rest
    return ((operator.andThen next).andThen more).relax
  else
    return nothing ls
termination_by 2 * ls.length
decreasing_by
  · have := operator.rest_lt
    omega
  · have := operator.rest_lt
    have := next.rest_lt
    omega

/-- A name, a number, or an expression in parentheses. -/
def operand (ls : List Lexeme) : Except SourceError (Parsed ls.length) := do
  match peek ls with
  | .identifier | .numberLiteral => bump ls
  | .openParen =>
    let opening ← bump ls
    let inner ← expression opening.rest
    let closing ← expect .closeParen .closeParen inner.rest
    return (opening.andThen inner).andThen closing
  | _ => .error (unexpected .expression ls)
termination_by 2 * ls.length
decreasing_by
  have := opening.rest_lt
  omega

end

/-! ## Statements -/

/-- The kinds before which a guarded statement is left out. -/
def endsStatement : Kind → Bool
  | .endOfFile | .closeBrace | .elseKeyword => true
  | _ => false

/-- The condition of an `if` statement, if a parenthesis follows. -/
def condition (ls : List Lexeme) : Except SourceError (Parsed (ls.length + 1)) := do
  if peek ls = .openParen then
    let opening ← bump ls
    let inner ← expression opening.rest
    let closing ← expect .closeParen .closeParen inner.rest
    return ((opening.andThen inner).andThen closing).relax
  else
    return nothing ls

/-- An expression and a semicolon. -/
def expressionStatement (ls : List Lexeme) : Except SourceError (Parsed ls.length) := do
  let value ← expression ls
  let semicolon ← expect .semicolon .semicolon value.rest
  return (value.andThen semicolon).wrap .expressionStatement

mutual

/-- A statement. -/
def statement (ls : List Lexeme) : Except SourceError (Parsed ls.length) :=
  match peek ls with
  | .ifKeyword => ifStatement ls
  | .openBrace => block ls
  | _ => expressionStatement ls
termination_by 3 * ls.length + 1
decreasing_by all_goals omega

/-- An `if` statement. -/
def ifStatement (ls : List Lexeme) : Except SourceError (Parsed ls.length) := do
  let keyword ← bump ls
  let test ← condition keyword.rest
  let body ← guarded test.rest
  let otherwise ← elseClause body.rest
  return (((keyword.andThen test).andThen body).andThen otherwise).wrap .ifStatement
termination_by 3 * ls.length
decreasing_by
  · have := keyword.rest_lt
    have := test.rest_lt
    omega
  · have := keyword.rest_lt
    have := test.rest_lt
    have := body.rest_lt
    omega

/-- An `else` clause, if the keyword follows. -/
def elseClause (ls : List Lexeme) : Except SourceError (Parsed (ls.length + 1)) := do
  if peek ls = .elseKeyword then
    let keyword ← bump ls
    let body ← guarded keyword.rest
    return ((keyword.andThen body).wrap .elseClause).relax
  else
    return nothing ls
termination_by 3 * ls.length
decreasing_by
  have := keyword.rest_lt
  omega

/-- The statement that an `if` or `else` guards, if there is one. -/
def guarded (ls : List Lexeme) : Except SourceError (Parsed (ls.length + 1)) := do
  if endsStatement (peek ls) then
    return nothing ls
  else
    let body ← statement ls
    return body.relax
termination_by 3 * ls.length + 2
decreasing_by omega

/-- A block. -/
def block (ls : List Lexeme) : Except SourceError (Parsed ls.length) := do
  let opening ← expect .openBrace .openBrace ls
  let body ← statements true opening.rest
  let closing ← expect .closeBrace .closeBrace body.rest
  return ((opening.andThen body).andThen closing).wrap .block
termination_by 3 * ls.length
decreasing_by
  have := opening.rest_lt
  omega

/-- Statements up to the end of the file, or to a closing brace if `inBlock` is set. -/
def statements (inBlock : Bool) (ls : List Lexeme) :
    Except SourceError (Parsed (ls.length + 1)) := do
  if peek ls = .endOfFile || (inBlock && peek ls = .closeBrace) then
    return nothing ls
  else
    let first ← statement ls
    let more ← statements inBlock first.rest
    return (first.andThen more).relax
termination_by 3 * ls.length + 2
decreasing_by
  · omega
  · have := first.rest_lt
    omega

end

/-- A unit. -/
def unit (ls : List Lexeme) : Except SourceError Shape := do
  let body ← statements false ls
  let last ← bump body.rest
  return .node .compilationUnit (body.shapes ++ last.shapes)

end Parser

/-- The shape of a whole source text. -/
def Shape.ofText (text : String) : Except SourceError Shape := do
  let lexemes ← Lexeme.ofText text
  Parser.unit lexemes

/-- The tree of a source text. -/
def Tree.ofText (text : String) : Except SourceError Tree := do
  let shape ← Shape.ofText text
  match Tree.ofCalls shape.calls with
  | .ok tree => .ok tree
  | .error error => .error (.build error)

end SpacingLint
