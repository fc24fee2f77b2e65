/-! # Kinds of nodes and tokens

One enumeration names everything a tree is made of: the constructs of the language
first, then its tokens.  Trivia, the text between tokens that carries no meaning of
its own, has kinds apart.
-/
namespace SpacingLint

/-- What a node or token is. -/
inductive Kind where
  | compilationUnit
  | ifStatement
  | elseClause
  | block
  | expressionStatement
  | expression
  | ifKeyword
  | elseKeyword
  | identifier
  | numberLiteral
  | openParen
  | closeParen
  | openBrace
  | closeBrace
  | semicolon
  | operator
  | endOfFile
deriving DecidableEq, Inhabited

namespace Kind

/-- Every kind, in declared order. -/
def all : List Kind :=
  [compilationUnit, ifStatement, elseClause, block, expressionStatement, expression,
    ifKeyword, elseKeyword, identifier, numberLiteral, openParen, closeParen, openBrace,
    closeBrace, semicolon, operator, endOfFile]

/-- The name a kind is shown under. -/
def name : Kind → String
  | compilationUnit => "CompilationUnit"
  | ifStatement => "IfStatement"
  | elseClause => "ElseClause"
  | block => "Block"
  | expressionStatement => "ExpressionStatement"
  | expression => "Expression"
  | ifKeyword => "IfKeyword"
  | elseKeyword => "ElseKeyword"
  | identifier => "Identifier"
  | numberLiteral => "NumberLiteral"
  | openParen => "OpenParen"
  | closeParen => "CloseParen"
  | openBrace => "OpenBrace"
  | closeBrace => "CloseBrace"
  | semicolon => "Semicolon"
  | operator => "Operator"
  | endOfFile => "EndOfFile"

instance : ToString Kind := ⟨name⟩

/-- The kind of a name. -/
def ofName? (name : String) : Option Kind :=
  all.find? fun kind => kind.name == name

/-- The kinds of nodes that are statements. -/
def isStatement : Kind → Bool
  | ifStatement | block | expressionStatement => true
  | _ => false

theorem ofName?_name (kind : Kind) : ofName? kind.name = some kind := by
  cases kind <;> decide

end Kind

/-- What a piece of trivia is. -/
inductive TriviaKind where
  /-- Blanks and tabs. -/
  | whitespace
  /-- A line break: a line feed, alone or after a carriage return. -/
  | endOfLine
  /-- A comment that ends with its line. -/
  | singleLineComment
  /-- A comment between delimiters. -/
  | multiLineComment
deriving DecidableEq, Inhabited

namespace TriviaKind

/-- Every kind of trivia, in declared order. -/
def all : List TriviaKind := [whitespace, endOfLine, singleLineComment, multiLineComment]

/-- The name a kind of trivia is shown under. -/
def name : TriviaKind → String
  | whitespace => "Whitespace"
  | endOfLine => "EndOfLine"
  | singleLineComment => "SingleLineComment"
  | multiLineComment => "MultiLineComment"

instance : ToString TriviaKind := ⟨name⟩

/-- The kind of trivia of a name. -/
def ofName? (name : String) : Option TriviaKind :=
  all.find? fun kind => kind.name == name

theorem ofName?_name (kind : TriviaKind) : ofName? kind.name = some kind := by
  cases kind <;> decide

end TriviaKind
end SpacingLint
