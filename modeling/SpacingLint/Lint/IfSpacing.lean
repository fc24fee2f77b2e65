import SpacingLint.Lint.Rule
import SpacingLint.Tree.View

/-! # The rule of the space after `if`

Between the keyword of an `if` statement and the parenthesis of its condition there
has to be a single space.  Only the last trivia that trails the keyword is judged: a
comment may come before the space, and a space before a comment does not help.  A
statement without keyword or parenthesis, or with the parenthesis in front, is left
alone.  The finding covers the keyword and all up to the parenthesis.
-/
namespace SpacingLint
namespace IfSpacing

/-- The identity of the rule. -/
def descriptor : Descriptor where
  id := "IfSpacing"
  title := "If statement must have a space between 'if' and the boolean expression"
  messageFormat :=
    "If statements must contain a space between the 'if' keyword and the boolean expression"
  category := "Syntax"
  severity := .warning
  enabledByDefault := true
  description :=
    "Requires exactly one space between the `if` keyword and its opening parenthesis"

/-- Whether a token is followed by trivia that ends in a run of one space. -/
def endsInSpace (token : Token) : Bool :=
  token.trailing.getLast?.any fun last => last.kind = .whitespace && last.text = " "

/-- What is to be replaced to mend an `if` statement; `none` if nothing is. -/
def offence? (statement : IfStatement) : Option Span := do
  let keyword ← statement.ifKeyword?
  let paren ← statement.openParen?
  let span ← Span.between? keyword.span.start paren.span.start
  if endsInSpace keyword then none else some span

/-- What the rule finds at a node. -/
def findings (_ : Tree) (node : Node) : List Diagnostic :=
  ((node.asIfStatement?.bind offence?).map (Diagnostic.ofArguments descriptor · [])).toList

/-- The rule, as the object of a handle. -/
def rule (handle : Nat) : Rule where
  handle := handle
  descriptor := descriptor
  kinds := [.ifStatement]
  findings := findings

end IfSpacing
end SpacingLint
