import SpacingLint.Text.Quoted
import SpacingLint.Tree.Builder

/-! # What can be wrong with a source text

A text is refused for one of two reasons at the level of characters (a character
that begins nothing, a comment that does not end), for a token where the grammar
wants another, or for an error of the tree builder, which parsing never provokes.
Offsets are byte offsets into the text.
-/
namespace SpacingLint

/-- What the grammar asks for at some point. -/
inductive Expectation where
  | closeParen
  | openBrace
  | closeBrace
  | semicolon
  | expression
  | token
deriving DecidableEq

namespace Expectation

/-- How the wanted thing is called. -/
def describe : Expectation → String
  | closeParen => "')'"
  | openBrace => "'\x7b'"
  | closeBrace => "'\x7d'"
  | semicolon => "';'"
  | expression => "an expression"
  | token => "a token"

end Expectation

/-- Why a source text is refused. -/
inductive SourceError where
  /-- The character `found` at `offset` begins neither trivia nor a token. -/
  | unexpectedCharacter (offset : Nat) (found : Char)
  /-- The token at `offset`, whose text is `found`, is not what the grammar wants. -/
  | unexpectedToken (offset : Nat) (expected : Expectation) (found : String)
  /-- The comment that opens at `offset` has no end. -/
  | unterminatedComment (offset : Nat)
  /-- The tree could not be built. -/
  | build (error : BuildError)
deriving DecidableEq

namespace SourceError

/-- What is said about the error. -/
def message : SourceError → String
  | unexpectedCharacter offset found =>
    s!"unexpected character {Text.quotedChar found} at offset {offset}"
  | unexpectedToken offset expected found =>
    s!"expected {expected.describe} at offset {offset}, found {Text.quoted found}"
  | unterminatedComment offset =>
    s!"unterminated block comment starting at offset {offset}"
  | build error => error.message

end SourceError
end SpacingLint
