import SpacingLint.Span
import SpacingLint.Tree.Kind

/-! # Tokens and their trivia

A token owns the trivia around it: the entries that lead it and the entries that
trail it.  Every text carries the span at which it stands, so a token has two
extents: the span of its own text, and the full span that takes its trivia in.
-/
namespace SpacingLint

/-- A piece of text between tokens. -/
structure Trivia where
  /-- What it is. -/
  kind : TriviaKind
  /-- Its text. -/
  text : String
  /-- Where it stands. -/
  span : Span
deriving DecidableEq

/-- A token with the trivia it owns. -/
structure Token where
  /-- What it is. -/
  kind : Kind
  /-- Its own text. -/
  text : String
  /-- Where its own text stands. -/
  span : Span
  /-- The trivia before it. -/
  leading : List Trivia
  /-- The trivia after it. -/
  trailing : List Trivia
deriving DecidableEq

namespace Token

/-- The extent of a token with its trivia: from the first leading entry to the last
trailing one. -/
def fullSpan (token : Token) : Span :=
  let front := token.leading.head?.elim token.span Trivia.span
  let back := token.trailing.getLast?.elim token.span Trivia.span
  front.hull back

/-- The texts a token is made of, in the order in which they stand. -/
def texts (token : Token) : List String :=
  token.leading.map Trivia.text ++ token.text :: token.trailing.map Trivia.text

/-- The whole text of a token, trivia included. -/
def fullText (token : Token) : String := String.join token.texts

end Token
end SpacingLint
