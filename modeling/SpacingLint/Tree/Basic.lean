import SpacingLint.Position
import SpacingLint.Tree.Node

/-! # Trees

A tree is a text together with the root node of its structure.  The text is whole:
every byte of it belongs to a token below the root, as its own text or as trivia,
so spans of nodes and tokens can be read back off the text.
-/
namespace SpacingLint

/-- A text and its structure. -/
structure Tree where
  /-- The text. -/
  text : String
  /-- The node over all of it. -/
  root : Node
deriving DecidableEq

namespace Tree

/-- The number of bytes of the text. -/
def length (tree : Tree) : Nat := tree.text.utf8ByteSize

/-- The span of the whole text. -/
def span (tree : Tree) : Span := Span.upTo tree.length

/-- Whether a span lies within the text. -/
def containsSpan (tree : Tree) (span : Span) : Bool := tree.span.contains span

/-- The text under a span; `none` if the span leaves the text or cuts a character. -/
def slice? (tree : Tree) (span : Span) : Option String :=
  (Text.slice? tree.text.toList span.start span.stop).map String.ofList

/-- Where the lines of the text start. -/
def lineIndex (tree : Tree) : LineIndex := LineIndex.ofText tree.text

/-- Every node of the tree, each before what is below it. -/
def nodes (tree : Tree) : List Node := tree.root.descendants

/-- Every token of the tree, in the order in which they stand. -/
def tokens (tree : Tree) : List Token := tree.root.tokens

end Tree
end SpacingLint
