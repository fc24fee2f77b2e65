import SpacingLint.Source.Lexeme

/-! # Shapes

A shape is what the grammar makes of a list of lexemes: which lexemes belong
together, and as what.  It has no offsets yet.  Written out as calls of the tree
builder, in the order in which its lexemes stand, a shape becomes a node.
-/
namespace SpacingLint

/-- A construct of the grammar over lexemes. -/
inductive Shape where
  | leaf (lexeme : Lexeme)
  | node (kind : Kind) (children : List Shape)

namespace Lexeme

/-- The calls that write a lexeme. -/
def calls (lexeme : Lexeme) : List Builder.Call :=
  lexeme.leading.map (fun piece => .lead piece.kind piece.text) ++
    .token lexeme.kind lexeme.text ::
      lexeme.trailing.map (fun piece => .trail piece.kind piece.text)

end Lexeme

namespace Shape

mutual

/-- The lexemes of a shape, in the order in which they stand. -/
def lexemes : Shape → List Lexeme
  | .leaf lexeme => [lexeme]
  | .node _ children => allLexemes children

/-- The lexemes of some shapes, one shape after the other. -/
def allLexemes : List Shape → List Lexeme
  | [] => []
  | shape :: rest => shape.lexemes ++ allLexemes rest

end

mutual

/-- The calls that write a shape. -/
def calls : Shape → List Builder.Call
  | .leaf lexeme => lexeme.calls
  | .node kind children => .start kind :: (allCalls children ++ [.finish])

/-- The calls that write some shapes, one shape after the other. -/
def allCalls : List Shape → List Builder.Call
  | [] => []
  | shape :: rest => shape.calls ++ allCalls rest

end

@[simp] theorem allLexemes_append (shapes more : List Shape) :
    allLexemes (shapes ++ more) = allLexemes shapes ++ allLexemes more := by
  induction shapes with
  | nil => rfl
  | cons shape rest ih => simp [allLexemes, ih]

@[simp] theorem allCalls_append (shapes more : List Shape) :
    allCalls (shapes ++ more) = allCalls shapes ++ allCalls more := by
  induction shapes with
  | nil => rfl
  | cons shape rest ih => simp [allCalls, ih]

end Shape
end SpacingLint
