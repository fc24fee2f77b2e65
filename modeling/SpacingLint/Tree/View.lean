import SpacingLint.Tree.Node

/-! # Views of nodes

A view reads the parts of one construct off its node by kind, wherever they stand
among the children.  Each part may be missing: a node of the right kind need not be
complete.
-/
namespace SpacingLint

/-- A node seen as an `if` statement. -/
structure IfStatement where
  /-- The node. -/
  node : Node
  /-- It is one. -/
  kind_eq : node.kind = .ifStatement

/-- A node seen as the `else` part of an `if` statement. -/
structure ElseClause where
  /-- The node. -/
  node : Node
  /-- It is one. -/
  kind_eq : node.kind = .elseClause

namespace Node

/-- The node as an `if` statement. -/
def asIfStatement? (node : Node) : Option IfStatement :=
  if h : node.kind = .ifStatement then some ⟨node, h⟩ else none

/-- The node as an `else` clause. -/
def asElseClause? (node : Node) : Option ElseClause :=
  if h : node.kind = .elseClause then some ⟨node, h⟩ else none

/-- The first child node that is a statement. -/
def childStatement? (node : Node) : Option Node :=
  node.childNodes.find? (·.kind.isStatement)

end Node

namespace ElseClause

/-- The keyword. -/
def elseKeyword? (clause : ElseClause) : Option Token := clause.node.childToken? .elseKeyword

/-- The statement it guards. -/
def statement? (clause : ElseClause) : Option Node := clause.node.childStatement?

end ElseClause

namespace IfStatement

/-- The keyword. -/
def ifKeyword? (statement : IfStatement) : Option Token := statement.node.childToken? .ifKeyword

/-- The parenthesis before the condition. -/
def openParen? (statement : IfStatement) : Option Token := statement.node.childToken? .openParen

/-- The condition. -/
def condition? (statement : IfStatement) : Option Node := statement.node.childNode? .expression

/-- The parenthesis after the condition. -/
def closeParen? (statement : IfStatement) : Option Token := statement.node.childToken? .closeParen

/-- The statement it guards. -/
def statement? (statement : IfStatement) : Option Node := statement.node.childStatement?

/-- The `else` part. -/
def elseClause? (statement : IfStatement) : Option ElseClause :=
  (statement.node.childNode? .elseClause).bind Node.asElseClause?

end IfStatement
end SpacingLint
