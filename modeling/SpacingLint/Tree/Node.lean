import SpacingLint.Tree.Token

/-! # Nodes

A node is a construct of the language: a kind, two spans and a list of children,
each a token or a node again.  Trees are immutable values and two nodes are equal
when kinds, spans and children are.

The nodes at and below a node can be listed in two ways.  `Node.descendants` keeps
the nodes still to be listed on a stack, as a traversal does; `Node.preorder`
follows the shape of the tree.  So can the tokens: `Node.descendantTokens` collects
them one by one, `Node.tokens` follows the shape.
-/
namespace SpacingLint

mutual

/-- A construct of the language with everything below it. -/
inductive Node where
  | mk (kind : Kind) (span fullSpan : Span) (children : List Element)

/-- A child of a node. -/
inductive Element where
  | token (token : Token)
  | node (node : Node)

end

namespace Node

/-- What the node is. -/
def kind : Node → Kind
  | mk kind _ _ _ => kind

/-- From the first token below the node to the last, trivia excluded. -/
def span : Node → Span
  | mk _ span _ _ => span

/-- From the first token below the node to the last, trivia included. -/
def fullSpan : Node → Span
  | mk _ _ fullSpan _ => fullSpan

/-- The direct children, in the order in which they stand. -/
def children : Node → List Element
  | mk _ _ _ children => children

end Node

namespace Element

/-- The child as a token. -/
def token? : Element → Option Token
  | .token t => some t
  | .node _ => none

/-- The child as a node. -/
def node? : Element → Option Node
  | .token _ => none
  | .node n => some n

@[simp] theorem filterMap_node?_token (t : Token) (rest : List Element) :
    (token t :: rest).filterMap node? = rest.filterMap node? := rfl

@[simp] theorem filterMap_node?_node (n : Node) (rest : List Element) :
    (node n :: rest).filterMap node? = n :: rest.filterMap node? := rfl

@[simp] theorem filterMap_token?_token (t : Token) (rest : List Element) :
    (token t :: rest).filterMap token? = t :: rest.filterMap token? := rfl

@[simp] theorem filterMap_token?_node (n : Node) (rest : List Element) :
    (node n :: rest).filterMap token? = rest.filterMap token? := rfl

/-- The extent of a child with its trivia. -/
def fullSpan : Element → Span
  | .token t => t.fullSpan
  | .node n => n.fullSpan

end Element

/-! ## Equality -/

mutual

/-- Decides whether two nodes are equal. -/
def Node.decEq : (a b : Node) → Decidable (a = b)
  | .mk kind span full children, .mk kind' span' full' children' =>
    if h : kind = kind' ∧ span = span' ∧ full = full' then
      match Element.decEqList children children' with
      | .isTrue eq => .isTrue (by obtain ⟨rfl, rfl, rfl⟩ := h; rw [eq])
      | .isFalse ne => .isFalse fun eq => ne (Node.mk.inj eq).2.2.2
    else .isFalse fun eq => h ⟨(Node.mk.inj eq).1, (Node.mk.inj eq).2.1, (Node.mk.inj eq).2.2.1⟩

/-- Decides whether two lists of children are equal. -/
def Element.decEqList : (as bs : List Element) → Decidable (as = bs)
  | [], [] => .isTrue rfl
  | [], _ :: _ => .isFalse nofun
  | _ :: _, [] => .isFalse nofun
  | .token _ :: _, .node _ :: _ => .isFalse nofun
  | .node _ :: _, .token _ :: _ => .isFalse nofun
  | .token a :: as, .token b :: bs =>
    if h : a = b then
      match Element.decEqList as bs with
      | .isTrue eq => .isTrue (by rw [h, eq])
      | .isFalse ne => .isFalse fun eq => ne (List.cons.inj eq).2
    else .isFalse fun eq => h (Element.token.inj (List.cons.inj eq).1)
  | .node a :: as, .node b :: bs =>
    match Node.decEq a b with
    | .isTrue h =>
      match Element.decEqList as bs with
      | .isTrue eq => .isTrue (by rw [h, eq])
      | .isFalse ne => .isFalse fun eq => ne (List.cons.inj eq).2
    | .isFalse ne => .isFalse fun eq => ne (Element.node.inj (List.cons.inj eq).1)

end

instance : DecidableEq Node := Node.decEq

/-! ## Recursion over a node -/

mutual

/-- The number of nodes at and below a node. -/
def Node.size : Node → Nat
  | .mk _ _ _ children => 1 + Element.sizes children

/-- The number of nodes at and below the nodes of a list of children. -/
def Element.sizes : List Element → Nat
  | [] => 0
  | .token _ :: rest => Element.sizes rest
  | .node n :: rest => n.size + Element.sizes rest

end

mutual

/-- A node followed by what stands below its child nodes, each in turn. -/
def Node.preorder : Node → List Node
  | .mk kind span full children => .mk kind span full children :: Element.preorders children

/-- The nodes at and below the nodes of a list of children. -/
def Element.preorders : List Element → List Node
  | [] => []
  | .token _ :: rest => Element.preorders rest
  | .node n :: rest => n.preorder ++ Element.preorders rest

end

mutual

/-- The tokens below a node, in the order in which they stand. -/
def Node.tokens : Node → List Token
  | .mk _ _ _ children => Element.tokens children

/-- The tokens at and below the members of a list of children. -/
def Element.tokens : List Element → List Token
  | [] => []
  | .token t :: rest => t :: Element.tokens rest
  | .node n :: rest => n.tokens ++ Element.tokens rest

end

mutual

/-- Puts the tokens below a node behind those that are collected already. -/
def Node.collectTokens : Node → Array Token → Array Token
  | .mk _ _ _ children, collected => Element.collectTokens children collected

/-- The same for the members of a list of children, one after the other. -/
def Element.collectTokens : List Element → Array Token → Array Token
  | [], collected => collected
  | .token t :: rest, collected => Element.collectTokens rest (collected.push t)
  | .node n :: rest, collected => Element.collectTokens rest (n.collectTokens collected)

end

mutual

/-- A node at a depth and every element below it, each with its depth and before what
is below it. -/
def Node.outline (depth : Nat) : Node → List (Nat × Element)
  | .mk kind span full children =>
    (depth, .node (.mk kind span full children)) :: Element.outlines (depth + 1) children

/-- The same for the members of a list of children, one after the other. -/
def Element.outlines (depth : Nat) : List Element → List (Nat × Element)
  | [] => []
  | .token t :: rest => (depth, .token t) :: Element.outlines depth rest
  | .node n :: rest => n.outline depth ++ Element.outlines depth rest

end

namespace Node

/-! ## Direct children -/

/-- The child nodes. -/
def childNodes (node : Node) : List Node := node.children.filterMap Element.node?

/-- The child tokens. -/
def childTokens (node : Node) : List Token := node.children.filterMap Element.token?

/-- The first child node of a kind. -/
def childNode? (node : Node) (kind : Kind) : Option Node :=
  node.childNodes.find? (·.kind = kind)

/-- The first child token of a kind. -/
def childToken? (node : Node) (kind : Kind) : Option Token :=
  node.childTokens.find? (·.kind = kind)

/-- The number of nodes at and below some nodes. -/
def sizeAll : List Node → Nat
  | [] => 0
  | node :: rest => node.size + sizeAll rest

theorem sizeAll_append (nodes more : List Node) :
    sizeAll (nodes ++ more) = sizeAll nodes + sizeAll more := by
  induction nodes with
  | nil => simp [sizeAll]
  | cons node rest ih => simp [sizeAll, ih, Nat.add_assoc]

theorem sizes_eq_sizeAll (children : List Element) :
    Element.sizes children = sizeAll (children.filterMap Element.node?) := by
  induction children with
  | nil => rfl
  | cons child rest ih =>
    cases child with
    | token t => simp [Element.sizes, ih]
    | node n => simp [Element.sizes, sizeAll, ih]

theorem size_eq (node : Node) : node.size = 1 + sizeAll node.childNodes := by
  cases node with
  | mk kind span full children => rw [size, sizes_eq_sizeAll]; rfl

theorem sizeAll_reverse (nodes : List Node) : sizeAll nodes.reverse = sizeAll nodes := by
  induction nodes with
  | nil => rfl
  | cons node rest ih => simp [sizeAll_append, sizeAll, ih, Nat.add_comm]

end Node

/-! ## The listing with a stack -/

/-- A listing of nodes under way. -/
structure Descendants where
  /-- The nodes still to be listed, each with all that is below it; the next one is last. -/
  stack : Array Node

namespace Descendants

/-- The listing of a node and of all that is below it, before its first step. -/
def ofNode (node : Node) : Descendants := ⟨#[node]⟩

/-- The next node, if there is one, and the listing behind it.  The last node of the stack
is taken away and its child nodes are put in its place, in reverse so that the first of
them is next. -/
def next (listing : Descendants) : Option Node × Descendants :=
  match listing.stack.back? with
  | none => (none, listing)
  | some node => (some node, ⟨listing.stack.pop ++ node.childNodes.reverse⟩)

/-- A step finds the stack empty and stays where it is, or it takes the last node away. -/
theorem next_cases (listing : Descendants) :
    listing.stack = #[] ∧ listing.next = (none, listing) ∨
      ∃ (below : Array Node) (node : Node), listing.stack = below.push node ∧
        listing.next = (some node, ⟨below ++ node.childNodes.reverse⟩) := by
  unfold next
  cases h : listing.stack.back? with
  | none => exact .inl ⟨Array.back?_eq_none_iff.mp h, rfl⟩
  | some node =>
    obtain ⟨below, hstack⟩ := Array.back?_eq_some_iff.mp h
    exact .inr ⟨below, node, hstack, by simp [hstack]⟩

/-- The number of nodes still to be listed. -/
def size (listing : Descendants) : Nat := Node.sizeAll listing.stack.toList

/-- A step may put many nodes on the stack, but they were below the one it takes away. -/
theorem size_next {listing rest : Descendants} {node : Node}
    (h : listing.next = (some node, rest)) : listing.size = rest.size + 1 := by
  obtain ⟨-, hnext⟩ | ⟨below, last, hstack, hnext⟩ := listing.next_cases
  · rw [h] at hnext
    cases hnext
  · rw [h] at hnext
    cases hnext
    simp only [size, hstack, Array.toList_push, Array.toList_appendList, Node.sizeAll_append,
      Node.sizeAll_reverse, Node.sizeAll, Node.size_eq node]
    omega

/-- The nodes still to come, in the order in which they come. -/
def toList (listing : Descendants) : List Node :=
  match _step : listing.next with
  | (none, _) => []
  | (some node, rest) => node :: rest.toList
termination_by listing.size
decreasing_by
  rw [size_next _step]
  exact Nat.lt_succ_self _

end Descendants

namespace Node

/-- The nodes at and below a node, each before what is below it. -/
def descendants (node : Node) : List Node := (Descendants.ofNode node).toList

/-- The tokens below a node, in the order in which they stand, collected one by one. -/
def descendantTokens (node : Node) : List Token := (node.collectTokens #[]).toList

/-- How a node is named in messages: kind and span. -/
def label (node : Node) : String := s!"{node.kind}@{node.span}"

end Node
end SpacingLint
