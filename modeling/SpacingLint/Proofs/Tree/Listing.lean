import SpacingLint.Proofs.Tree.Preorder

/-! # Listings step by step

A step of a listing takes one node off the stack and puts the child nodes of that node in its
place.  The stack may grow by it, so its height does not tell how many steps are left.  The nodes
still to come do: a step answers the first of them and leaves the others (`Descendants.next_eq`).
So the steps of a listing answer its nodes in turn, and nothing ever after
(`Descendants.next_after`).

With what is known of collecting tokens (`Node.descendantTokens_eq`): both listings of a node are
put together from the listings of its children, in the order of the children
(`Node.lists_recursively`).
-/
namespace SpacingLint

/-! ## Nodes -/

namespace Descendants

variable {listing rest : Descendants}

theorem toList_of_none (h : listing.next = (none, rest)) : listing.toList = [] := by
  rw [toList]
  split
  · rfl
  · next hstep => cases h.symm.trans hstep

theorem toList_of_some {node : Node} (h : listing.next = (some node, rest)) :
    listing.toList = node :: rest.toList := by
  rw [toList]
  split
  · next hstep => cases h.symm.trans hstep
  · next hstep =>
    cases h.symm.trans hstep
    rfl

/-- **A step** answers the first of the nodes still to come, and leaves the others. -/
theorem next_eq (listing : Descendants) :
    listing.next.1 = listing.toList.head? ∧ listing.next.2.toList = listing.toList.tail := by
  obtain ⟨-, hnext⟩ | ⟨below, node, -, hnext⟩ := listing.next_cases
  · rw [hnext, toList_of_none hnext]
    exact ⟨rfl, rfl⟩
  · rw [hnext, toList_of_some hnext]
    exact ⟨rfl, rfl⟩

/-- A listing after some steps. -/
def after (listing : Descendants) : Nat → Descendants
  | 0 => listing
  | steps + 1 => listing.next.2.after steps

/-- **A run**: the steps answer the nodes in turn, and nothing after the last one. -/
theorem next_after (listing : Descendants) (steps : Nat) :
    (listing.after steps).next.1 = listing.toList[steps]? := by
  induction steps generalizing listing with
  | zero => rw [after, listing.next_eq.1, List.head?_eq_getElem?]
  | succ steps ih => rw [after, ih, listing.next_eq.2, List.getElem?_tail]

end Descendants

/-- The nodes at and below a node are the node, and then those at and below each child node. -/
theorem Node.descendants_eq_cons (node : Node) :
    node.descendants = node :: node.childNodes.flatMap Node.descendants := by
  have hsame : Node.descendants = Node.preorder := funext Node.descendants_eq
  rw [hsame, ← node.preorder_eq]

/-! ## Tokens -/

/-- The tokens of a child: the child itself if it is one, else all that are below it. -/
def Element.descendantTokens : Element → List Token
  | .token t => [t]
  | .node n => n.descendantTokens

theorem Element.tokens_eq_flatMap (children : List Element) :
    Element.tokens children = children.flatMap Element.descendantTokens := by
  induction children with
  | nil => rfl
  | cons child rest ih =>
    cases child with
    | token t =>
      rw [Element.tokens, ih, List.flatMap_cons, Element.descendantTokens, List.singleton_append]
    | node n =>
      rw [Element.tokens, ih, List.flatMap_cons, Element.descendantTokens, n.descendantTokens_eq]

/-! ## Both -/

/-- **Listings are recursive.**  The steps of the listing of a node answer one node after the
other, and nothing from then on; there are as many as nodes at and below the node.  They are the
node itself and then those of each child node, in the order of the child nodes, so those of a tree
are its root and then those of each subtree that a parallel walk gives a thread of its own.  The
tokens collected below a node are, child by child, the child itself if it is a token, and else
those collected below it. -/
theorem Node.lists_recursively (node : Node) :
    (∀ steps, ((Descendants.ofNode node).after steps).next.1 = node.descendants[steps]?) ∧
      node.descendants.length = node.size ∧
      node.descendants = node :: node.childNodes.flatMap Node.descendants ∧
      (∀ tree : Tree,
        tree.nodes = tree.root :: tree.root.childNodes.flatMap Node.descendants) ∧
      node.descendantTokens = node.children.flatMap Element.descendantTokens := by
  refine ⟨(Descendants.ofNode node).next_after, ?_, node.descendants_eq_cons,
    fun tree => tree.root.descendants_eq_cons, ?_⟩
  · rw [node.descendants_eq, node.length_preorder]
  · rw [node.descendantTokens_eq, node.tokens_eq, Element.tokens_eq_flatMap]

end SpacingLint
