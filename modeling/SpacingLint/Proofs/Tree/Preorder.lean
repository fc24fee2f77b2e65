import SpacingLint.Tree.Basic

/-! # Listings along the shape of a tree

`Node.descendants` keeps the nodes still to be listed on a stack, and
`Node.descendantTokens` hands on the tokens that are collected already; `Node.preorder`
and `Node.tokens` follow the shape of a tree.  Here the stack goes away: what is still to
come of a listing is the pre-orders of the nodes on its stack, from the last one to the
first (`Descendants.toList_eq`).  The collected tokens go away as well: those below a
node come behind them as they stand (`Node.collectTokens_eq`).  So everything below can be
proved along the shape of a tree.  All listings of a list of children take a concatenation
to a concatenation.
-/
namespace SpacingLint
namespace Element

@[simp] theorem tokens_append (children more : List Element) :
    tokens (children ++ more) = tokens children ++ tokens more := by
  induction children with
  | nil => rfl
  | cons child rest ih => cases child <;> simp [tokens, ih]

@[simp] theorem preorders_append (children more : List Element) :
    preorders (children ++ more) = preorders children ++ preorders more := by
  induction children with
  | nil => rfl
  | cons child rest ih => cases child <;> simp [preorders, ih]

theorem preorders_eq_flatMap (children : List Element) :
    preorders children = (children.filterMap node?).flatMap Node.preorder := by
  induction children with
  | nil => rfl
  | cons child rest ih => cases child <;> simp [preorders, ih]

end Element

namespace Node

theorem preorder_eq (node : Node) :
    node.preorder = node :: node.childNodes.flatMap preorder := by
  cases node with
  | mk kind span full children => rw [preorder, Element.preorders_eq_flatMap]; rfl

theorem tokens_eq (node : Node) : node.tokens = Element.tokens node.children := by
  cases node; rfl

end Node

/-- **What is still to come**: the nodes on the stack, the last one first, each with all that is
below it. -/
theorem Descendants.toList_eq (listing : Descendants) :
    listing.toList = listing.stack.toList.reverse.flatMap Node.preorder := by
  fun_induction toList listing with
  | case1 listing rest hstep =>
    obtain ⟨hstack, -⟩ | ⟨below, node, -, hnext⟩ := listing.next_cases
    · rw [hstack]
      rfl
    · cases hstep.symm.trans hnext
  | case2 listing node rest hstep ih =>
    obtain ⟨-, hnext⟩ | ⟨below, last, hstack, hnext⟩ := listing.next_cases
    · cases hstep.symm.trans hnext
    · cases hstep.symm.trans hnext
      -- The child nodes went in backwards and come out forwards, before what lay below them.
      have hrest : (below ++ node.childNodes.reverse).toList.reverse =
          node.childNodes ++ below.toList.reverse := by
        rw [Array.toList_appendList, List.reverse_append, List.reverse_reverse]
      rw [ih, hrest, hstack, Array.toList_push, List.reverse_append, List.reverse_singleton,
        List.singleton_append, List.flatMap_cons, List.flatMap_append, node.preorder_eq,
        List.cons_append]

theorem Node.descendants_eq (node : Node) : node.descendants = node.preorder := by
  rw [descendants, Descendants.toList_eq]
  exact List.flatMap_singleton ..

theorem Tree.nodes_eq (tree : Tree) : tree.nodes = tree.root.preorder :=
  tree.root.descendants_eq

mutual

/-- **Collecting** puts the tokens below a node, as they stand, behind what was collected. -/
theorem Node.collectTokens_eq : (node : Node) → (collected : Array Token) →
    (node.collectTokens collected).toList = collected.toList ++ node.tokens
  | .mk _ _ _ children, collected => Element.collectTokens_eq children collected

theorem Element.collectTokens_eq : (children : List Element) → (collected : Array Token) →
    (Element.collectTokens children collected).toList =
      collected.toList ++ Element.tokens children
  | [], _ => (List.append_nil _).symm
  | .token token :: rest, collected => by
    rw [Element.collectTokens, Element.collectTokens_eq rest, Array.toList_push, Element.tokens,
      List.append_assoc, List.singleton_append]
  | .node child :: rest, collected => by
    rw [Element.collectTokens, Element.collectTokens_eq rest, child.collectTokens_eq,
      Element.tokens, List.append_assoc]

end

theorem Node.descendantTokens_eq (node : Node) : node.descendantTokens = node.tokens :=
  (node.collectTokens_eq #[]).trans (List.nil_append _)

/-! ## The size of a tree -/

mutual

/-- A pre-order lists as many nodes as there are. -/
theorem Node.length_preorder : (node : Node) → node.preorder.length = node.size
  | .mk kind span full children => by
    rw [Node.preorder, Node.size, List.length_cons, Element.length_preorders children, Nat.add_comm]

theorem Element.length_preorders : (children : List Element) →
    (Element.preorders children).length = Element.sizes children
  | [] => rfl
  | .token _ :: rest => Element.length_preorders rest
  | .node child :: rest => by
    rw [Element.preorders, Element.sizes, List.length_append, child.length_preorder,
      Element.length_preorders rest]

end

/-! ## Tokens of nodes -/

mutual

/-- The tokens below a node of a tree stand together among those of the tree. -/
theorem Node.tokens_isInfix : (root : Node) → {node : Node} → node ∈ root.preorder →
    node.tokens <:+: root.tokens
  | .mk kind span full children, node, h => by
    rcases List.mem_cons.mp h with rfl | h
    · exact List.infix_rfl
    · exact Element.tokens_isInfix children h

theorem Element.tokens_isInfix : (children : List Element) → {node : Node} →
    node ∈ Element.preorders children → node.tokens <:+: Element.tokens children
  | .token token :: rest, _, h =>
    (Element.tokens_isInfix rest h).trans (List.suffix_cons ..).isInfix
  | .node child :: rest, _, h => by
    rcases List.mem_append.mp h with h | h
    · exact (child.tokens_isInfix h).trans (List.prefix_append ..).isInfix
    · exact (Element.tokens_isInfix rest h).trans (List.suffix_append ..).isInfix

end

mutual

/-- **The tokens below a node are the child tokens** of the nodes at and below it. -/
theorem Node.perm_childTokens : (node : Node) →
    (node.preorder.flatMap Node.childTokens).Perm node.tokens
  | .mk _ _ _ children => Element.perm_childTokens children

theorem Element.perm_childTokens : (children : List Element) →
    (children.filterMap Element.token? ++
      (Element.preorders children).flatMap Node.childTokens).Perm (Element.tokens children)
  | [] => .nil
  | .token token :: rest => (Element.perm_childTokens rest).cons token
  | .node child :: rest => by
    rw [Element.filterMap_token?_node, Element.preorders, List.flatMap_append, Element.tokens]
    refine (List.perm_append_comm_assoc ..).trans ?_
    exact child.perm_childTokens.append (Element.perm_childTokens rest)

end

mutual

/-- **The nodes below a node are the child nodes** of the nodes at and below it. -/
theorem Node.perm_childNodes : (node : Node) →
    (node :: node.preorder.flatMap Node.childNodes).Perm node.preorder
  | .mk _ _ _ children => (Element.perm_childNodes children).cons _

theorem Element.perm_childNodes : (children : List Element) →
    (children.filterMap Element.node? ++
      (Element.preorders children).flatMap Node.childNodes).Perm (Element.preorders children)
  | [] => .nil
  | .token _ :: rest => Element.perm_childNodes rest
  | .node child :: rest => by
    rw [Element.filterMap_node?_node, Element.preorders, List.flatMap_append, List.cons_append]
    refine ((List.perm_append_comm_assoc ..).cons child).trans ?_
    exact child.perm_childNodes.append (Element.perm_childNodes rest)

end

theorem Node.childTokens_subset (node : Node) : node.childTokens ⊆ node.tokens := by
  rw [node.tokens_eq, childTokens]
  generalize node.children = children
  induction children with
  | nil => exact List.Subset.refl _
  | cons child rest ih =>
    cases child with
    | token token => exact List.cons_subset_cons _ ih
    | node child => exact List.Subset.trans ih (List.subset_append_right ..)

theorem Tree.mem_tokens_of_mem_childTokens {tree : Tree} {node : Node} (hnode : node ∈ tree.nodes)
    {token : Token} (htoken : token ∈ node.childTokens) : token ∈ tree.tokens := by
  rw [nodes_eq] at hnode
  exact (tree.root.tokens_isInfix hnode).subset (node.childTokens_subset htoken)

end SpacingLint
