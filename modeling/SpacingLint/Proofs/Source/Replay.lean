import SpacingLint.Proofs.Source.Parsing

/-! # Replaying a tree

A tree says how to build it: start a node, write its children from left to right, each token
between its own trivia, and finish the node (`Node.calls`).  These need not be the calls it was
built by, since trivia may have been queued long before the node of its token was started.  Still
they build the same tree, provided that every node has a token (`Tree.ofCalls_calls`).

Nothing about the first history is needed but that its tree is well laid.  Then the tokens stand
end to end, so the replay is not refused and has the tokens, the nodes and the children of the tree
(`Tree.exists_ofCalls_calls`).  The spans follow: a well laid tree is determined by its shape, but
for the places of nodes without tokens.
-/
namespace SpacingLint

/-! ## The calls of a tree -/

/-- The calls that write a token with its trivia. -/
def Token.calls (token : Token) : List Builder.Call :=
  token.leading.map (fun trivia => .lead trivia.kind trivia.text) ++
    .token token.kind token.text ::
      token.trailing.map (fun trivia => .trail trivia.kind trivia.text)

mutual

/-- The calls that write a node and all that is below it. -/
def Node.calls : Node → List Builder.Call
  | .mk kind _ _ children => .start kind :: (Element.calls children ++ [.finish])

/-- The calls that write some children, one after the other. -/
def Element.calls : List Element → List Builder.Call
  | [] => []
  | .token t :: rest => t.calls ++ Element.calls rest
  | .node n :: rest => n.calls ++ Element.calls rest

end

theorem Token.calls_lexeme (token : Token) : token.lexeme.calls = token.calls := by
  simp [lexeme, Lexeme.calls, calls, Trivia.piece, Function.comp_def]

mutual

/-- No span has a part in the calls of a node. -/
theorem Node.calls_shape : (node : Node) → node.shape.calls = node.calls
  | .mk _ _ _ children => by
    rw [Node.shape, Shape.calls, Element.calls_shapes children, Node.calls]

theorem Element.calls_shapes : (children : List Element) →
    Shape.allCalls (Element.shapes children) = Element.calls children
  | [] => rfl
  | .token t :: rest => by
    rw [Element.shapes, Shape.allCalls, Element.calls_shapes rest, Shape.calls, t.calls_lexeme]
    rfl
  | .node n :: rest => by
    rw [Element.shapes, Shape.allCalls, Element.calls_shapes rest, n.calls_shape]
    rfl

end

/-! ## The replay is not refused -/

theorem Trivia.size_pieces (trivia : List Trivia) :
    Lexeme.size (trivia.map piece) = Chunk.size (trivia.map chunk) := by
  induction trivia with
  | nil => rfl
  | cons one rest ih => rw [List.map_cons, List.map_cons, Lexeme.size, Chunk.size, ih]; rfl

theorem Token.width_lexeme (token : Token) : token.lexeme.width = Chunk.size token.chunks := by
  simp [Lexeme.width, lexeme, chunks, Trivia.size_pieces, Nat.add_assoc]

/-- Tokens that are laid end to end have lexemes that stand end to end. -/
theorem Laid.placed {offset : Nat} {tokens : List Token}
    (h : Laid offset (Token.allChunks tokens)) :
    Lexeme.Placed offset (tokens.map Token.lexeme) := by
  induction tokens generalizing offset with
  | nil => trivial
  | cons token rest ih =>
    obtain ⟨htoken, hrest⟩ := laid_append.mp h
    refine ⟨?_, ?_⟩
    · have hspan : token.span = _ := htoken.span_eq
      show token.span.start = _
      rw [hspan, Span.ofSize_start, ← Trivia.size_pieces]
      rfl
    · rw [token.width_lexeme]
      exact ih hrest

/-- **The replay of a well laid tree** is not refused, and what it builds has the same shape. -/
theorem Tree.exists_ofCalls_calls {tree : Tree} (h : tree.WellLaid) :
    ∃ again, ofCalls tree.root.calls = .ok again ∧ again.root.shape = tree.root.shape := by
  have hplaced := h.laid.placed
  rw [tokens, ← Node.lexemes_shape] at hplaced
  rw [← Node.calls_shape]
  generalize tree.root = root at *
  cases root with
  | mk kind span full children => exact exists_ofCalls hplaced

/-! ## Nodes with tokens -/

mutual

theorem Node.leafy_shape_iff : (node : Node) →
    (node.shape.Leafy ↔ ∀ below ∈ node.preorder, below.tokens ≠ [])
  | .mk _ _ _ children => by
    rw [Node.shape, Shape.Leafy, Element.allLexemes_shapes, Element.allLeafy_shapes_iff children,
      Node.preorder, List.forall_mem_cons, ne_eq, List.map_eq_nil_iff]
    rfl

theorem Element.allLeafy_shapes_iff : (children : List Element) →
    (Shape.AllLeafy (Element.shapes children) ↔
      ∀ below ∈ Element.preorders children, below.tokens ≠ [])
  | [] => iff_of_true trivial nofun
  | .token t :: rest => by
    rw [Element.shapes, Shape.allLeafy_leaf, Element.allLeafy_shapes_iff rest]
    rfl
  | .node n :: rest => by
    rw [Element.shapes, Shape.AllLeafy, n.leafy_shape_iff, Element.allLeafy_shapes_iff rest,
      Element.preorders, List.forall_mem_append]

end

namespace Tree

/-- Every node of a tree has a token. -/
def Leafy (tree : Tree) : Prop := ∀ node ∈ tree.nodes, node.tokens ≠ []

instance (tree : Tree) : Decidable tree.Leafy := inferInstanceAs (Decidable (∀ _ ∈ _, _))

theorem leafy_iff {tree : Tree} : tree.Leafy ↔ tree.root.shape.Leafy := by
  rw [Leafy, nodes_eq, tree.root.leafy_shape_iff]

/-- A well laid tree in which every node has a token is what its own calls build. -/
theorem WellLaid.ofCalls_calls_eq {tree : Tree} (h : tree.WellLaid) (hleafy : tree.Leafy) :
    ofCalls tree.root.calls = .ok tree := by
  obtain ⟨again, hagain, hshape⟩ := exists_ofCalls_calls h
  obtain rfl : tree = again :=
    h.eq_of_shape_eq (wellLaid_of_calls hagain) (leafy_iff.mp hleafy) hshape.symm
  exact hagain

/-- **Replaying a tree rebuilds it.**  A tree that some calls build without a refusal, and in which
every node has a token, is built by its own calls too; and the tree of a text is such a tree. -/
theorem ofCalls_calls :
    (∀ {calls : List Builder.Call} {tree : Tree}, ofCalls calls = .ok tree → tree.Leafy →
      ofCalls tree.root.calls = .ok tree) ∧
    ∀ {text : String} {tree : Tree}, ofText text = .ok tree →
      tree.Leafy ∧ ofCalls tree.root.calls = .ok tree := by
  refine ⟨fun h => (wellLaid_of_calls h).ofCalls_calls_eq, fun h => ?_⟩
  obtain ⟨hunit, -, hlaid⟩ := ofText_sound h
  have hleafy := leafy_iff.mpr hunit.leafy
  exact ⟨hleafy, hlaid.ofCalls_calls_eq hleafy⟩

/-- Trivia is queued before any node is started and before the node of its token is; the tree is
replayed by other calls than it was built by. -/
theorem ofCalls_calls_queued :
    let calls : List Builder.Call := [.lead .whitespace " ", .start .compilationUnit,
      .lead .singleLineComment "//é", .start .block, .lead .endOfLine "\n", .start .expression,
      .token .identifier "a", .trail .whitespace "", .finish, .finish, .token .endOfFile "",
      .finish]
    ∃ tree, ofCalls calls = .ok tree ∧ tree.Leafy ∧ tree.root.calls ≠ calls ∧
      ofCalls tree.root.calls = .ok tree := by
  intro calls
  have heval : (ofCalls calls).toOption.map
      (fun tree => (decide tree.Leafy, decide (tree.root.calls = calls))) =
        some (true, false) := by
    decide +kernel
  obtain ⟨tree, htree, hfacts⟩ := Option.map_eq_some_iff.mp heval
  obtain ⟨hleafy, hcalls⟩ := Prod.mk.inj hfacts
  have h := eq_ok_of_toOption htree
  have hleafy := of_decide_eq_true hleafy
  exact ⟨tree, h, hleafy, of_decide_eq_false hcalls, ofCalls_calls.1 h hleafy⟩

/-- A node without tokens stands where the text ended when it was started, and a replay starts it
before the trivia that was queued. -/
example : (ofCalls [.start .compilationUnit, .lead .whitespace " ", .start .block, .finish,
    .token .endOfFile "", .finish]).toOption.any
      (fun tree => (ofCalls tree.root.calls).toOption ≠ some tree) := by
  decide +kernel

end Tree
end SpacingLint
