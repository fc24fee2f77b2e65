import Mathlib.Data.List.Nodup
import SpacingLint.Proofs.Source.Arrangement
import SpacingLint.Tree.View

/-! # What views see of a parsed tree

A view looks for the parts of a construct by kind among the children of its node, and knows
nothing of where the parser put them.  On the tree of a source text it finds all of them, and
nothing that belongs to another construct (`IfStatement.Complete`, `ElseClause.Complete`).

Keywords and clauses are counted by way of all nodes.  Each stands in one place among the children
of the nodes of a tree, since the lexer reads no token twice; each such place is seen by the view
of the node (`Node.Seen`); and so the views that see it are one (`Tree.views_of_ofText`).
-/
namespace SpacingLint

/-! ## What the views see -/

namespace Kind

theorem ne_of_isStatement {kind : Kind} (h : kind.isStatement = true) :
    kind ≠ .expression ∧ kind ≠ .elseClause := by
  constructor <;> rintro rfl <;> cases h

@[simp] theorem isStatement_expression : expression.isStatement = false := rfl

@[simp] theorem isStatement_elseClause : elseClause.isStatement = false := rfl

end Kind

namespace Element

theorem kind_of_token? {child : Element} {t : Token} (h : child.token? = some t) :
    child.kind = t.kind := by
  cases child <;> cases h
  rfl

theorem kind_of_node? {child : Element} {n : Node} (h : child.node? = some n) :
    child.kind = n.kind := by
  cases child <;> cases h
  rfl

end Element

/-- The parts of a statement that its view has, in the order in which they should stand. -/
def IfStatement.parts (statement : IfStatement) : List Element :=
  [statement.ifKeyword?.map .token, statement.openParen?.map .token,
    statement.condition?.map .node, statement.closeParen?.map .token,
    statement.statement?.map .node, statement.elseClause?.map (.node ·.node)].filterMap id

/-- The view of an `if` statement has all that the statement is made of. -/
structure IfStatement.Complete (statement : IfStatement) : Prop where
  /-- The keyword is the first child. -/
  keyword : ∃ keyword, statement.ifKeyword? = some keyword ∧
    statement.node.children.head? = some (.token keyword)
  /-- Of a condition and the parentheses around it all are there or none is. -/
  condition : statement.openParen?.isSome = statement.condition?.isSome ∧
    statement.condition?.isSome = statement.closeParen?.isSome
  /-- There are no children but the parts, and they stand in this order. -/
  children_eq : statement.node.children = statement.parts

/-- The view of an `else` clause has all that the clause is made of: the keyword, and the statement
behind it if there is one. -/
def ElseClause.Complete (clause : ElseClause) : Prop :=
  ∃ keyword, clause.elseKeyword? = some keyword ∧
    clause.node.children = .token keyword :: (clause.statement?.map Element.node).toList

namespace Node

/-- The children of a node that belong to an `if` statement or to an `else` clause are seen by the
views of the node, and each by one of them. -/
structure Seen (node : Node) : Prop where
  /-- A keyword `if` belongs to an `if` statement. -/
  ifKeywords : node.childTokens.filter (·.kind = .ifKeyword) =
    (node.asIfStatement?.bind IfStatement.ifKeyword?).toList
  /-- A keyword `else` belongs to an `else` clause. -/
  elseKeywords : node.childTokens.filter (·.kind = .elseKeyword) =
    (node.asElseClause?.bind ElseClause.elseKeyword?).toList
  /-- An `else` clause belongs to an `if` statement. -/
  elseClauses : node.childNodes.filter (·.kind = .elseClause) =
    ((node.asIfStatement?.bind IfStatement.elseClause?).map ElseClause.node).toList

theorem asIfStatement?_eq_some_iff {node : Node} {statement : IfStatement} :
    node.asIfStatement? = some statement ↔ statement.node = node := by
  constructor
  · intro h
    obtain ⟨_, h⟩ := Option.dite_none_right_eq_some.mp h
    cases h
    rfl
  · rintro rfl
    exact dif_pos statement.kind_eq

theorem asElseClause?_eq_some_iff {node : Node} {clause : ElseClause} :
    node.asElseClause? = some clause ↔ clause.node = node := by
  constructor
  · intro h
    obtain ⟨_, h⟩ := Option.dite_none_right_eq_some.mp h
    cases h
    rfl
  · rintro rfl
    exact dif_pos clause.kind_eq

end Node

namespace Node.Arranged

theorem sees_ifStatement {statement : IfStatement} (h : statement.node.Arranged) :
    statement.Complete ∧ statement.node.Seen := by
  have hkind := statement.kind_eq
  have hview : statement.node.asIfStatement? = some statement := dif_pos hkind
  cases h with
  | ifStatement _ hkeyword htest hbody hotherwise hchildren =>
    have hne := @Kind.ne_of_isStatement
    -- What is there of a statement is one of eight cases, and its view is read off in each.
    rcases htest with _ | ⟨hopening, hcondition, hclosing⟩ <;>
      rcases hbody with _ | hstatement <;>
      rcases hotherwise with _ | hclause <;>
      refine ⟨⟨?_, ?_, ?_⟩, ?_, ?_, ?_⟩ <;>
      simp [IfStatement.parts, IfStatement.ifKeyword?, IfStatement.openParen?,
        IfStatement.condition?, IfStatement.closeParen?, IfStatement.statement?,
        IfStatement.elseClause?, childToken?, childTokens, childNode?, childNodes,
        childStatement?, asElseClause?, *]
  | elseClause hother => cases hkind.symm.trans hother
  | other hif => exact absurd hkind hif

theorem sees_elseClause {clause : ElseClause} (h : clause.node.Arranged) :
    clause.Complete ∧ clause.node.Seen := by
  have hkind := clause.kind_eq
  have hview : clause.node.asElseClause? = some clause := dif_pos hkind
  cases h with
  | ifStatement hother => cases hkind.symm.trans hother
  | @elseClause keyword _ _ hkeyword hbody hchildren =>
    have hne := @Kind.ne_of_isStatement
    rcases hbody with _ | hstatement <;>
      refine ⟨⟨keyword, ?_, ?_⟩, ?_, ?_, ?_⟩ <;>
      simp [ElseClause.elseKeyword?, ElseClause.statement?, childToken?, childTokens, childNodes,
        childStatement?, asIfStatement?, *]
  | other _ helse => exact absurd hkind helse

/-- Where nothing belongs to a statement or a clause, no child of such a kind is found. -/
theorem filter_eq_nil {Part : Type} {part? : Element → Option Part} {kindOf : Part → Kind}
    (hpart : ∀ child part, part? child = some part → child.kind = kindOf part)
    {children : List Element} (hplain : ∀ child ∈ children, child.kind.isBranching = false)
    {kind : Kind} (hkind : kind.isBranching = true) :
    (children.filterMap part?).filter (kindOf · = kind) = [] := by
  refine List.filter_eq_nil_iff.mpr fun part hmem heq => ?_
  obtain ⟨child, hchild, hsome⟩ := List.mem_filterMap.mp hmem
  have hfalse := hplain child hchild
  rw [hpart child part hsome, of_decide_eq_true heq, hkind] at hfalse
  cases hfalse

/-- **Nothing that belongs to a statement or a clause escapes the views**, wherever it is. -/
theorem seen {node : Node} (h : node.Arranged) : node.Seen := by
  by_cases hif : node.kind = .ifStatement
  · exact (@sees_ifStatement ⟨node, hif⟩ h).2
  by_cases helse : node.kind = .elseClause
  · exact (@sees_elseClause ⟨node, helse⟩ h).2
  have hstatement : node.asIfStatement? = none := dif_neg hif
  have hclause : node.asElseClause? = none := dif_neg helse
  cases h with
  | ifStatement hkind => exact absurd hkind hif
  | elseClause hkind => exact absurd hkind helse
  | other _ _ hplain =>
    refine ⟨?_, ?_, ?_⟩
    · rw [hstatement]
      exact filter_eq_nil (fun _ _ => Element.kind_of_token?) hplain rfl
    · rw [hclause]
      exact filter_eq_nil (fun _ _ => Element.kind_of_token?) hplain rfl
    · rw [hstatement]
      exact filter_eq_nil (fun _ _ => Element.kind_of_node?) hplain rfl

end Node.Arranged

/-! ## Counting -/

theorem ElseClause.node_injective : Function.Injective ElseClause.node := by
  rintro ⟨node, _⟩ ⟨_, _⟩ rfl
  rfl

instance : DecidableEq ElseClause := fun _ _ =>
  decidable_of_iff _ ElseClause.node_injective.eq_iff

namespace Tree

/-- The `if` statements of a tree. -/
def ifStatements (tree : Tree) : List IfStatement := tree.nodes.filterMap Node.asIfStatement?

/-- The `else` clauses of a tree. -/
def elseClauses (tree : Tree) : List ElseClause := tree.nodes.filterMap Node.asElseClause?

/-- If the views of some nodes see all that is among the children of a certain sort, then the
views that see one thing are as many as its places among the children. -/
theorem countP_views {View Part : Type} [DecidableEq Part] {nodes : List Node}
    {view? : Node → Option View} {part? : View → Option Part} {among : Node → List Part}
    {p : Part → Bool}
    (h : ∀ node ∈ nodes, (among node).filter p = ((view? node).bind part?).toList) {part : Part}
    (hpart : p part = true) :
    (nodes.filterMap view?).countP (part? · = some part) = (nodes.flatMap among).count part :=
  calc (nodes.filterMap view?).countP (part? · = some part)
      = ((nodes.filterMap view?).filterMap part?).count part := by
        rw [List.count_filterMap]
        exact List.countP_congr fun _ _ => by rw [decide_eq_true_iff, beq_iff_eq]
    _ = (nodes.flatMap fun node => (among node).filter p).count part := by
        rw [List.filterMap_filterMap, List.filterMap_eq_flatMap_toList, List.flatMap_congr h]
    _ = (nodes.flatMap among).count part := by
        rw [← List.filter_flatMap, List.count_filter hpart]

variable {text : String} {tree : Tree}

theorem nodup_tokens_of_ofText (h : ofText text = .ok tree) : tree.tokens.Nodup :=
  List.Nodup.of_map _ (Lexeme.scanned_of_scan (ofText_sound h).2.1).nodup

/-- A token of a parsed tree stands in one place among the children of the nodes. -/
theorem count_childTokens (h : ofText text = .ok tree) {token : Token}
    (htoken : token ∈ tree.tokens) : (tree.nodes.flatMap Node.childTokens).count token = 1 := by
  rw [nodes_eq, tree.root.perm_childTokens.count_eq]
  exact List.count_eq_one_of_mem (nodup_tokens_of_ofText h) htoken

theorem mem_ifStatements {statement : IfStatement} :
    statement ∈ tree.ifStatements ↔ statement.node ∈ tree.nodes := by
  simp [ifStatements, List.mem_filterMap, Node.asIfStatement?_eq_some_iff]

theorem mem_elseClauses {clause : ElseClause} :
    clause ∈ tree.elseClauses ↔ clause.node ∈ tree.nodes := by
  simp [elseClauses, List.mem_filterMap, Node.asElseClause?_eq_some_iff]

theorem countP_elseKeyword? (h : ofText text = .ok tree) {token : Token}
    (htoken : token ∈ tree.tokens) (hkind : token.kind = .elseKeyword) :
    tree.elseClauses.countP (·.elseKeyword? = some token) = 1 := by
  rw [elseClauses, countP_views
    (fun node hnode => (arranged_of_ofText h node hnode).seen.elseKeywords)
    (decide_eq_true hkind), count_childTokens h htoken]

/-- A clause stands in one place in a parsed tree, since its keyword does. -/
theorem count_node_of_elseClause (h : ofText text = .ok tree) {clause : ElseClause}
    (hclause : clause ∈ tree.elseClauses) : tree.nodes.count clause.node = 1 := by
  have hnode := mem_elseClauses.mp hclause
  obtain ⟨keyword, hkeyword, -⟩ := (arranged_of_ofText h _ hnode).sees_elseClause.1
  have hmem : keyword ∈ tree.tokens :=
    mem_tokens_of_mem_childTokens hnode (List.mem_of_find?_eq_some hkeyword)
  have hkind : keyword.kind = .elseKeyword := by simpa using List.find?_some hkeyword
  have hone := countP_elseKeyword? h hmem hkind
  have hcount : tree.nodes.count clause.node = tree.elseClauses.count clause := by
    rw [elseClauses, List.count_filterMap]
    exact List.countP_congr fun node _ => by
      rw [beq_iff_eq, beq_iff_eq, Node.asElseClause?_eq_some_iff, eq_comm]
  have hle : tree.elseClauses.count clause ≤
      tree.elseClauses.countP (·.elseKeyword? = some keyword) :=
    List.countP_mono_left fun other _ hother => by
      obtain rfl := eq_of_beq hother
      exact decide_eq_true hkeyword
  have hpos := List.count_pos_iff.mpr hclause
  omega

/-- A clause of a parsed tree stands in one place among the children of the nodes. -/
theorem count_childNodes (h : ofText text = .ok tree) {clause : ElseClause}
    (hclause : clause ∈ tree.elseClauses) :
    (tree.nodes.flatMap Node.childNodes).count clause.node = 1 := by
  have hcount := count_node_of_elseClause h hclause
  rw [nodes_eq, ← tree.root.perm_childNodes.count_eq, ← nodes_eq] at hcount
  have hroot : tree.root ≠ clause.node := by
    rintro heq
    obtain ⟨body, last, hshape, -⟩ := (ofText_sound h).1
    have hkind := congrArg Shape.kind hshape
    rw [Node.kind_shape, heq, clause.kind_eq] at hkind
    cases hkind
  rwa [List.count_cons_of_ne hroot] at hcount

/-- **The views of a parsed tree lose nothing.**  An `if` statement or an `else` clause is made of
what its view has and of nothing else, in the order of the grammar.  Every keyword `if` is that of
one statement and every keyword `else` that of one clause, and every clause belongs to one
statement. -/
theorem views_of_ofText (h : ofText text = .ok tree) :
    (∀ statement ∈ tree.ifStatements, statement.Complete) ∧
      (∀ clause ∈ tree.elseClauses, clause.Complete) ∧
      (∀ token ∈ tree.tokens, token.kind = .ifKeyword →
        tree.ifStatements.countP (·.ifKeyword? = some token) = 1) ∧
      (∀ token ∈ tree.tokens, token.kind = .elseKeyword →
        tree.elseClauses.countP (·.elseKeyword? = some token) = 1) ∧
      ∀ clause ∈ tree.elseClauses, tree.ifStatements.countP (·.elseClause? = some clause) = 1 := by
  have harranged := arranged_of_ofText h
  refine ⟨?_, ?_, ?_, fun token => countP_elseKeyword? h, ?_⟩
  · intro statement hstatement
    exact (harranged _ (mem_ifStatements.mp hstatement)).sees_ifStatement.1
  · intro clause hclause
    exact (harranged _ (mem_elseClauses.mp hclause)).sees_elseClause.1
  · intro token htoken hkind
    rw [ifStatements, countP_views (fun node hnode => (harranged node hnode).seen.ifKeywords)
      (decide_eq_true hkind), count_childTokens h htoken]
  · intro clause hclause
    have hseen (node : Node) (hnode : node ∈ tree.nodes) :
        node.childNodes.filter (·.kind = .elseClause) = (node.asIfStatement?.bind fun statement =>
          statement.elseClause?.map ElseClause.node).toList := by
      rw [(harranged node hnode).seen.elseClauses, Option.map_bind]
      rfl
    rw [← count_childNodes h hclause, ← countP_views hseen (decide_eq_true clause.kind_eq)]
    refine List.countP_congr fun statement _ => ?_
    rw [decide_eq_true_iff, decide_eq_true_iff, ← Option.map_some,
      (Option.map_injective ElseClause.node_injective).eq_iff]

/-- A statement without a condition that guards a whole statement, each with a clause. -/
theorem views_of_ofText_nested :
    ∃ tree, ofText "if if (a) b; else { } else c;" = .ok tree ∧
      (tree.ifStatements.length = 2 ∧ tree.elseClauses.length = 2) ∧
      (∀ statement ∈ tree.ifStatements, statement.Complete) ∧
      (∀ clause ∈ tree.elseClauses, clause.Complete) ∧
      (∀ token ∈ tree.tokens, token.kind = .ifKeyword →
        tree.ifStatements.countP (·.ifKeyword? = some token) = 1) ∧
      (∀ token ∈ tree.tokens, token.kind = .elseKeyword →
        tree.elseClauses.countP (·.elseKeyword? = some token) = 1) ∧
      ∀ clause ∈ tree.elseClauses, tree.ifStatements.countP (·.elseClause? = some clause) = 1 := by
  have heval : (ofText "if if (a) b; else { } else c;").toOption.map
      (fun tree => (tree.ifStatements.length, tree.elseClauses.length)) = some (2, 2) := by
    decide +kernel
  obtain ⟨tree, htree, hlengths⟩ := Option.map_eq_some_iff.mp heval
  have h := eq_ok_of_toOption htree
  exact ⟨tree, h, Prod.mk.inj hlengths, views_of_ofText h⟩

end Tree
end SpacingLint
