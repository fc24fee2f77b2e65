import Mathlib.Data.List.Basic
import SpacingLint.Proofs.Source.Parsing

/-! # The children of the nodes of a parsed tree

The grammar says what a unit is made of; here the same is said of each node of a tree by itself.
Below an `if` statement stand its keyword, a condition between parentheses, the statement that is
guarded and an `else` clause, in this order and each but the keyword only if it is there; below an
`else` clause stand its keyword and a statement; and no other node has a keyword of these or a
clause for a child (`Tree.arranged_of_ofText`).

The way goes from derivations to the nodes of a shape, along the rules of the grammar
(`Grammar.IsUnit.makes`), and from shapes to the children of a node, which are tokens and nodes of
the same kinds as the shapes they have (`Node.arranged_of_makes`).
-/
namespace SpacingLint

/-- The kinds of what stands nowhere but below an `if` statement or an `else` clause. -/
def Kind.isBranching : Kind → Bool
  | ifKeyword | elseKeyword | elseClause => true
  | _ => false

/-! ## The nodes of a unit -/

namespace Shape

/-- What a shape is. -/
def kind : Shape → Kind
  | .leaf lexeme => lexeme.kind
  | .node kind _ => kind

mutual

/-- The nodes at and below a shape, each with what it is made of, in pre-order. -/
def nodes : Shape → List (Kind × List Shape)
  | .leaf _ => []
  | .node kind children => (kind, children) :: allNodes children

/-- The same for some shapes, one after the other. -/
def allNodes : List Shape → List (Kind × List Shape)
  | [] => []
  | shape :: rest => shape.nodes ++ allNodes rest

end

@[simp] theorem allNodes_nil : allNodes [] = [] := rfl

@[simp] theorem allNodes_node (kind : Kind) (children rest : List Shape) :
    allNodes (.node kind children :: rest) =
      (kind, children) :: (allNodes children ++ allNodes rest) := rfl

@[simp] theorem allNodes_append (shapes more : List Shape) :
    allNodes (shapes ++ more) = allNodes shapes ++ allNodes more := by
  induction shapes with
  | nil => rfl
  | cons shape rest ih => rw [List.cons_append, allNodes, allNodes, ih, List.append_assoc]

end Shape

mutual

/-- The nodes of a tree are those of its shape. -/
theorem Node.map_preorder : (node : Node) →
    node.preorder.map (fun below => (below.kind, Element.shapes below.children)) = node.shape.nodes
  | .mk kind span full children => by
    rw [Node.preorder, List.map_cons, Element.map_preorders children]
    rfl

theorem Element.map_preorders : (children : List Element) →
    (Element.preorders children).map (fun below => (below.kind, Element.shapes below.children)) =
      Shape.allNodes (Element.shapes children)
  | [] => rfl
  | .token _ :: rest => Element.map_preorders rest
  | .node child :: rest => by
    rw [Element.preorders, List.map_append, child.map_preorder, Element.map_preorders rest]
    rfl

end

namespace Grammar

open Shape

/-- **What a node of a unit is made of**: the parts of an `if` statement or of an `else` clause, or
else nothing that belongs to one. -/
inductive Makes : Kind → List Shape → Prop
  | ifStatement {keyword : Lexeme} {test body otherwise : List Shape}
      {behindTest behindBody behind : Kind} (hkeyword : keyword.kind = .ifKeyword)
      (htest : Derives .condition behindTest test) (hbody : Derives .guarded behindBody body)
      (hotherwise : Derives .otherwise behind otherwise) :
      Makes .ifStatement (.leaf keyword :: (test ++ (body ++ otherwise)))
  | elseClause {keyword : Lexeme} {body : List Shape} {behind : Kind}
      (hkeyword : keyword.kind = .elseKeyword) (hbody : Derives .guarded behind body) :
      Makes .elseClause (.leaf keyword :: body)
  | other {kind : Kind} {children : List Shape} (hif : kind ≠ .ifStatement)
      (helse : kind ≠ .elseClause) (hplain : ∀ child ∈ children, child.kind.isBranching = false) :
      Makes kind children

/-- There is nothing of an `if` statement or of an `else` clause among some shapes. -/
def Plain (shapes : List Shape) : Prop := ∀ shape ∈ shapes, shape.kind.isBranching = false

theorem plain_append {shapes more : List Shape} (h : Plain shapes) (hmore : Plain more) :
    Plain (shapes ++ more) :=
  List.forall_mem_append.mpr ⟨h, hmore⟩

theorem plain_leaf {lexeme : Lexeme} {rest : List Shape} (h : lexeme.kind.isBranching = false)
    (hrest : Plain rest) : Plain (.leaf lexeme :: rest) :=
  List.forall_mem_cons.mpr ⟨h, hrest⟩

theorem plain_node {kind : Kind} {children : List Shape} (h : kind.isBranching = false) :
    Plain [.node kind children] :=
  List.forall_mem_singleton.mpr h

theorem plain_between {opening closing : Lexeme} {inner : List Shape}
    (hopening : opening.kind.isBranching = false) (hinner : Plain inner)
    (hclosing : closing.kind.isBranching = false) :
    Plain (.leaf opening :: (inner ++ [.leaf closing])) :=
  plain_leaf hopening (plain_append hinner (plain_leaf hclosing nofun))

theorem Expresses.plain {phrase : Phrase} {shapes : List Shape} (h : Expresses phrase shapes) :
    Plain shapes := by
  induction h with
  | atom hkind =>
    refine plain_leaf ?_ nofun
    rcases hkind with hkind | hkind <;> rw [hkind] <;> rfl
  | parenthesised hopening _ hclosing ih =>
    exact plain_between (by rw [hopening]; rfl) ih (by rw [hclosing]; rfl)
  | noOperation => nofun
  | operation hoperator _ _ ihoperand ihmore =>
    exact plain_leaf (by rw [hoperator]; rfl) (plain_append ihoperand ihmore)
  | expression => exact plain_node rfl

/-- No clause begins with something that belongs to another one, but for the `else` clause. -/
theorem Derives.plain {clause : Clause} {next : Kind} {shapes : List Shape}
    (h : Derives clause next shapes) (hclause : clause ≠ .otherwise) : Plain shapes := by
  induction h with
  | ifStatement | block | expressionStatement => exact plain_node rfl
  | noCondition | unguarded | noStatement => nofun
  | condition hopening hinner hclosing =>
    exact plain_between (by rw [hopening]; rfl) hinner.plain (by rw [hclosing]; rfl)
  | guarded _ ih => exact ih nofun
  | noElse | elseClause => exact absurd rfl hclause
  | statements _ _ ihfirst ihmore => exact plain_append (ihfirst nofun) (ihmore nofun)

/-- Every node at and below some shapes is made as it should be. -/
def AllMade (shapes : List Shape) : Prop := ∀ node ∈ allNodes shapes, Makes node.1 node.2

theorem allMade_append {shapes more : List Shape} (h : AllMade shapes) (hmore : AllMade more) :
    AllMade (shapes ++ more) := by
  rw [AllMade, allNodes_append]
  exact List.forall_mem_append.mpr ⟨h, hmore⟩

theorem allMade_node {kind : Kind} {children : List Shape} (hnode : Makes kind children)
    (h : AllMade children) : AllMade [.node kind children] := by
  rw [AllMade, allNodes_node, allNodes_nil, List.append_nil]
  exact List.forall_mem_cons.mpr ⟨hnode, h⟩

theorem Expresses.allMade {phrase : Phrase} {shapes : List Shape} (h : Expresses phrase shapes) :
    AllMade shapes := by
  induction h with
  | atom | noOperation => nofun
  | parenthesised _ _ _ ih => exact allMade_append ih nofun
  | operation _ _ _ ihoperand ihmore => exact allMade_append ihoperand ihmore
  | expression hfirst hmore ihfirst ihmore =>
    exact allMade_node (.other nofun nofun (plain_append hfirst.plain hmore.plain))
      (allMade_append ihfirst ihmore)

theorem Derives.allMade {clause : Clause} {next : Kind} {shapes : List Shape}
    (h : Derives clause next shapes) : AllMade shapes := by
  induction h with
  | ifStatement hkeyword htest hbody hotherwise ihtest ihbody ihotherwise =>
    exact allMade_node (.ifStatement hkeyword htest hbody hotherwise)
      (allMade_append ihtest (allMade_append ihbody ihotherwise))
  | block hopening hbody hclosing ih =>
    refine allMade_node (.other nofun nofun ?_) (allMade_append ih nofun)
    exact plain_between (by rw [hopening]; rfl) (hbody.plain nofun) (by rw [hclosing]; rfl)
  | expressionStatement hvalue hsemicolon =>
    refine allMade_node (.other nofun nofun ?_) (allMade_append hvalue.allMade nofun)
    exact plain_append hvalue.plain (plain_leaf (by rw [hsemicolon]; rfl) nofun)
  | noCondition | unguarded | noElse | noStatement => nofun
  | condition _ hinner => exact allMade_append hinner.allMade nofun
  | guarded _ ih => exact ih
  | elseClause hkeyword hbody ih => exact allMade_node (.elseClause hkeyword hbody) ih
  | statements _ _ ihfirst ihmore => exact allMade_append ihfirst ihmore

/-- **Every node of a unit is made as it should be.** -/
theorem IsUnit.makes {shape : Shape} (h : IsUnit shape) :
    ∀ node ∈ shape.nodes, Makes node.1 node.2 := by
  obtain ⟨body, last, rfl, hbody, hlast⟩ := h
  refine List.forall_mem_cons.mpr ⟨?_, allMade_append hbody.allMade nofun⟩
  have hplain : Plain [.leaf last] := plain_leaf (by rw [hlast]; rfl) nofun
  exact .other nofun nofun (plain_append (hbody.plain nofun) hplain)

end Grammar

/-! ## The children of a node -/

/-- What a child is. -/
def Element.kind : Element → Kind
  | .token t => t.kind
  | .node n => n.kind

/-- What a child is made of, without spans. -/
def Element.shape : Element → Shape
  | .token t => .leaf t.lexeme
  | .node n => n.shape

theorem Element.shapes_eq_map (children : List Element) :
    shapes children = children.map shape := by
  induction children with
  | nil => rfl
  | cons child rest ih => cases child <;> rw [shapes, ih] <;> rfl

theorem Node.kind_shape (node : Node) : node.shape.kind = node.kind := by
  cases node
  rfl

theorem Element.kind_shape (child : Element) : child.shape.kind = child.kind := by
  rcases child with t | ⟨kind, span, full, children⟩ <;> rfl

theorem Element.eq_token_of_shape {child : Element} {lexeme : Lexeme}
    (h : child.shape = .leaf lexeme) : ∃ t, child = .token t ∧ t.kind = lexeme.kind := by
  rcases child with t | ⟨kind, span, full, children⟩ <;> cases h
  exact ⟨t, rfl, rfl⟩

theorem Element.eq_node_of_shape {child : Element} {kind : Kind} {inner : List Shape}
    (h : child.shape = .node kind inner) : ∃ n, child = .node n ∧ n.kind = kind := by
  rcases child with t | ⟨kind, span, full, children⟩ <;> cases h
  exact ⟨_, rfl, rfl⟩

namespace Node

/-- The condition of an `if` statement among its children. -/
inductive Tested : List Element → Prop
  | absent : Tested []
  | present {opening closing : Token} {condition : Node} (hopening : opening.kind = .openParen)
      (hcondition : condition.kind = .expression) (hclosing : closing.kind = .closeParen) :
      Tested [.token opening, .node condition, .token closing]

/-- The statement that a keyword guards among the children. -/
inductive Guarded : List Element → Prop
  | absent : Guarded []
  | present {statement : Node} (hstatement : statement.kind.isStatement = true) :
      Guarded [.node statement]

/-- The `else` clause of an `if` statement among its children. -/
inductive Continued : List Element → Prop
  | absent : Continued []
  | present {clause : Node} (hclause : clause.kind = .elseClause) : Continued [.node clause]

/-- **The children of a node of a parsed tree**, as far as `if` statements and `else` clauses are
concerned. -/
inductive Arranged (node : Node) : Prop
  | ifStatement {keyword : Token} {test body otherwise : List Element}
      (hkind : node.kind = .ifStatement) (hkeyword : keyword.kind = .ifKeyword)
      (htest : Tested test) (hbody : Guarded body) (hotherwise : Continued otherwise)
      (hchildren : node.children = .token keyword :: (test ++ (body ++ otherwise)))
  | elseClause {keyword : Token} {body : List Element} (hkind : node.kind = .elseClause)
      (hkeyword : keyword.kind = .elseKeyword) (hbody : Guarded body)
      (hchildren : node.children = .token keyword :: body)
  | other (hif : node.kind ≠ .ifStatement) (helse : node.kind ≠ .elseClause)
      (hplain : ∀ child ∈ node.children, child.kind.isBranching = false)

open Grammar

variable {next : Kind} {children : List Element}

theorem tested_of_derives (h : Derives .condition next (children.map Element.shape)) :
    Tested children := by
  generalize htest : children.map Element.shape = test at h
  cases h with
  | noCondition => exact List.map_eq_nil_iff.mp htest ▸ .absent
  | condition hopening hinner hclosing =>
    cases hinner with
    | expression =>
      obtain ⟨_, _, rfl, hfirst, htest⟩ := List.map_eq_cons_iff.mp htest
      obtain ⟨_, _, rfl, hinside, htest⟩ := List.map_eq_cons_iff.mp htest
      obtain ⟨_, rfl, hlast⟩ := List.map_eq_singleton_iff.mp htest
      obtain ⟨opening, rfl, hkind⟩ := Element.eq_token_of_shape hfirst
      obtain ⟨condition, rfl, hcondition⟩ := Element.eq_node_of_shape hinside
      obtain ⟨closing, rfl, hkind'⟩ := Element.eq_token_of_shape hlast
      exact .present (hkind.trans hopening) hcondition (hkind'.trans hclosing)

theorem guarded_of_derives (h : Derives .guarded next (children.map Element.shape)) :
    Guarded children := by
  generalize hbody : children.map Element.shape = body at h
  cases h with
  | unguarded => exact List.map_eq_nil_iff.mp hbody ▸ .absent
  | guarded h =>
    obtain ⟨kind, inner, rfl, hkind⟩ := h.statement_cases next
    obtain ⟨_, rfl, hshape⟩ := List.map_eq_singleton_iff.mp hbody
    obtain ⟨statement, rfl, rfl⟩ := Element.eq_node_of_shape hshape
    refine .present ?_
    rcases hkind with ⟨hkind, -⟩ | ⟨hkind, -⟩ | ⟨hkind, -⟩ <;> rw [hkind] <;> rfl

theorem continued_of_derives (h : Derives .otherwise next (children.map Element.shape)) :
    Continued children := by
  generalize hotherwise : children.map Element.shape = otherwise at h
  cases h with
  | noElse => exact List.map_eq_nil_iff.mp hotherwise ▸ .absent
  | elseClause =>
    obtain ⟨_, rfl, hshape⟩ := List.map_eq_singleton_iff.mp hotherwise
    obtain ⟨clause, rfl, hclause⟩ := Element.eq_node_of_shape hshape
    exact .present hclause

theorem arranged_of_makes {node : Node}
    (h : Makes node.kind (node.children.map Element.shape)) : node.Arranged := by
  generalize hkind : node.kind = kind at h
  generalize hmade : node.children.map Element.shape = made at h
  cases h with
  | ifStatement hkeyword htest hbody hotherwise =>
    obtain ⟨_, _, hchildren, hfirst, hrest⟩ := List.map_eq_cons_iff.mp hmade
    obtain ⟨test, _, rfl, rfl, hmore⟩ := List.map_eq_append_iff.mp hrest
    obtain ⟨body, otherwise, rfl, rfl, rfl⟩ := List.map_eq_append_iff.mp hmore
    obtain ⟨keyword, rfl, hsame⟩ := Element.eq_token_of_shape hfirst
    exact .ifStatement hkind (hsame.trans hkeyword) (tested_of_derives htest)
      (guarded_of_derives hbody) (continued_of_derives hotherwise) hchildren
  | elseClause hkeyword hbody =>
    obtain ⟨_, body, hchildren, hfirst, rfl⟩ := List.map_eq_cons_iff.mp hmade
    obtain ⟨keyword, rfl, hsame⟩ := Element.eq_token_of_shape hfirst
    exact .elseClause hkind (hsame.trans hkeyword) (guarded_of_derives hbody) hchildren
  | other hif helse hplain =>
    subst hmade
    refine .other (hkind ▸ hif) (hkind ▸ helse) fun child hchild => ?_
    rw [← Element.kind_shape]
    exact hplain _ (List.mem_map_of_mem hchild)

end Node

/-- **Every node of a parsed tree is arranged as it should be.** -/
theorem Tree.arranged_of_ofText {text : String} {tree : Tree} (h : ofText text = .ok tree) :
    ∀ node ∈ tree.nodes, node.Arranged := by
  intro node hnode
  rw [nodes_eq] at hnode
  have hmade := (ofText_sound h).1.makes
  rw [← Node.map_preorder] at hmade
  have hmakes := hmade _ (List.mem_map_of_mem hnode)
  rw [Element.shapes_eq_map] at hmakes
  exact Node.arranged_of_makes hmakes

end SpacingLint
