import SpacingLint.Lint.IfSpacing
import SpacingLint.Proofs.Source.Grammar
import SpacingLint.Proofs.Source.Writing

/-! # Which parenthesis belongs to which `if`

The rule looks at the nodes of a tree, one `if` statement at a time.  What it is about can
be seen in the lexemes alone: a keyword `if` with an opening parenthesis as the very next
lexeme, called a junction here.  By the grammar the two agree.  Going over the nodes of a
unit in pre-order, each with the keyword and the parenthesis among its children, one
meets exactly the junctions among its lexemes, each once and in order
(`Grammar.IsUnit.junctions_eq`); and what the rule finds at the nodes is what it finds at
these junctions (`Node.flatMap_findings_eq`).
-/
namespace SpacingLint

open SpacingLint.Parser (peek)

/-- A keyword `if` and the opening parenthesis right behind it. -/
structure Junction where
  /-- The keyword. -/
  keyword : Lexeme
  /-- The parenthesis. -/
  paren : Lexeme

namespace Junction

/-- The junctions among some lexemes, in order. -/
def all : List Lexeme → List Junction
  | first :: second :: rest =>
    if first.kind = .ifKeyword ∧ second.kind = .openParen then
      ⟨first, second⟩ :: all (second :: rest)
    else all (second :: rest)
  | _ => []

theorem all_cons_of_kinds {keyword paren : Lexeme} (hkeyword : keyword.kind = .ifKeyword)
    (hparen : paren.kind = .openParen) (rest : List Lexeme) :
    all (keyword :: paren :: rest) = ⟨keyword, paren⟩ :: all (paren :: rest) := by
  rw [all, if_pos ⟨hkeyword, hparen⟩]

theorem all_cons_of_not {lexeme : Lexeme} {rest : List Lexeme}
    (h : lexeme.kind = .ifKeyword → peek rest ≠ .openParen) :
    all (lexeme :: rest) = all rest := by
  cases rest with
  | nil => rfl
  | cons next rest => rw [all, if_neg (fun hkinds => h hkinds.1 hkinds.2)]

theorem all_cons_of_kind_ne {lexeme : Lexeme} (h : lexeme.kind ≠ .ifKeyword)
    (rest : List Lexeme) : all (lexeme :: rest) = all rest :=
  all_cons_of_not fun hkind => absurd hkind h

/-- A lexeme in front adds one junction or none. -/
theorem all_cons_cases (first : Lexeme) (lexemes : List Lexeme) :
    (∃ paren rest, lexemes = paren :: rest ∧ first.kind = .ifKeyword ∧
        paren.kind = .openParen ∧ all (first :: lexemes) = ⟨first, paren⟩ :: all lexemes) ∨
      all (first :: lexemes) = all lexemes := by
  by_cases hkinds : first.kind = .ifKeyword ∧ peek lexemes = .openParen
  · obtain ⟨hkeyword, hparen⟩ := hkinds
    cases lexemes with
    | nil => cases hparen
    | cons paren rest =>
      exact .inl ⟨paren, rest, rfl, hkeyword, hparen, all_cons_of_kinds hkeyword hparen rest⟩
  · exact .inr (all_cons_of_not fun hkeyword hparen => hkinds ⟨hkeyword, hparen⟩)

theorem all_sublist (lexemes : List Lexeme) : ((all lexemes).map keyword).Sublist lexemes := by
  induction lexemes with
  | nil => exact .slnil
  | cons first lexemes ih =>
    rcases all_cons_cases first lexemes with ⟨_, _, _, _, _, hall⟩ | hall
    · rw [hall]
      exact ih.cons_cons first
    · rw [hall]
      exact ih.cons first

/-- **The junctions are the pairs of neighbours of the two kinds.** -/
theorem mem_all_iff {lexemes : List Lexeme} {junction : Junction} :
    junction ∈ all lexemes ↔
      junction.keyword.kind = .ifKeyword ∧ junction.paren.kind = .openParen ∧
        ∃ init rest, lexemes = init ++ junction.keyword :: junction.paren :: rest := by
  induction lexemes with
  | nil =>
    constructor
    · nofun
    · rintro ⟨-, -, init, rest, heq⟩
      cases init <;> cases heq
  | cons first lexemes ih =>
    constructor
    · intro hmem
      rcases all_cons_cases first lexemes with ⟨paren, rest, rfl, hkeyword, hparen, hall⟩ | hall
      · rw [hall] at hmem
        rcases List.mem_cons.mp hmem with rfl | hmem
        · exact ⟨hkeyword, hparen, [], rest, rfl⟩
        · obtain ⟨hkeyword', hparen', init, rest', heq⟩ := ih.mp hmem
          exact ⟨hkeyword', hparen', first :: init, rest', congrArg (first :: ·) heq⟩
      · rw [hall] at hmem
        obtain ⟨hkeyword, hparen, init, rest, heq⟩ := ih.mp hmem
        exact ⟨hkeyword, hparen, first :: init, rest, congrArg (first :: ·) heq⟩
    · rintro ⟨hkeyword, hparen, init, rest, heq⟩
      cases init with
      | nil =>
        obtain ⟨rfl, rfl⟩ := List.cons.inj heq
        rw [all_cons_of_kinds hkeyword hparen]
        exact List.mem_cons_self ..
      | cons other init =>
        have hmem := ih.mpr ⟨hkeyword, hparen, init, rest, (List.cons.inj heq).2⟩
        rcases all_cons_cases first lexemes with ⟨_, _, _, _, _, hall⟩ | hall
        · rw [hall]
          exact List.mem_cons_of_mem _ hmem
        · rw [hall]
          exact hmem

end Junction

namespace Shape

/-- The lexeme of a shape that is one. -/
def leaf? : Shape → Option Lexeme
  | .leaf lexeme => some lexeme
  | .node _ _ => none

/-- The keyword and the parenthesis among the children of a node. -/
def junction? (children : List Shape) : Option Junction := do
  let keyword ← (children.filterMap leaf?).find? (·.kind = .ifKeyword)
  let paren ← (children.filterMap leaf?).find? (·.kind = .openParen)
  return ⟨keyword, paren⟩

mutual

/-- The junctions of the `if` statements at and below a shape, in pre-order. -/
def junctions : Shape → List Junction
  | .leaf _ => []
  | .node kind children =>
    (if kind = .ifStatement then (junction? children).toList else []) ++ allJunctions children

/-- The same for some shapes, one after the other. -/
def allJunctions : List Shape → List Junction
  | [] => []
  | shape :: rest => shape.junctions ++ allJunctions rest

end

@[simp] theorem allJunctions_nil : allJunctions [] = [] := rfl

@[simp] theorem allJunctions_leaf (lexeme : Lexeme) (rest : List Shape) :
    allJunctions (.leaf lexeme :: rest) = allJunctions rest := rfl

@[simp] theorem allJunctions_append (shapes more : List Shape) :
    allJunctions (shapes ++ more) = allJunctions shapes ++ allJunctions more := by
  induction shapes with
  | nil => rfl
  | cons shape rest ih => simp [allJunctions, ih]

theorem allJunctions_node {kind : Kind} (hkind : kind ≠ .ifStatement) (children : List Shape) :
    allJunctions [.node kind children] = allJunctions children := by
  simp [allJunctions, junctions, hkind]

theorem allJunctions_ifStatement (children : List Shape) :
    allJunctions [.node .ifStatement children] =
      (junction? children).toList ++ allJunctions children := by
  simp [allJunctions, junctions]

end Shape

/-! ## The junctions of a unit -/

namespace Grammar

open Shape Junction

/-- No keyword is part of an expression. -/
theorem Expresses.all_eq {phrase : Phrase} {shapes : List Shape} (h : Expresses phrase shapes)
    (rest : List Lexeme) :
    all (allLexemes shapes ++ rest) = all rest ∧ allJunctions shapes = [] := by
  induction h generalizing rest with
  | @atom lexeme hkind =>
    refine ⟨all_cons_of_not fun hif => ?_, rfl⟩
    rcases hkind with hkind | hkind <;> rw [hkind] at hif <;> cases hif
  | @parenthesised opening closing inner hopening _ hclosing ih =>
    obtain ⟨hall, hnone⟩ := ih (closing :: rest)
    simp [all_cons_of_kind_ne, hopening, hclosing, hall, hnone]
  | noOperation => exact ⟨rfl, rfl⟩
  | @operation operator operand more hoperator _ _ ihoperand ihmore =>
    obtain ⟨hoperand, hnone⟩ := ihoperand (allLexemes more ++ rest)
    obtain ⟨hmore, hnone'⟩ := ihmore rest
    simp [all_cons_of_kind_ne, hoperator, hoperand, hmore, hnone, hnone']
  | @expression first more _ _ ihfirst ihmore =>
    obtain ⟨hfirst, hnone⟩ := ihfirst (allLexemes more ++ rest)
    obtain ⟨hmore, hnone'⟩ := ihmore rest
    simp [allJunctions_node, hfirst, hmore, hnone, hnone']

theorem Expresses.leaves_eq_nil {value : List Shape} (h : Expresses .expression value) :
    value.filterMap leaf? = [] := by
  cases h
  rfl

theorem Derives.leaves_guarded {next : Kind} {body : List Shape}
    (h : Derives .guarded next body) : body.filterMap leaf? = [] := by
  cases h with
  | unguarded => rfl
  | guarded h => cases h <;> rfl

theorem Derives.leaves_otherwise {next : Kind} {otherwise : List Shape}
    (h : Derives .otherwise next otherwise) : otherwise.filterMap leaf? = [] := by
  cases h <;> rfl

/-- **The parenthesis of an `if` statement is the lexeme behind its keyword**, and a
statement without one has no parenthesis there. -/
theorem Derives.all_keyword {next : Kind} {keyword : Lexeme} {test body otherwise : List Shape}
    (hkeyword : keyword.kind = .ifKeyword)
    (htest : Derives .condition (firstKind (body ++ otherwise) next) test)
    (hbody : Derives .guarded (firstKind otherwise next) body)
    (hotherwise : Derives .otherwise next otherwise) {rest : List Lexeme}
    (hrest : peek rest = firstKind (body ++ otherwise) next) :
    all (keyword :: (allLexemes test ++ rest)) =
      (junction? (.leaf keyword :: (test ++ (body ++ otherwise)))).toList ++
        all (allLexemes test ++ rest) := by
  have hleaves : (Shape.leaf keyword :: (test ++ (body ++ otherwise))).filterMap leaf? =
      keyword :: test.filterMap leaf? := by
    simp [leaf?, hbody.leaves_guarded, hotherwise.leaves_otherwise]
  rw [junction?, hleaves]
  cases htest with
  | noCondition hnext =>
    rw [all_cons_of_not fun _ => by simpa [hrest] using hnext]
    simp [hkeyword]
  | condition hopening hinner =>
    rw [allLexemes_leaf, List.cons_append, all_cons_of_kinds hkeyword hopening]
    simp [leaf?, hinner.leaves_eq_nil, hkeyword, hopening]

/-- The junctions among the lexemes of a clause are those of its `if` statements. -/
theorem Derives.all_eq {clause : Clause} {next : Kind} {shapes : List Shape}
    (h : Derives clause next shapes) (rest : List Lexeme) (hrest : peek rest = next) :
    all (allLexemes shapes ++ rest) = allJunctions shapes ++ all rest := by
  induction h generalizing rest with
  | @ifStatement next keyword test body otherwise hkeyword htest hbody hotherwise ihtest ihbody
      ihotherwise =>
    -- The keyword makes a junction or none; the parts behind it make theirs on their own.
    have hotherwiseEq := ihotherwise rest hrest
    have hbodyEq := ihbody (allLexemes otherwise ++ rest) (by rw [peek_append, hrest])
    have hpeek : peek (allLexemes body ++ (allLexemes otherwise ++ rest)) =
        firstKind (body ++ otherwise) next := by
      rw [← List.append_assoc, ← allLexemes_append, peek_append, hrest]
    have htestEq := ihtest _ hpeek
    have hkeywordEq := all_keyword hkeyword htest hbody hotherwise hpeek
    rw [allJunctions_ifStatement]
    simp [hkeywordEq, htestEq, hbodyEq, hotherwiseEq]
  | @block next opening closing body hopening _ hclosing ih =>
    have hbody := ih (closing :: rest) hclosing
    simp [allJunctions_node, all_cons_of_kind_ne, hopening, hclosing, hbody]
  | @expressionStatement next semicolon value hvalue hsemicolon =>
    obtain ⟨hall, hnone⟩ := hvalue.all_eq (semicolon :: rest)
    simp [allJunctions_node, all_cons_of_kind_ne, hsemicolon, hall, hnone]
  | noCondition => rfl
  | @condition next opening closing inner hopening hinner hclosing =>
    obtain ⟨hall, hnone⟩ := hinner.all_eq (closing :: rest)
    simp [all_cons_of_kind_ne, hopening, hclosing, hall, hnone]
  | unguarded => rfl
  | guarded _ ih => exact ih rest hrest
  | noElse => rfl
  | @elseClause next keyword body hkeyword _ ih =>
    simp [allJunctions_node, all_cons_of_kind_ne, hkeyword, ih rest hrest]
  | noStatement => rfl
  | @statements next first more _ _ ihfirst ihmore =>
    have hfirst := ihfirst (allLexemes more ++ rest) (by rw [peek_append, hrest])
    simp [hfirst, ihmore rest hrest]

/-- **The `if` statements of a unit are met at its junctions**, each once and in order. -/
theorem IsUnit.junctions_eq {shape : Shape} (h : IsUnit shape) :
    shape.junctions = all shape.lexemes := by
  obtain ⟨body, last, rfl, hbody, hlast⟩ := h
  have hall : all (allLexemes body ++ [last]) = allJunctions body ++ [] :=
    hbody.all_eq [last] hlast
  simp [junctions, lexemes, hall]

end Grammar

/-! ## What the rule finds at a junction -/

namespace Junction

/-- What is to be replaced at a junction; `none` if nothing is. -/
def offence? (junction : Junction) : Option Span := do
  let span ← Span.between? junction.keyword.offset junction.paren.offset
  if junction.keyword.trailing.getLast? = some ⟨.whitespace, " "⟩ then none else some span

/-- What the rule finds at a junction. -/
def finding? (junction : Junction) : Option Diagnostic :=
  junction.offence?.map (Diagnostic.ofArguments IfSpacing.descriptor · [])

end Junction

theorem Element.leaves_shapes (children : List Element) :
    (Element.shapes children).filterMap Shape.leaf? =
      (children.filterMap Element.token?).map Token.lexeme := by
  induction children with
  | nil => rfl
  | cons child rest ih =>
    cases child with
    | token token => simp [Element.shapes, Shape.leaf?, ih]
    | node node => cases node; exact ih

theorem Node.find?_leaves (node : Node) (kind : Kind) :
    ((Element.shapes node.children).filterMap Shape.leaf?).find? (·.kind = kind) =
      (node.childToken? kind).map Token.lexeme := by
  rw [Element.leaves_shapes, List.find?_map]
  rfl

theorem Token.endsInSpace_iff (token : Token) :
    IfSpacing.endsInSpace token = true ↔
      token.lexeme.trailing.getLast? = some ⟨.whitespace, " "⟩ := by
  rw [IfSpacing.endsInSpace, lexeme, List.getLast?_map]
  cases token.trailing.getLast? with
  | none => simp
  | some last => simp [Trivia.piece]

namespace IfStatement

/-- The junction of an `if` statement: its keyword and its parenthesis, if it has both. -/
def junction? (statement : IfStatement) : Option Junction := do
  let keyword ← statement.ifKeyword?
  let paren ← statement.openParen?
  return ⟨keyword.lexeme, paren.lexeme⟩

theorem junction?_shapes (statement : IfStatement) :
    Shape.junction? (Element.shapes statement.node.children) = statement.junction? := by
  rw [Shape.junction?, Node.find?_leaves, Node.find?_leaves, junction?, ifKeyword?, openParen?]
  cases statement.node.childToken? .ifKeyword with
  | none => rfl
  | some keyword => cases statement.node.childToken? .openParen <;> rfl

theorem offence?_eq (statement : IfStatement) :
    IfSpacing.offence? statement = statement.junction?.bind Junction.offence? := by
  rw [IfSpacing.offence?, junction?]
  cases statement.ifKeyword? with
  | none => rfl
  | some keyword =>
    cases statement.openParen? with
    | none => rfl
    | some paren =>
      simp only [Option.bind_eq_bind, Option.bind_some, Token.endsInSpace_iff]
      rfl

end IfStatement

/-- What the rule finds at a node is what it finds at the junction of its children. -/
theorem Node.findings_eq (tree : Tree) (node : Node) :
    IfSpacing.findings tree node =
      (if node.kind = .ifStatement then (Shape.junction? (Element.shapes node.children)).toList
        else []).filterMap Junction.finding? := by
  rw [IfSpacing.findings, asIfStatement?]
  split
  · next hkind =>
    rw [(⟨node, hkind⟩ : IfStatement).junction?_shapes, Option.bind_some, IfStatement.offence?_eq]
    cases (⟨node, hkind⟩ : IfStatement).junction? with
    | none => rfl
    | some junction =>
      rw [Option.bind_some, Option.toList_some, List.filterMap_cons, Junction.finding?]
      cases junction.offence? <;> rfl
  · rfl

mutual

/-- **What the rule finds at the nodes of a tree is what it finds at their junctions.** -/
theorem Node.flatMap_findings_eq (tree : Tree) : (node : Node) →
    node.preorder.flatMap (IfSpacing.findings tree) =
      node.shape.junctions.filterMap Junction.finding?
  | .mk kind span full children => by
    rw [Node.preorder, List.flatMap_cons, Node.findings_eq, Node.shape, Shape.junctions,
      List.filterMap_append, Element.flatMap_findings_eq tree children]
    rfl

theorem Element.flatMap_findings_eq (tree : Tree) : (children : List Element) →
    (Element.preorders children).flatMap (IfSpacing.findings tree) =
      (Shape.allJunctions (Element.shapes children)).filterMap Junction.finding?
  | [] => rfl
  | .token _ :: rest => Element.flatMap_findings_eq tree rest
  | .node node :: rest => by
    rw [Element.preorders, List.flatMap_append, Node.flatMap_findings_eq tree node,
      Element.flatMap_findings_eq tree rest, Element.shapes, Shape.allJunctions,
      List.filterMap_append]

end

end SpacingLint
