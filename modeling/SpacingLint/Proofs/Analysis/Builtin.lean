import SpacingLint.Proofs.Analysis.Run
import SpacingLint.Proofs.Tree.Layout

/-! # Analyses with the rules that come with the library

What the rule of the space after `if` finds at a node is said by its child tokens
(`IfSpacing.Misspaced`), and its finding spans from the start of one to the start of another.
In a well laid tree these lie within the text, and so they do if tokens were lost behind it:
no report is refused for its span, and a collecting analysis returns all that the rule finds
(`Analyzer.collect_builtin`).
-/
namespace SpacingLint

/-! ## What is wrong with a node -/

namespace Node

/-- A token is the first one of its kind among the children of a node. -/
def FirstToken (node : Node) (kind : Kind) (token : Token) : Prop :=
  token.kind = kind ∧ ∃ before after, node.childTokens = before ++ token :: after ∧
    ∀ other ∈ before, other.kind ≠ kind

theorem childToken?_eq_some_iff {node : Node} {kind : Kind} {token : Token} :
    node.childToken? kind = some token ↔ node.FirstToken kind token := by
  rw [childToken?, List.find?_eq_some_iff_append]
  simp [FirstToken]

theorem FirstToken.mem {node : Node} {kind : Kind} {token : Token}
    (h : node.FirstToken kind token) : token ∈ node.childTokens := by
  obtain ⟨-, before, after, hsplit, -⟩ := h
  simp [hsplit]

end Node

namespace IfSpacing

/-- Between keyword and parenthesis of an `if` statement there is a span to be replaced: both
are there, the keyword does not start behind the parenthesis, and the trivia that trails the
keyword does not end in a single space. -/
def Misspaced (node : Node) (span : Span) : Prop :=
  node.kind = .ifStatement ∧ ∃ keyword paren,
    node.FirstToken .ifKeyword keyword ∧ node.FirstToken .openParen paren ∧
    span.start = keyword.span.start ∧ span.stop = paren.span.start ∧
    ∀ last ∈ keyword.trailing.getLast?, ¬ (last.kind = .whitespace ∧ last.text = " ")

/-- The span to be replaced at a node; `none` if nothing is. -/
def misspace? (node : Node) : Option Span := node.asIfStatement?.bind offence?

theorem endsInSpace_eq_false_iff {token : Token} :
    endsInSpace token = false ↔
      ∀ last ∈ token.trailing.getLast?, ¬ (last.kind = .whitespace ∧ last.text = " ") := by
  rw [endsInSpace]
  cases token.trailing.getLast? <;> simp

/-- **The rule finds what is wrong and nothing else.** -/
theorem misspace?_eq_some_iff {node : Node} {span : Span} :
    misspace? node = some span ↔ Misspaced node span := by
  rw [misspace?, Node.asIfStatement?, Misspaced]
  split
  · next hkind =>
    simp only [Option.bind_some, offence?, IfStatement.ifKeyword?, IfStatement.openParen?,
      Option.bind_eq_bind, Option.bind_eq_some_iff, Node.childToken?_eq_some_iff,
      Span.between?_eq_some_iff, hkind, true_and]
    constructor
    · rintro ⟨keyword, hkeyword, paren, hparen, between, ⟨hstart, hstop⟩, hjudged⟩
      split at hjudged
      · cases hjudged
      · next hspace =>
        cases hjudged
        exact ⟨keyword, paren, hkeyword, hparen, hstart, hstop,
          endsInSpace_eq_false_iff.mp (Bool.eq_false_iff.mpr hspace)⟩
    · rintro ⟨keyword, paren, hkeyword, hparen, hstart, hstop, hlast⟩
      refine ⟨keyword, hkeyword, paren, hparen, span, ⟨hstart, hstop⟩, ?_⟩
      rw [endsInSpace_eq_false_iff.mpr hlast]
      rfl
  · next hkind => simp [hkind]

instance (node : Node) (span : Span) : Decidable (Misspaced node span) :=
  decidable_of_iff _ misspace?_eq_some_iff

theorem findings_eq (tree : Tree) (node : Node) :
    findings tree node = ((misspace? node).map (Diagnostic.ofArguments descriptor · [])).toList :=
  rfl

theorem mem_findings_iff {tree : Tree} {node : Node} {diagnostic : Diagnostic} :
    diagnostic ∈ findings tree node ↔
      ∃ span, Misspaced node span ∧ Diagnostic.ofArguments descriptor span [] = diagnostic := by
  simp only [findings_eq, Option.mem_toList, Option.map_eq_some_iff, misspace?_eq_some_iff]

theorem findings_of_kind_ne {node : Node} (h : node.kind ≠ .ifStatement) (tree : Tree) :
    findings tree node = [] :=
  List.eq_nil_iff_forall_not_mem.mpr fun _ hmem => by
    obtain ⟨_, ⟨hkind, -⟩, -⟩ := mem_findings_iff.mp hmem
    exact h hkind

end IfSpacing

/-! ## What is found lies within the text -/

theorem Tree.LaidBefore.containsSpan_of_mem_findings {tree : Tree} {lost : List Token}
    (h : tree.LaidBefore lost) {node : Node} (hnode : node ∈ tree.nodes)
    {diagnostic : Diagnostic} (hmem : diagnostic ∈ IfSpacing.findings tree node) :
    tree.containsSpan diagnostic.span = true := by
  obtain ⟨span, ⟨-, _, paren, -, hparen, -, hstop, -⟩, rfl⟩ :=
    IfSpacing.mem_findings_iff.mp hmem
  have hle := h.stop_le_length (mem_tokens_of_mem_childTokens hnode hparen.mem)
  refine Span.contains_iff.mpr ⟨Nat.zero_le _, ?_⟩
  show span.stop ≤ tree.length
  rw [hstop]
  exact Nat.le_trans paren.span.start_le_stop hle

/-! ## What is collected -/

namespace Analyzer

theorem rulesFor_builtin (kind : Kind) :
    builtin.table.rulesFor kind = if kind = .ifStatement then [IfSpacing.rule 0] else [] := by
  cases kind <;> rfl

theorem found_builtin (tree : Tree) (node : Node) :
    builtin.table.found tree node = node.preorder.flatMap (IfSpacing.findings tree) := by
  rw [Table.found]
  congr 1
  funext visited
  rw [rulesFor_builtin]
  split
  · exact List.flatMap_singleton ..
  · next hkind => exact (IfSpacing.findings_of_kind_ne hkind tree).symm

theorem found_builtin_root (tree : Tree) :
    builtin.table.found tree tree.root = tree.nodes.flatMap (IfSpacing.findings tree) := by
  rw [found_builtin, Tree.nodes_eq]

/-- What the rule finds in a tree lies within its text. -/
theorem within_builtin {tree : Tree} {lost : List Token} (h : tree.LaidBefore lost) :
    builtin.table.FindsWithin tree := by
  intro diagnostic hmem
  rw [found_builtin_root] at hmem
  obtain ⟨node, hnode, hmem⟩ := List.mem_flatMap.mp hmem
  exact h.containsSpan_of_mem_findings hnode hmem

/-- **A collecting analysis of a well laid tree returns all that the rule finds**, listed. -/
theorem collect_builtin {tree : Tree} (h : tree.WellLaid) :
    builtin.collect tree =
      .ok (Diagnostic.listing (tree.nodes.flatMap (IfSpacing.findings tree))) := by
  rw [← found_builtin_root]
  exact (collect_sequential_iff rfl).mpr ⟨within_builtin h.laidBefore, rfl⟩

end Analyzer
end SpacingLint
