import SpacingLint.Config.Decode
import SpacingLint.Proofs.Analysis.Builtin
import SpacingLint.Proofs.Analysis.Determinism
import SpacingLint.Proofs.Tree.History

/-! # Analyses as a configuration asks for them

A configuration says whether the rule of the space after `if` runs and how the nodes are
visited.  The findings of this rule say nothing but their spans, so those that are tied are
equal: a parallel analysis returns under every schedule what a sequential one returns.  This
is so for every tree that a builder gives out, whatever calls were refused on the way, since
what it lost stands behind its last token.
-/
namespace SpacingLint

namespace Diagnostic

/-- Findings that say nothing but their spans are listed as the spans are sorted. -/
theorem exists_listing_ofArguments (descriptor : Descriptor) (spans : List Span) :
    ∃ sorted : List Span, listing (spans.map (ofArguments descriptor · [])) =
        sorted.map (ofArguments descriptor · []) ∧
      sorted.Perm spans ∧ sorted.Pairwise fun a b => (compare a b).isLE = true := by
  have hperm := listing_perm (spans.map (ofArguments descriptor · []))
  refine ⟨(listing (spans.map (ofArguments descriptor · []))).map span, ?_, ?_, ?_⟩
  · rw [List.map_map]
    refine (List.map_id _).symm.trans (List.map_congr_left fun diagnostic hmem => ?_)
    obtain ⟨span, -, rfl⟩ := List.mem_map.mp (hperm.mem_iff.mp hmem)
    rfl
  · have hspans := hperm.map span
    rwa [List.map_map, show span ∘ (ofArguments descriptor · []) = id from rfl,
      List.map_id] at hspans
  · exact List.pairwise_map.mpr ((listed_listing _).imp isLE_span)

end Diagnostic

namespace Table

theorem found_empty (tree : Tree) (node : Node) : empty.found tree node = [] := by
  simp [found, empty]

/-- A configuration turns the rule off, or else it runs. -/
theorem ofConfig_eq (config : LintConfig) :
    ofConfig config =
      if config.setting? "IfSpacing" = some .off then empty else Analyzer.builtin.table := by
  have henabled : config.isEnabled (IfSpacing.rule 0).descriptor =
      (config.setting? "IfSpacing").elim true Setting.isOn := rfl
  unfold ofConfig builtinRules
  cases hsetting : config.setting? "IfSpacing" with
  | none => simp [henabled, hsetting]; rfl
  | some setting => cases setting <;> simp [henabled, hsetting, Setting.isOn] <;> rfl

end Table

namespace Analyzer

/-- The findings of the rule that comes with the library are told apart by their spans. -/
theorem separated_builtin (tree : Tree) :
    Diagnostic.Separated (builtin.table.foundBelow tree) := by
  have hfound : ∀ node, ∀ diagnostic ∈ builtin.table.found tree node,
      ∃ span, Diagnostic.ofArguments IfSpacing.descriptor span [] = diagnostic := by
    intro node diagnostic hmem
    rw [found_builtin] at hmem
    obtain ⟨visited, -, hmem⟩ := List.mem_flatMap.mp hmem
    obtain ⟨span, -, hspan⟩ := IfSpacing.mem_findings_iff.mp hmem
    exact ⟨span, hspan⟩
  refine List.pairwise_map.mpr (List.pairwise_of_forall fun node other a ha b hb htied => ?_)
  obtain ⟨span, rfl⟩ := hfound node a ha
  obtain ⟨span', rfl⟩ := hfound other b hb
  exact congrArg (Diagnostic.ofArguments IfSpacing.descriptor · []) htied.1

theorem found_builtin_eq_map (tree : Tree) :
    builtin.table.found tree tree.root =
      (tree.nodes.filterMap IfSpacing.misspace?).map
        (Diagnostic.ofArguments IfSpacing.descriptor · []) := by
  rw [found_builtin_root, List.map_filterMap, List.filterMap_eq_flatMap_toList]
  rfl

/-- Without rules nothing is collected. -/
theorem collect_of_empty {analyzer : Analyzer} (h : analyzer.table = Table.empty)
    (schedule : Schedule) (tree : Tree) : analyzer.collectScheduled schedule tree = .ok [] := by
  have hfound : ∀ node, analyzer.table.found tree node = [] := by
    rw [h]
    exact Table.found_empty tree
  rw [collectScheduled_of_separated, hfound, Diagnostic.listing, List.mergeSort_nil]
  · simp [Table.FindsWithin, hfound]
  · exact List.pairwise_map.mpr (List.pairwise_of_forall fun node other => by simp [hfound])

/-- **What an analysis collects with the rules of a configuration**, from any tree that a
builder gives out, in either mode and under every schedule.  Nothing comes from a rule that
is turned off; otherwise there is one finding for every node that is misspaced, in the order
of the spans. -/
theorem collect_ofConfig {calls : List Builder.Call} {tree : Tree}
    (h : (Builder.empty.replies calls).2.finish = .ok tree) (config : AnalysisConfig)
    (schedule : Schedule) :
    (config.lint.setting? "IfSpacing" = some .off →
      (ofConfig config).collectScheduled schedule tree = .ok []) ∧
    (config.lint.setting? "IfSpacing" ≠ some .off → ∃ spans : List Span,
      (ofConfig config).collectScheduled schedule tree =
          .ok (spans.map (Diagnostic.ofArguments IfSpacing.descriptor · [])) ∧
        spans.Pairwise (fun a b => a.start < b.start ∨ a.start = b.start ∧ a.stop ≤ b.stop) ∧
        ∀ span, spans.count span =
          tree.nodes.countP fun node => decide (IfSpacing.Misspaced node span)) := by
  have htable : (ofConfig config).table = Table.ofConfig config.lint := rfl
  rw [Table.ofConfig_eq] at htable
  refine ⟨fun hoff => ?_, fun hon => ?_⟩
  · rw [if_pos hoff] at htable
    exact collect_of_empty htable schedule tree
  · rw [if_neg hon] at htable
    obtain ⟨spans, hlisting, hperm, hsorted⟩ := Diagnostic.exists_listing_ofArguments
      IfSpacing.descriptor (tree.nodes.filterMap IfSpacing.misspace?)
    have hwithin := within_builtin (Tree.laidBefore_of_replies h)
    have hseparated := separated_builtin tree
    rw [← htable] at hwithin hseparated
    refine ⟨spans, ?_, hsorted.imp Span.isLE_compare_iff.mp, fun span => ?_⟩
    · rw [collectScheduled_of_separated hwithin hseparated, htable, found_builtin_eq_map, hlisting]
    · rw [hperm.count_eq, List.count_filterMap]
      refine List.countP_congr fun node _ => ?_
      rw [beq_iff_eq, IfSpacing.misspace?_eq_some_iff, decide_eq_true_iff]

/-- Five statements: two without any text, one with its tokens the wrong way round, one with a
space, and one without.  A token before them and a second root behind them are refused. -/
def statements : List Builder.Call :=
  [.token .identifier "x", .start .compilationUnit,
    .start .ifStatement, .token .ifKeyword "", .token .openParen "", .finish,
    .start .ifStatement, .token .ifKeyword "", .token .openParen "", .finish,
    .start .ifStatement, .token .openParen "(", .token .ifKeyword "if", .finish,
    .start .ifStatement, .token .ifKeyword "if", .trail .whitespace " ",
      .token .openParen "(", .finish,
    .start .ifStatement, .token .ifKeyword "if", .token .openParen "(", .finish,
    .finish, .start .block, .token .identifier "y", .finish]

/-- Two findings have one and the same span, and both are returned. -/
theorem collect_ofConfig_statements : ∃ (tree : Tree) (spans : List Span),
    (Builder.empty.replies statements).2.finish = .ok tree ∧
      (ofConfig ⟨.parallel, LintConfig.empty⟩).collectScheduled [4, 1, 4, 1, 0] tree =
        .ok (spans.map (Diagnostic.ofArguments IfSpacing.descriptor · [])) ∧
      spans.count (Span.caret 0) = 2 ∧ spans.count (Span.ofSize 7 2) = 1 ∧
      (ofConfig ⟨.parallel, LintConfig.empty.withRule "IfSpacing" .off⟩).collectScheduled
        [4, 1, 4, 1, 0] tree = .ok [] := by
  have hfacts : (Builder.empty.replies statements).2.finish.toOption.map (fun tree =>
      (tree.nodes.countP fun node => decide (IfSpacing.Misspaced node (Span.caret 0)),
        tree.nodes.countP fun node => decide (IfSpacing.Misspaced node (Span.ofSize 7 2)))) =
      some (2, 1) := by
    decide +kernel
  obtain ⟨tree, htree, hcounts⟩ := Option.map_eq_some_iff.mp hfacts
  obtain ⟨hcaret, hwide⟩ := Prod.mk.inj hcounts
  have hfinish := eq_ok_of_toOption htree
  obtain ⟨spans, hcollect, -, hcount⟩ :=
    (collect_ofConfig hfinish ⟨.parallel, LintConfig.empty⟩ [4, 1, 4, 1, 0]).2 (by decide)
  have hoff := (collect_ofConfig hfinish
    ⟨.parallel, LintConfig.empty.withRule "IfSpacing" .off⟩ [4, 1, 4, 1, 0]).1 (by decide)
  exact ⟨tree, spans, hfinish, hcollect, (hcount _).trans hcaret, (hcount _).trans hwide, hoff⟩

end Analyzer
end SpacingLint
