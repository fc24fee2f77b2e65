import SpacingLint.Proofs.Analysis.Parallel
import SpacingLint.Proofs.Lint.Listing
import SpacingLint.Proofs.Tree.Fidelity
import SpacingLint.Lint.IfSpacing

/-! # Analyses that do not depend on the schedule

A parallel analysis collects an interleaving of what is found in the subtrees below the
root, and sorting does not undo all of it: diagnostics with one span and one rule id stay in
the order in which the threads reported them.  Every interleaving can come up, so **a
parallel analysis always returns what a sequential one does exactly when such diagnostics of
different subtrees are equal**.  For any rules, what comes out agrees with the sequential
result up to the order of tied diagnostics.
-/
namespace SpacingLint

namespace Table

variable {table : Table} {tree : Tree}

/-- What is found in each of the subtrees below the root. -/
def foundBelow (table : Table) (tree : Tree) : List (List Diagnostic) :=
  tree.root.childNodes.map (table.found tree)

theorem map_reports_scripts :
    (tree.root.childNodes.map (table.script tree)).map (List.filterMap Act.report?) =
      table.foundBelow tree := by
  rw [List.map_map, foundBelow]
  congr 1
  funext subtree
  exact table.reports_script tree subtree

/-- What the rules find is what they find at the root and then below it. -/
theorem found_root :
    table.found tree tree.root =
      Act.reports (table.acts tree tree.root) ++ (table.foundBelow tree).flatten := by
  rw [← reports_script, script_eq, Act.reports_append, ← map_reports_scripts,
    ← List.filterMap_flatten]
  rfl

/-- **The reports of a parallel walk are interleaved as its acts are**, and every
interleaving of the reports comes from one of the acts. -/
theorem exists_merges_iff {reports : List Diagnostic} :
    (∃ acts, table.Merges tree acts ∧ Act.reports acts = reports) ↔
      ∃ merged, Interleaving (table.foundBelow tree) merged ∧
        Act.reports (table.acts tree tree.root) ++ merged = reports := by
  rw [← map_reports_scripts]
  constructor
  · rintro ⟨acts, ⟨merged, hmerged, rfl⟩, rfl⟩
    exact ⟨_, hmerged.filterMap Act.report?, (Act.reports_append ..).symm⟩
  · rintro ⟨selected, hselected, rfl⟩
    obtain ⟨merged, hmerged, rfl⟩ := hselected.exists_filterMap
    exact ⟨_, ⟨merged, hmerged, rfl⟩, Act.reports_append ..⟩

end Table

namespace Analyzer

variable {analyzer : Analyzer} {tree : Tree} {listed : List Diagnostic}

/-- **What parallel analyses collect**: under some schedule a list is returned exactly when it
lists an interleaving of what is found, all of which lies within the text. -/
theorem exists_collect_parallel_iff (hmode : analyzer.mode = .parallel) :
    (∃ schedule, analyzer.collectScheduled schedule tree = .ok listed) ↔
      analyzer.table.FindsWithin tree ∧ ∃ merged, Interleaving (analyzer.table.foundBelow tree) merged ∧
        Diagnostic.listing (Act.reports (analyzer.table.acts tree tree.root) ++ merged) =
          listed := by
  simp only [collectScheduled_eq_ok_iff, runScheduled, hmode, ← delivers_collecting_iff]
  constructor
  · rintro ⟨schedule, summary, after, hwalk, rfl⟩
    obtain ⟨hdelivers, -, acts, hmerges, rfl⟩ := Table.exists_merges_of_walkParallel hwalk
    obtain ⟨merged, hmerged, hreports⟩ := Table.exists_merges_iff.mp ⟨acts, hmerges, rfl⟩
    exact ⟨hdelivers, merged, hmerged, by rw [hreports, listing_after_collecting]⟩
  · rintro ⟨hdelivers, merged, hmerged, rfl⟩
    obtain ⟨acts, hmerges, hreports⟩ := Table.exists_merges_iff.mpr ⟨merged, hmerged, rfl⟩
    obtain ⟨schedule, hwalk⟩ := Table.exists_walkParallel_of_merges hmerges hdelivers
    exact ⟨schedule, _, _, hwalk, by rw [← hreports, listing_after_collecting]⟩

/-- A parallel analysis fails under no schedule if all that is found lies within the text. -/
theorem exists_collectScheduled_eq_ok (hmode : analyzer.mode = .parallel)
    (h : analyzer.table.FindsWithin tree) (schedule : Schedule) :
    ∃ listed, analyzer.collectScheduled schedule tree = .ok listed := by
  obtain ⟨summary, after, hwalk⟩ :=
    Table.exists_walkParallel_eq_ok schedule (delivers_collecting_iff.mpr h)
  exact ⟨_, collectScheduled_eq_ok_iff.mpr
    ⟨summary, after, by simpa only [runScheduled, hmode] using hwalk, rfl⟩⟩

/-- **A parallel analysis that collects the same under every schedule** is one of a tree in
which tied findings of different subtrees are equal. -/
theorem forall_collect_parallel_iff (hmode : analyzer.mode = .parallel)
    (h : analyzer.table.FindsWithin tree) :
    (∀ schedule, analyzer.collectScheduled schedule tree =
        .ok (Diagnostic.listing (analyzer.table.found tree tree.root))) ↔
      Diagnostic.Separated (analyzer.table.foundBelow tree) := by
  rw [← Diagnostic.forall_listing_eq_iff (Act.reports (analyzer.table.acts tree tree.root)),
    ← Table.found_root]
  constructor
  · intro hall merged hmerged
    obtain ⟨schedule, hschedule⟩ :=
      (exists_collect_parallel_iff hmode).mpr ⟨h, merged, hmerged, rfl⟩
    exact Except.ok.inj (hschedule.symm.trans (hall schedule))
  · intro hall schedule
    obtain ⟨listed, hlisted⟩ := exists_collectScheduled_eq_ok hmode h schedule
    obtain ⟨-, merged, hmerged, rfl⟩ :=
      (exists_collect_parallel_iff hmode).mp ⟨schedule, hlisted⟩
    rw [hlisted, hall merged hmerged]

/-- The schedule does not matter in either mode if tied findings of different subtrees are
equal. -/
theorem collectScheduled_of_separated
    (h : analyzer.table.FindsWithin tree)
    (hseparated : Diagnostic.Separated (analyzer.table.foundBelow tree)) (schedule : Schedule) :
    analyzer.collectScheduled schedule tree =
      .ok (Diagnostic.listing (analyzer.table.found tree tree.root)) := by
  cases hmode : analyzer.mode with
  | sequential => exact (collect_sequential_iff hmode).mpr ⟨h, rfl⟩
  | parallel => exact (forall_collect_parallel_iff hmode h).mpr hseparated schedule

/-- **What the schedule can change.**  If a sequential analysis succeeds, a parallel one does
under every schedule, with the same diagnostics and the same spans and rule ids in the same
order; and it always returns the very same list exactly when diagnostics with one span and
one rule id are equal wherever different subtrees report them. -/
theorem collect_parallel {table : Table} (h : (ofTable table).collect tree = .ok listed) :
    (∀ schedule, ∃ other,
        ((ofTable table).withMode .parallel).collectScheduled schedule tree = .ok other ∧
          other.Perm listed ∧ other.map Diagnostic.place = listed.map Diagnostic.place) ∧
      ((∀ schedule,
          ((ofTable table).withMode .parallel).collectScheduled schedule tree = .ok listed) ↔
        (tree.root.childNodes.map (table.found tree)).Pairwise fun found others =>
          ∀ a ∈ found, ∀ b ∈ others, a.span = b.span → a.ruleId = b.ruleId → a = b) := by
  obtain ⟨hwithin, rfl⟩ := (collect_sequential_iff rfl).mp h
  have hmode : ((ofTable table).withMode .parallel).mode = .parallel := rfl
  refine ⟨fun schedule => ?_, ?_⟩
  · obtain ⟨other, hother⟩ := exists_collectScheduled_eq_ok hmode hwithin schedule
    obtain ⟨-, merged, hmerged, rfl⟩ := (exists_collect_parallel_iff hmode).mp ⟨schedule, hother⟩
    have hperm : (Act.reports (table.acts tree tree.root) ++ merged).Perm
        (table.found tree tree.root) := by
      rw [Table.found_root]
      exact hmerged.perm.append_left _
    exact ⟨_, hother, ((Diagnostic.listing_perm _).trans hperm).trans
      (Diagnostic.listing_perm _).symm, Diagnostic.map_place_listing hperm⟩
  · refine (forall_collect_parallel_iff hmode hwithin).trans ?_
    show Diagnostic.Separated (tree.root.childNodes.map (table.found tree)) ↔ _
    simp only [Diagnostic.Separated, Diagnostic.Tied, and_imp]

/-- The identity of a rule that says two things. -/
def pair : Descriptor := { IfSpacing.descriptor with id := "Pair" }

/-- A table of that rule, which looks at blocks and reports both at one place. -/
def pairs (span : Tree → Node → Span) : Table :=
  Table.ofRules [{
    handle := 0
    descriptor := pair
    kinds := [.block]
    findings := fun tree node => ["x", "y"].map (Diagnostic.ofMessage pair (span tree node)) }]

/-- Two blocks, one behind the other. -/
def blocks : List Builder.Call :=
  [.start .compilationUnit,
    .start .block, .token .openBrace "\x7b", .token .closeBrace "\x7d", .finish,
    .start .block, .token .openBrace "\x7b", .token .closeBrace "\x7d", .finish, .finish]

/-- Reports at the blocks themselves: each subtree has a place of its own, and the schedule
does not matter. -/
theorem collect_parallel_blocks : ∃ tree listed,
    Tree.ofCalls blocks = .ok tree ∧
      (ofTable (pairs fun _ node => node.span)).collect tree = .ok listed ∧
      listed.map Diagnostic.message = ["x", "y", "x", "y"] ∧
      ∀ schedule, ((ofTable (pairs fun _ node => node.span)).withMode .parallel).collectScheduled
        schedule tree = .ok listed := by
  have hfacts : (Tree.ofCalls blocks).toOption.map (fun tree =>
      let found := (pairs fun _ node => node.span).found tree
      decide ((∀ diagnostic ∈ found tree.root, tree.containsSpan diagnostic.span = true) ∧
        ((found tree.root).Pairwise fun a b => (Diagnostic.listingOrder a b).isLE = true) ∧
        (found tree.root).map Diagnostic.message = ["x", "y", "x", "y"] ∧
        (tree.root.childNodes.map found).Pairwise fun found others =>
          ∀ a ∈ found, ∀ b ∈ others, a.span = b.span → a.ruleId = b.ruleId → a = b)) =
      some true := by
    decide +kernel
  obtain ⟨tree, htree, hall⟩ := Option.map_eq_some_iff.mp hfacts
  obtain ⟨hwithin, hlisted, hmessages, hseparated⟩ := of_decide_eq_true hall
  have hcollect : (ofTable (pairs fun _ node => node.span)).collect tree = .ok _ :=
    (collect_sequential_iff rfl).mpr ⟨hwithin, Diagnostic.Listed.listing_eq hlisted⟩
  exact ⟨tree, _, eq_ok_of_toOption htree, hcollect, hmessages,
    (collect_parallel hcollect).2.mpr hseparated⟩

/-- **The schedule can be seen** if both blocks are reported at the whole text: the threads
took turns, and the two remarks about the first block do not stay together. -/
theorem collect_parallel_blocks_ne : ∃ tree listed other,
    Tree.ofCalls blocks = .ok tree ∧
      (ofTable (pairs fun tree _ => tree.span)).collect tree = .ok listed ∧
      ((ofTable (pairs fun tree _ => tree.span)).withMode .parallel).collectScheduled
        [0, 1, 0, 1, 0, 1] tree = .ok other ∧
      listed.map Diagnostic.message = ["x", "y", "x", "y"] ∧
      other.map Diagnostic.message = ["x", "x", "y", "y"] := by
  have hfacts : (Tree.ofCalls blocks).toOption.map (fun tree =>
      let sequential := (ofTable (pairs fun tree _ => tree.span)).runInto [] tree Sink.collecting
      let parallel := ((ofTable (pairs fun tree _ => tree.span)).withMode .parallel).runInto
        [0, 1, 0, 1, 0, 1] tree Sink.collecting
      decide ((sequential.1.isOk = true ∧ parallel.1.isOk = true) ∧
        (sequential.2.sink.received.toList.Pairwise fun a b =>
          (Diagnostic.listingOrder a b).isLE = true) ∧
        (parallel.2.sink.received.toList.Pairwise fun a b =>
          (Diagnostic.listingOrder a b).isLE = true) ∧
        sequential.2.sink.received.toList.map Diagnostic.message = ["x", "y", "x", "y"] ∧
        parallel.2.sink.received.toList.map Diagnostic.message = ["x", "x", "y", "y"])) =
      some true := by
    decide +kernel
  obtain ⟨tree, htree, hall⟩ := Option.map_eq_some_iff.mp hfacts
  obtain ⟨⟨hok, hokToo⟩, hlisted, hlistedToo, hmessages⟩ := of_decide_eq_true hall
  exact ⟨tree, _, _, eq_ok_of_toOption htree,
    collectScheduled_of_received hok (Diagnostic.Listed.listing_eq hlisted),
    collectScheduled_of_received hokToo (Diagnostic.Listed.listing_eq hlistedToo), hmessages⟩

end Analyzer
end SpacingLint
