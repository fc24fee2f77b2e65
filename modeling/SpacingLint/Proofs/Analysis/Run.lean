import SpacingLint.Analysis.Analyzer
import SpacingLint.Proofs.Tree.Preorder

/-! # A walk performs a script

The walk of an analyzer is a recursion over nodes, then over rules, then over findings,
with a failure ending all three.  Here it becomes one list of acts: a walk performs the
script of its node and, if nothing fails, returns what the script counts
(`Table.walk_eq`).

Whether a list of acts succeeds does not depend on the order of its reports: all of them
have to lie within the text, and the sink needs room for as many as there are
(`Tree.Delivers`).  What the list does to a session is then a matter of the list alone
(`Act.performAll_eq_ok_iff`), and so is what an analysis collects
(`Analyzer.collect_sequential_iff`).
-/
namespace SpacingLint

namespace Act

/-- The diagnostic an act reports. -/
def report? : Act → Option Diagnostic
  | .visit _ _ => none
  | .report diagnostic => some diagnostic

/-- What some acts report, in order. -/
def reports (acts : List Act) : List Diagnostic := acts.filterMap report?

/-- The visit an act makes. -/
def visit? : Act → Option Visit
  | .visit rule node => some ⟨rule.handle, node⟩
  | .report _ => none

/-- The visits some acts make, in order. -/
def visits (acts : List Act) : List Visit := acts.filterMap visit?

@[simp] theorem reports_nil : reports [] = [] := rfl

@[simp] theorem reports_visit (rule : Rule) (node : Node) (rest : List Act) :
    reports (.visit rule node :: rest) = reports rest := rfl

@[simp] theorem reports_report (diagnostic : Diagnostic) (rest : List Act) :
    reports (.report diagnostic :: rest) = diagnostic :: reports rest := rfl

@[simp] theorem reports_append (acts more : List Act) :
    reports (acts ++ more) = reports acts ++ reports more :=
  List.filterMap_append

@[simp] theorem visits_nil : visits [] = [] := rfl

@[simp] theorem visits_visit (rule : Rule) (node : Node) (rest : List Act) :
    visits (.visit rule node :: rest) = ⟨rule.handle, node⟩ :: visits rest := rfl

@[simp] theorem visits_report (diagnostic : Diagnostic) (rest : List Act) :
    visits (.report diagnostic :: rest) = visits rest := rfl

@[simp] theorem visits_append (acts more : List Act) :
    visits (acts ++ more) = visits acts ++ visits more :=
  List.filterMap_append

@[simp] theorem reports_map_report (diagnostics : List Diagnostic) :
    reports (diagnostics.map .report) = diagnostics := by
  rw [reports, List.filterMap_map]
  exact List.filterMap_some

@[simp] theorem visits_map_report (diagnostics : List Diagnostic) :
    visits (diagnostics.map .report) = [] := by
  rw [visits, List.filterMap_map, List.filterMap_eq_nil_iff]
  exact fun _ _ => rfl

theorem performAll_append (tree : Tree) (acts more : List Act) :
    performAll tree (acts ++ more) =
      performAll tree acts >>= fun _ => performAll tree more := by
  induction acts with
  | nil => simp [performAll]
  | cons act rest ih => simp [performAll, ih]

end Act

/-! ## Room in a sink -/

namespace Sink

variable (sink : Sink)

/-- There is room for `count` more diagnostics. -/
def HasRoom (count : Nat) : Prop := ∀ room, sink.room = some room → count ≤ room

/-- The sink with some diagnostics accepted. -/
def after (diagnostics : List Diagnostic) : Sink :=
  ⟨sink.room.map (· - diagnostics.length), sink.received ++ diagnostics.toArray⟩

@[simp] theorem received_after (diagnostics : List Diagnostic) :
    (sink.after diagnostics).received.toList = sink.received.toList ++ diagnostics := by
  simp [after]

@[simp] theorem after_nil : sink.after [] = sink := by
  obtain ⟨room, received⟩ := sink
  cases room <;> simp [after]

@[simp] theorem after_append (diagnostics more : List Diagnostic) :
    (sink.after diagnostics).after more = sink.after (diagnostics ++ more) := by
  obtain ⟨room, received⟩ := sink
  cases room <;> simp [after, Nat.sub_sub, Array.append_assoc]

theorem hasRoom_append {diagnostics more : List Diagnostic} :
    sink.HasRoom (diagnostics ++ more).length ↔
      sink.HasRoom diagnostics.length ∧ (sink.after diagnostics).HasRoom more.length := by
  obtain ⟨room, received⟩ := sink
  cases room with
  | none => simp [HasRoom, after]
  | some room =>
    simp only [HasRoom, after, Option.map_some, Option.some.injEq, forall_eq', List.length_append]
    omega

theorem hasRoom_collecting (count : Nat) : collecting.HasRoom count := nofun

/-- A sink accepts a diagnostic exactly when it has room for one. -/
theorem accept?_eq_some_iff {diagnostic : Diagnostic} {next : Sink} :
    sink.accept? diagnostic = some next ↔
      sink.HasRoom 1 ∧ next = sink.after [diagnostic] := by
  obtain ⟨room, received⟩ := sink
  match room with
  | none => simp [accept?, HasRoom, after, eq_comm]
  | some 0 => simp [accept?, HasRoom]
  | some (count + 1) => simp [accept?, HasRoom, after, eq_comm]

end Sink

/-! ## Reports that arrive -/

/-- **All of some reports arrive** in a sink: they lie within the text of the tree, and there
is room for them. -/
structure Tree.Delivers (tree : Tree) (sink : Sink) (reports : List Diagnostic) : Prop where
  /-- Every report lies within the text. -/
  within : ∀ diagnostic ∈ reports, tree.containsSpan diagnostic.span = true
  /-- The sink does not close before the last one. -/
  hasRoom : sink.HasRoom reports.length

namespace Tree

variable {tree : Tree} {sink : Sink} {reports more : List Diagnostic}

@[simp] theorem delivers_nil : tree.Delivers sink [] :=
  ⟨nofun, fun _ _ => Nat.zero_le _⟩

theorem delivers_append :
    tree.Delivers sink (reports ++ more) ↔
      tree.Delivers sink reports ∧ tree.Delivers (sink.after reports) more := by
  constructor
  · rintro ⟨hwithin, hroom⟩
    obtain ⟨hfirst, hrest⟩ := sink.hasRoom_append.mp hroom
    exact ⟨⟨fun d hd => hwithin d (List.mem_append_left _ hd), hfirst⟩,
      ⟨fun d hd => hwithin d (List.mem_append_right _ hd), hrest⟩⟩
  · rintro ⟨⟨hwithin, hroom⟩, hmore, hmoreRoom⟩
    refine ⟨fun d hd => ?_, sink.hasRoom_append.mpr ⟨hroom, hmoreRoom⟩⟩
    exact (List.mem_append.mp hd).elim (hwithin d) (hmore d)

/-- Whether all reports arrive does not depend on their order. -/
theorem delivers_perm (h : reports.Perm more) :
    tree.Delivers sink reports ↔ tree.Delivers sink more := by
  constructor
  · rintro ⟨hwithin, hroom⟩
    exact ⟨fun d hd => hwithin d (h.mem_iff.mpr hd), h.length_eq ▸ hroom⟩
  · rintro ⟨hwithin, hroom⟩
    exact ⟨fun d hd => hwithin d (h.mem_iff.mp hd), h.length_eq ▸ hroom⟩

/-- What arrives in a sink that takes only `count` reports. -/
theorem delivers_accepting_iff {count : Nat} :
    tree.Delivers (Sink.accepting count) reports ↔
      (∀ diagnostic ∈ reports, tree.containsSpan diagnostic.span = true) ∧
        reports.length ≤ count := by
  have hroom : (Sink.accepting count).HasRoom reports.length ↔ reports.length ≤ count := by
    simp [Sink.HasRoom, Sink.accepting]
  rw [← hroom]
  exact ⟨fun h => ⟨h.within, h.hasRoom⟩, fun h => ⟨h.1, h.2⟩⟩

/-- A single report arrives if its span lies within the text and the sink is open. -/
theorem report_eq_ok_iff {diagnostic : Diagnostic} {session after : Session} :
    tree.report diagnostic session = .ok () after ↔
      tree.Delivers session.sink [diagnostic] ∧
        after = { session with sink := session.sink.after [diagnostic] } := by
  have hdelivers : tree.Delivers session.sink [diagnostic] ↔
      tree.containsSpan diagnostic.span = true ∧ session.sink.HasRoom 1 :=
    ⟨fun h => ⟨h.within diagnostic (List.mem_singleton_self _), h.hasRoom⟩,
      fun h => ⟨by simpa using h.1, h.2⟩⟩
  rw [hdelivers, report]
  split
  · next hwithin =>
    cases haccept : session.sink.accept? diagnostic with
    | none =>
      have hclosed : ¬ session.sink.HasRoom 1 := fun hroom => by
        rw [(session.sink.accept?_eq_some_iff).mpr ⟨hroom, rfl⟩] at haccept
        cases haccept
      simp [hclosed]
    | some sink =>
      obtain ⟨hroom, rfl⟩ := (session.sink.accept?_eq_some_iff).mp haccept
      simp [hwithin, hroom, eq_comm]
  · next hwithin => simp [hwithin]

end Tree

/-- The session after some acts, all of which succeeded. -/
def Session.after (session : Session) (acts : List Act) : Session :=
  ⟨session.sink.after (Act.reports acts), session.visits ++ (Act.visits acts).toArray⟩

namespace Session

variable (session : Session) (acts more : List Act)

@[simp] theorem sink_after : (session.after acts).sink = session.sink.after (Act.reports acts) :=
  rfl

@[simp] theorem after_nil : session.after [] = session := by
  simp [after]

@[simp] theorem after_append : (session.after acts).after more = session.after (acts ++ more) := by
  simp [after, Array.append_assoc]

end Session

namespace Act

variable {tree : Tree} {session after : Session}

theorem perform_eq_ok_iff {act : Act} :
    act.perform tree session = .ok () after ↔
      tree.Delivers session.sink (reports [act]) ∧ after = session.after [act] := by
  cases act with
  | visit rule node =>
    simp [perform, Session.after, eq_comm]
  | report diagnostic =>
    rw [perform, Tree.report_eq_ok_iff]
    simp [Session.after]

/-- An act that fails has a report that does not arrive. -/
theorem not_delivers_of_perform {act : Act} {error : ReportError}
    (h : act.perform tree session = .error error after) :
    ¬ tree.Delivers session.sink (reports [act]) := fun hdelivers => by
  rw [perform_eq_ok_iff.mpr ⟨hdelivers, rfl⟩] at h
  cases h

/-- **Acts succeed exactly when all of their reports arrive**, and then the session has seen
all of them in order. -/
theorem performAll_eq_ok_iff {acts : List Act} :
    performAll tree acts session = .ok () after ↔
      tree.Delivers session.sink (reports acts) ∧ after = session.after acts := by
  induction acts generalizing session with
  | nil => simp [performAll, pure, EStateM.pure, eq_comm]
  | cons act rest ih =>
    have hsplit : tree.Delivers session.sink (reports (act :: rest)) ↔
        tree.Delivers session.sink (reports [act]) ∧
          tree.Delivers (session.after [act]).sink (reports rest) := by
      rw [Session.sink_after, ← Tree.delivers_append, ← reports_append, List.singleton_append]
    rw [hsplit, performAll]
    simp only [bind, EStateM.bind]
    cases hact : act.perform tree session with
    | ok _ middle =>
      obtain ⟨hfirst, rfl⟩ := perform_eq_ok_iff.mp hact
      simp [ih, hfirst]
    | error error middle => simp [not_delivers_of_perform hact]

/-- Acts that fail have a report that does not arrive. -/
theorem not_delivers_of_performAll {acts : List Act} {error : ReportError}
    (h : performAll tree acts session = .error error after) :
    ¬ tree.Delivers session.sink (reports acts) := fun hdelivers => by
  rw [performAll_eq_ok_iff.mpr ⟨hdelivers, rfl⟩] at h
  cases h

/-- What is to be done after some acts is done if their reports arrive. -/
theorem performAll_bind_eq_ok_iff {α : Type} {acts : List Act} {more : Unit → Reporting α}
    {result : α} :
    (performAll tree acts >>= more) session = .ok result after ↔
      tree.Delivers session.sink (reports acts) ∧
        more () (session.after acts) = .ok result after := by
  simp only [bind, EStateM.bind]
  cases hacts : performAll tree acts session with
  | ok _ last =>
    obtain ⟨hdelivers, rfl⟩ := performAll_eq_ok_iff.mp hacts
    simp [hdelivers]
  | error error last => simp [not_delivers_of_performAll hacts]

end Act

/-! ## Walks -/

namespace Rule

@[simp] theorem reports_acts (rule : Rule) (tree : Tree) (node : Node) :
    Act.reports (rule.acts tree node) = rule.findings tree node := by
  rw [acts, Act.reports_visit, Act.reports_map_report]

end Rule

namespace Table

variable (table : Table) (tree : Tree)

theorem checkAll_eq (node : Node) (rules : List Rule) :
    checkAll tree node rules = Act.performAll tree (rules.flatMap (·.acts tree node)) := by
  induction rules with
  | nil => rfl
  | cons rule rest ih =>
    rw [checkAll, ih, List.flatMap_cons, Act.performAll_append, Rule.check]

theorem dispatch_eq (node : Node) :
    table.dispatch tree node = do
      Act.performAll tree (table.acts tree node)
      return (table.rulesFor node.kind).length := by
  rw [dispatch, checkAll_eq, acts]

theorem visitAll_eq (nodes : List Node) :
    table.visitAll tree nodes = do
      Act.performAll tree (nodes.flatMap (table.acts tree))
      return table.efforts nodes := by
  induction nodes with
  | nil => rfl
  | cons node rest ih =>
    rw [visitAll, dispatch_eq, ih, List.flatMap_cons, Act.performAll_append]
    simp [efforts]

/-- **A walk performs its script.** -/
theorem walk_eq (node : Node) :
    table.walk tree node = do
      Act.performAll tree (table.script tree node)
      return table.effort node :=
  table.visitAll_eq tree node.descendants

/-- A walk succeeds exactly when all reports of its script arrive. -/
theorem walk_eq_ok_iff {node : Node} {session after : Session} {summary : Summary} :
    table.walk tree node session = .ok summary after ↔
      tree.Delivers session.sink (Act.reports (table.script tree node)) ∧
        summary = table.effort node ∧ after = session.after (table.script tree node) := by
  rw [walk_eq, Act.performAll_bind_eq_ok_iff]
  simp [pure, EStateM.pure, eq_comm]

/-- What the rules find at a node and below it, node by node. -/
def found (node : Node) : List Diagnostic :=
  node.preorder.flatMap fun visited =>
    (table.rulesFor visited.kind).flatMap (·.findings tree visited)

/-- All that the rules find in a tree lies within its text. -/
def FindsWithin : Prop :=
  ∀ diagnostic ∈ table.found tree tree.root, tree.containsSpan diagnostic.span = true

/-- **What a script reports is what the rules find.** -/
theorem reports_script (node : Node) :
    Act.reports (table.script tree node) = table.found tree node := by
  rw [script, Node.descendants_eq, Act.reports, List.filterMap_flatMap]
  congr 1
  funext visited
  rw [acts, List.filterMap_flatMap]
  congr 1
  funext rule
  exact rule.reports_acts tree visited

end Table

namespace Analyzer

variable {analyzer : Analyzer} {schedule : Schedule} {tree : Tree} {listed : List Diagnostic}

/-- A collecting run returns what its sink received, listed. -/
theorem collectScheduled_eq_ok_iff :
    analyzer.collectScheduled schedule tree = .ok listed ↔
      ∃ summary after, analyzer.runScheduled schedule tree (Session.start Sink.collecting) =
        .ok summary after ∧ after.sink.listing = listed := by
  unfold collectScheduled runInto
  cases analyzer.runScheduled schedule tree (Session.start Sink.collecting) <;> simp [and_assoc]

/-- A collecting run whose reports came in order returns them as they came. -/
theorem collectScheduled_of_received
    (hok : (analyzer.runInto schedule tree Sink.collecting).1.isOk = true)
    (hlisted : Diagnostic.listing
        (analyzer.runInto schedule tree Sink.collecting).2.sink.received.toList = listed) :
    analyzer.collectScheduled schedule tree = .ok listed := by
  unfold collectScheduled
  split
  · next hrun =>
    rw [hrun] at hlisted
    exact congrArg _ hlisted
  · next hrun =>
    rw [hrun] at hok
    cases hok

/-- A collecting run has room for all that is found. -/
theorem delivers_collecting_iff {table : Table} :
    tree.Delivers (Session.start Sink.collecting).sink (table.found tree tree.root) ↔
      table.FindsWithin tree :=
  ⟨fun h => h.within, fun h => ⟨h, Sink.hasRoom_collecting _⟩⟩

/-- What a collecting session lists after some acts. -/
theorem listing_after_collecting (acts : List Act) :
    ((Session.start Sink.collecting).after acts).sink.listing =
      Diagnostic.listing (Act.reports acts) := by
  rw [Sink.listing, Session.sink_after, Sink.received_after]
  rfl

/-- **What a sequential analysis collects**: all that the rules find, listed, if it lies
within the text. -/
theorem collect_sequential_iff (hmode : analyzer.mode = .sequential) :
    analyzer.collectScheduled schedule tree = .ok listed ↔
      analyzer.table.FindsWithin tree ∧
        Diagnostic.listing (analyzer.table.found tree tree.root) = listed := by
  rw [collectScheduled_eq_ok_iff, runScheduled, hmode, ← delivers_collecting_iff,
    ← Table.reports_script, ← listing_after_collecting]
  constructor
  · rintro ⟨summary, after, hwalk, rfl⟩
    obtain ⟨hdelivers, -, rfl⟩ := (analyzer.table.walk_eq_ok_iff tree).mp hwalk
    exact ⟨hdelivers, rfl⟩
  · rintro ⟨hdelivers, rfl⟩
    exact ⟨_, _, (analyzer.table.walk_eq_ok_iff tree).mpr ⟨hdelivers, rfl, rfl⟩, rfl⟩

end Analyzer
end SpacingLint
