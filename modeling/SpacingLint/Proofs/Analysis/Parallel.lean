import SpacingLint.Proofs.Analysis.Interleaving
import SpacingLint.Proofs.Analysis.Run

/-! # Threads perform an interleaving

A schedule names the thread whose turn it is, act by act.  As long as no thread fails, what
the threads have done together is one list of acts, an interleaving of their scripts
(`Thread.runAll_eq_after`), and every interleaving is what some schedule does
(`Thread.exists_schedule`).

Whether a thread fails does not depend on the schedule.  All threads succeed exactly when
all of their reports arrive (`Thread.firstFailure_runAll`), which is a matter of how many
there are and where they lie, not of their order.  A parallel walk and a sequential one make
the same reports (`Table.Merges.perm_found`), so they succeed on the same trees and sinks,
with the same counts and the same diagnostics.
-/
namespace SpacingLint

namespace Thread

variable (tree : Tree)

theorem firstFailure_eq_none_iff {threads : List Thread} :
    firstFailure threads = none ↔ ∀ thread ∈ threads, thread.failure = none :=
  List.findSome?_eq_none_iff

@[simp] theorem firstFailure_nil : firstFailure [] = none := rfl

@[simp] theorem firstFailure_append {threads more : List Thread} :
    firstFailure (threads ++ more) = none ↔
      firstFailure threads = none ∧ firstFailure more = none := by
  simp only [firstFailure_eq_none_iff, List.forall_mem_append]

@[simp] theorem firstFailure_cons {thread : Thread} {rest : List Thread} :
    firstFailure (thread :: rest) = none ↔
      thread.failure = none ∧ firstFailure rest = none := by
  simp only [firstFailure_eq_none_iff, List.forall_mem_cons]

/-- What some threads have left to report. -/
def dues (threads : List Thread) : List Diagnostic :=
  Act.reports (threads.flatMap pending)

/-! ## Turns -/

/-- **A turn of a thread**: nothing is left to do, the next act succeeds, or it fails and the
thread gives up. -/
theorem step_cases (thread : Thread) (session : Session) :
    (thread.pending = [] ∧ thread.step tree session = (thread, session)) ∨
      (∃ act rest, thread.pending = act :: rest ∧
        tree.Delivers session.sink (Act.reports [act]) ∧
        thread.step tree session = (⟨rest, thread.failure⟩, session.after [act])) ∨
      ∃ act rest error after, thread.pending = act :: rest ∧
        ¬ tree.Delivers session.sink (Act.reports [act]) ∧
        thread.step tree session = (⟨[], some error⟩, after) := by
  unfold step
  cases thread.pending with
  | nil => exact .inl ⟨rfl, rfl⟩
  | cons act rest =>
    refine .inr ?_
    cases hact : act.perform tree session with
    | ok _ after =>
      obtain ⟨hdelivers, rfl⟩ := Act.perform_eq_ok_iff.mp hact
      exact .inl ⟨act, rest, rfl, hdelivers, by simp only [hact]⟩
    | error error after =>
      exact .inr ⟨act, rest, error, after, rfl, Act.not_delivers_of_perform hact,
        by simp only [hact]⟩

/-- All the turns of a thread in a row succeed, or it gives up. -/
theorem drain_cases (thread : Thread) (session : Session) :
    (tree.Delivers session.sink (Act.reports thread.pending) ∧
        thread.drain tree session = (⟨[], thread.failure⟩, session.after thread.pending)) ∨
      ∃ error after, ¬ tree.Delivers session.sink (Act.reports thread.pending) ∧
        thread.drain tree session = (⟨[], some error⟩, after) := by
  unfold drain
  cases hacts : Act.performAll tree thread.pending session with
  | ok _ after =>
    obtain ⟨hdelivers, rfl⟩ := Act.performAll_eq_ok_iff.mp hacts
    exact .inl ⟨hdelivers, rfl⟩
  | error error after =>
    exact .inr ⟨error, after, Act.not_delivers_of_performAll hacts, rfl⟩

theorem stepAt_append (before : List Thread) (thread : Thread) (after : List Thread)
    (session : Session) :
    stepAt tree before.length (before ++ thread :: after) session =
      (before ++ (thread.step tree session).1 :: after, (thread.step tree session).2) := by
  induction before with
  | nil => rfl
  | cons first before ih => simp [stepAt, ih]

theorem stepAt_of_length_le {place : Nat} {threads : List Thread} (h : threads.length ≤ place)
    (session : Session) : stepAt tree place threads session = (threads, session) := by
  induction threads generalizing place with
  | nil => cases place <;> rfl
  | cons first rest ih =>
    cases place with
    | zero => cases h
    | succ place => rw [stepAt, ih (Nat.le_of_succ_le_succ h)]

/-- **A turn of a schedule**: nothing happens, the next act of one thread succeeds, or it
fails and that thread gives up. -/
theorem stepAt_cases (place : Nat) (threads : List Thread) (session : Session) :
    stepAt tree place threads session = (threads, session) ∨
      (∃ before act rest failure after, threads = before ++ ⟨act :: rest, failure⟩ :: after ∧
        tree.Delivers session.sink (Act.reports [act]) ∧
        stepAt tree place threads session =
          (before ++ ⟨rest, failure⟩ :: after, session.after [act])) ∨
      ∃ before act rest failure after error last,
        threads = before ++ ⟨act :: rest, failure⟩ :: after ∧
        ¬ tree.Delivers session.sink (Act.reports [act]) ∧
        stepAt tree place threads session = (before ++ ⟨[], some error⟩ :: after, last) := by
  rcases Nat.lt_or_ge place threads.length with hlt | hge
  · obtain ⟨before, thread, after, rfl, rfl⟩ :
        ∃ before thread after, threads = before ++ thread :: after ∧ before.length = place :=
      ⟨threads.take place, threads[place], threads.drop (place + 1),
        by rw [← List.drop_eq_getElem_cons hlt, List.take_append_drop],
        List.length_take_of_le (Nat.le_of_lt hlt)⟩
    rw [stepAt_append]
    obtain ⟨pending, failure⟩ := thread
    rcases step_cases tree ⟨pending, failure⟩ session with
      ⟨-, hstep⟩ | ⟨act, rest, rfl, hdelivers, hstep⟩ | ⟨act, rest, error, last, rfl, hfails, hstep⟩
    · exact .inl (by rw [hstep])
    · exact .inr (.inl ⟨before, act, rest, failure, after, rfl, hdelivers, by rw [hstep]⟩)
    · exact .inr (.inr
        ⟨before, act, rest, failure, after, error, last, rfl, hfails, by rw [hstep]⟩)
  · exact .inl (stepAt_of_length_le tree hge session)

/-! ## Runs -/

/-- The next act may be looked at first. -/
theorem dues_turn (before : List Thread) (act : Act) (rest : List Act)
    (failure : Option ReportError) (after : List Thread) :
    (dues (before ++ ⟨act :: rest, failure⟩ :: after)).Perm
      (Act.reports [act] ++ dues (before ++ ⟨rest, failure⟩ :: after)) := by
  rw [dues, dues, ← Act.reports_append]
  refine List.Perm.filterMap _ ?_
  simp only [List.flatMap_append, List.flatMap_cons, List.cons_append, List.nil_append]
  exact List.perm_middle

/-- Threads that run one after the other all succeed exactly when all reports arrive. -/
theorem firstFailure_drainAll (threads : List Thread) (session : Session) :
    firstFailure (drainAll tree threads session).1 = none ↔
      firstFailure threads = none ∧ tree.Delivers session.sink (dues threads) := by
  induction threads generalizing session with
  | nil => simp [drainAll, dues]
  | cons thread rest ih =>
    have hdues : dues (thread :: rest) = Act.reports thread.pending ++ dues rest := by
      simp [dues]
    rw [hdues, Tree.delivers_append, drainAll]
    rcases drain_cases tree thread session with
      ⟨hdelivers, hdrain⟩ | ⟨error, after, hfails, hdrain⟩
    · simp only [hdrain, firstFailure_cons, ih, Session.sink_after]
      tauto
    · simp [hdrain, hfails]

/-- **Whether some thread fails does not depend on the schedule**: all of them succeed exactly
when all reports arrive. -/
theorem firstFailure_runAll (schedule : Schedule) (threads : List Thread) (session : Session) :
    firstFailure (runAll tree schedule threads session).1 = none ↔
      firstFailure threads = none ∧ tree.Delivers session.sink (dues threads) := by
  induction schedule generalizing threads session with
  | nil => exact firstFailure_drainAll tree threads session
  | cons place later ih =>
    rw [runAll]
    rcases stepAt_cases tree place threads session with
      hstep | ⟨before, act, rest, failure, after, rfl, hdelivers, hstep⟩ |
      ⟨before, act, rest, failure, after, error, last, rfl, hfails, hstep⟩
    · simp only [hstep, ih]
    · simp only [hstep, ih, Tree.delivers_perm (dues_turn before act rest failure after),
        Tree.delivers_append, Session.sink_after, firstFailure_append, firstFailure_cons]
      tauto
    · simp only [hstep, ih, Tree.delivers_perm (dues_turn before act rest failure after),
        Tree.delivers_append, firstFailure_append, firstFailure_cons]
      simp [hfails]

variable {tree}

theorem drainAll_eq_after {threads : List Thread} {session : Session}
    (h : firstFailure (drainAll tree threads session).1 = none) :
    (drainAll tree threads session).2 = session.after (threads.flatMap pending) := by
  induction threads generalizing session with
  | nil => simp [drainAll]
  | cons thread rest ih =>
    rw [drainAll] at h ⊢
    rcases drain_cases tree thread session with
      ⟨hdelivers, hdrain⟩ | ⟨error, after, hfails, hdrain⟩
    · simp only [hdrain, firstFailure_cons] at h ⊢
      rw [ih h.2, Session.after_append, List.flatMap_cons]
    · simp [hdrain] at h

/-- **Threads that succeed perform an interleaving** of what they had to do. -/
theorem runAll_eq_after {schedule : Schedule} {threads : List Thread} {session : Session}
    (h : firstFailure (runAll tree schedule threads session).1 = none) :
    ∃ merged, Interleaving (threads.map pending) merged ∧
      (runAll tree schedule threads session).2 = session.after merged := by
  induction schedule generalizing threads session with
  | nil => exact ⟨_, Interleaving.flatten _, by rw [runAll, drainAll_eq_after h]; rfl⟩
  | cons place later ih =>
    rw [runAll] at h ⊢
    rcases stepAt_cases tree place threads session with
      hstep | ⟨before, act, rest, failure, after, rfl, hdelivers, hstep⟩ |
      ⟨before, act, rest, failure, after, error, last, rfl, hfails, hstep⟩
    · simp only [hstep] at h ⊢
      exact ih h
    · simp only [hstep] at h ⊢
      obtain ⟨merged, hmerged, hsession⟩ := ih h
      rw [List.map_append, List.map_cons] at hmerged ⊢
      exact ⟨act :: merged, .turn hmerged, by rw [hsession, Session.after_append]; rfl⟩
    · -- A thread that gave up does not recover.
      simp only [hstep] at h
      simpa using (firstFailure_runAll tree later _ last).mp h

/-- **Every interleaving is what some schedule does**, if all reports arrive. -/
theorem exists_schedule {threads : List Thread} {merged : List Act} {session : Session}
    (h : Interleaving (threads.map pending) merged) (hfresh : firstFailure threads = none)
    (hdelivers : tree.Delivers session.sink (Act.reports merged)) :
    ∃ schedule, firstFailure (runAll tree schedule threads session).1 = none ∧
      (runAll tree schedule threads session).2 = session.after merged := by
  generalize hscripts : threads.map pending = scripts at h
  induction h generalizing threads session with
  | done hnil =>
    have hempty : threads.flatMap pending = [] := by
      rw [List.flatMap_def, hscripts, List.flatten_eq_nil_iff]
      exact hnil
    have hnone : firstFailure (drainAll tree threads session).1 = none :=
      (firstFailure_drainAll tree threads session).mpr ⟨hfresh, by simp [dues, hempty]⟩
    exact ⟨[], hnone, by rw [runAll, drainAll_eq_after hnone, hempty]⟩
  | @turn scriptsBefore scriptsAfter act rest merged _ ih =>
    obtain ⟨before, more, rfl, rfl, hmore⟩ := List.map_eq_append_iff.mp hscripts
    obtain ⟨⟨pending, failure⟩, after, rfl, hpending, rfl⟩ := List.map_eq_cons_iff.mp hmore
    obtain rfl : pending = act :: rest := hpending
    rw [← List.singleton_append, Act.reports_append, Tree.delivers_append] at hdelivers
    obtain ⟨hact, hmerged⟩ := hdelivers
    have hstep : step tree ⟨act :: rest, failure⟩ session =
        (⟨rest, failure⟩, session.after [act]) := by
      simp only [step, Act.perform_eq_ok_iff.mpr ⟨hact, rfl⟩]
    obtain ⟨later, hnone, hlater⟩ := @ih (before ++ ⟨rest, failure⟩ :: after) (session.after [act])
      (by simpa using hfresh) hmerged (by simp)
    refine ⟨before.length :: later, ?_, ?_⟩
    · rw [runAll, stepAt_append, hstep]
      exact hnone
    · rw [runAll, stepAt_append, hstep]
      exact hlater.trans (session.after_append [act] merged)

end Thread

/-! ## Parallel walks -/

namespace Summary

theorem ext_counts {a b : Summary} (hnodes : a.nodesVisited = b.nodesVisited)
    (hrules : a.ruleInvocations = b.ruleInvocations) : a = b := by
  obtain ⟨_, _⟩ := a
  obtain ⟨_, _⟩ := b
  exact congr (congrArg Summary.mk hnodes) hrules

end Summary

namespace Table

variable (table : Table) (tree : Tree)

theorem efforts_append (nodes more : List Node) :
    table.efforts (nodes ++ more) = table.efforts nodes + table.efforts more := by
  induction nodes with
  | nil => exact Summary.ext_counts (Nat.zero_add _).symm (Nat.zero_add _).symm
  | cons node rest ih =>
    rw [List.cons_append, efforts, efforts, ih]
    exact Summary.ext_counts (Nat.add_assoc ..).symm (Nat.add_assoc ..).symm

theorem efforts_preorders (subtrees : List Node) :
    table.efforts (subtrees.flatMap Node.preorder) =
      Summary.total (subtrees.map table.effort) := by
  induction subtrees with
  | nil => rfl
  | cons subtree rest ih =>
    rw [List.flatMap_cons, efforts_append, ih, List.map_cons, Summary.total, effort,
      Node.descendants_eq]

/-- What a walk counts is what is counted at its node and in each subtree. -/
theorem effort_eq (node : Node) :
    table.effort node =
      ⟨1, (table.rulesFor node.kind).length⟩ +
        Summary.total (node.childNodes.map table.effort) := by
  rw [effort, Node.descendants_eq, Node.preorder_eq, efforts, efforts_preorders]

/-- What is done in a walk is what is done at its node and in each subtree. -/
theorem script_eq (node : Node) :
    table.script tree node =
      table.acts tree node ++ (node.childNodes.map (table.script tree)).flatten := by
  rw [script, Node.descendants_eq, Node.preorder_eq, List.flatMap_cons, List.flatMap_assoc,
    ← List.flatMap_def]
  congr 2
  funext subtree
  rw [script, Node.descendants_eq]

/-- The threads of a parallel walk: one for each subtree below the root. -/
def threads : List Thread :=
  tree.root.childNodes.map fun subtree => Thread.ofActs (table.script tree subtree)

theorem pending_threads :
    (table.threads tree).map Thread.pending = tree.root.childNodes.map (table.script tree) := by
  rw [threads, List.map_map]
  rfl

theorem firstFailure_threads : Thread.firstFailure (table.threads tree) = none := by
  rw [Thread.firstFailure_eq_none_iff]
  intro thread hthread
  obtain ⟨_, _, rfl⟩ := List.mem_map.mp hthread
  rfl

/-- What is done at the root, and then an interleaving of what is done below it. -/
def Merges (acts : List Act) : Prop :=
  ∃ merged, Interleaving (tree.root.childNodes.map (table.script tree)) merged ∧
    acts = table.acts tree tree.root ++ merged

variable {table tree}

/-- All interleavings do the same, in different orders. -/
theorem Merges.perm_script {acts : List Act} (h : table.Merges tree acts) :
    acts.Perm (table.script tree tree.root) := by
  obtain ⟨merged, hmerged, rfl⟩ := h
  rw [script_eq]
  exact hmerged.perm.append_left _

/-- All interleavings make the same reports, in different orders. -/
theorem Merges.perm_found {acts : List Act} (h : table.Merges tree acts) :
    (Act.reports acts).Perm (table.found tree tree.root) := by
  rw [← reports_script]
  exact h.perm_script.filterMap _

variable {schedule : Schedule} {session after : Session} {summary : Summary}

/-- A parallel walk performs what is due at the root and then runs the threads below it. -/
theorem walkParallel_eq :
    table.walkParallel schedule tree = do
      Act.performAll tree (table.acts tree tree.root)
      let threads ← modifyGet (Thread.runAll tree schedule (table.threads tree))
      match Thread.firstFailure threads with
      | some error => throw error
      | none => return table.effort tree.root := by
  rw [walkParallel, dispatch_eq, effort_eq, bind_assoc]
  rfl

theorem walkParallel_eq_ok_iff :
    table.walkParallel schedule tree session = .ok summary after ↔
      tree.Delivers session.sink (Act.reports (table.acts tree tree.root)) ∧
        Thread.firstFailure (Thread.runAll tree schedule (table.threads tree)
          (session.after (table.acts tree tree.root))).1 = none ∧
        summary = table.effort tree.root ∧
        after = (Thread.runAll tree schedule (table.threads tree)
          (session.after (table.acts tree tree.root))).2 := by
  rw [walkParallel_eq, Act.performAll_bind_eq_ok_iff]
  refine and_congr_right fun _ => ?_
  generalize session.after (table.acts tree tree.root) = middle
  show (match Thread.firstFailure (Thread.runAll tree schedule (table.threads tree) middle).1 with
    | some error => (throw error : Reporting Summary)
    | none => return table.effort tree.root)
      (Thread.runAll tree schedule (table.threads tree) middle).2 = .ok summary after ↔ _
  cases Thread.firstFailure (Thread.runAll tree schedule (table.threads tree) middle).1 with
  | some error =>
    refine iff_of_false (fun h => ?_) (fun h => ?_)
    · cases h
    · cases h.1
  | none => simp [pure, EStateM.pure, eq_comm]

theorem dues_threads :
    Thread.dues (table.threads tree) =
      Act.reports (tree.root.childNodes.map (table.script tree)).flatten := by
  rw [Thread.dues, List.flatMap_def, pending_threads]

/-- All that the rules find arrives if it does at the root and then below it. -/
theorem delivers_found_iff {sink : Sink} :
    tree.Delivers sink (table.found tree tree.root) ↔
      tree.Delivers sink (Act.reports (table.acts tree tree.root)) ∧
        tree.Delivers (sink.after (Act.reports (table.acts tree tree.root)))
          (Thread.dues (table.threads tree)) := by
  rw [← reports_script, script_eq, Act.reports_append, Tree.delivers_append, dues_threads]

/-- **A parallel walk that succeeds performs an interleaving**, all of whose reports
arrive. -/
theorem exists_merges_of_walkParallel
    (h : table.walkParallel schedule tree session = .ok summary after) :
    tree.Delivers session.sink (table.found tree tree.root) ∧ summary = table.effort tree.root ∧
      ∃ acts, table.Merges tree acts ∧ after = session.after acts := by
  obtain ⟨hroot, hthreads, rfl, rfl⟩ := walkParallel_eq_ok_iff.mp h
  have hdues := ((Thread.firstFailure_runAll tree schedule _ _).mp hthreads).2
  obtain ⟨merged, hmerged, hafter⟩ := Thread.runAll_eq_after hthreads
  rw [pending_threads] at hmerged
  refine ⟨delivers_found_iff.mpr ⟨hroot, hdues⟩, rfl, _, ⟨merged, hmerged, rfl⟩, ?_⟩
  rw [hafter, Session.after_append]

/-- **Under every schedule a parallel walk succeeds** if all reports arrive. -/
theorem exists_walkParallel_eq_ok (schedule : Schedule)
    (h : tree.Delivers session.sink (table.found tree tree.root)) :
    ∃ summary after, table.walkParallel schedule tree session = .ok summary after := by
  obtain ⟨hroot, hdues⟩ := delivers_found_iff.mp h
  have hthreads := (Thread.firstFailure_runAll tree schedule (table.threads tree)
    (session.after (table.acts tree tree.root))).mpr ⟨table.firstFailure_threads tree, hdues⟩
  exact ⟨_, _, walkParallel_eq_ok_iff.mpr ⟨hroot, hthreads, rfl, rfl⟩⟩

/-- **Every interleaving is what a parallel walk does under some schedule**, if all reports
arrive. -/
theorem exists_walkParallel_of_merges {acts : List Act} (h : table.Merges tree acts)
    (hdelivers : tree.Delivers session.sink (table.found tree tree.root)) :
    ∃ schedule, table.walkParallel schedule tree session =
      .ok (table.effort tree.root) (session.after acts) := by
  rw [← Tree.delivers_perm h.perm_found] at hdelivers
  obtain ⟨merged, hmerged, rfl⟩ := h
  rw [Act.reports_append, Tree.delivers_append] at hdelivers
  obtain ⟨hroot, hbelow⟩ := hdelivers
  rw [← Session.sink_after] at hbelow
  rw [← pending_threads] at hmerged
  obtain ⟨schedule, hthreads, hafter⟩ :=
    Thread.exists_schedule hmerged (table.firstFailure_threads tree) hbelow
  refine ⟨schedule, walkParallel_eq_ok_iff.mpr ⟨hroot, hthreads, rfl, ?_⟩⟩
  rw [hafter, Session.after_append]

end Table

/-! ## Two ways to run -/

namespace Analyzer

/-- What two runs have in common, whatever the order of their reports: both fail, or both
succeed with the same counts, and their sinks received the same diagnostics. -/
inductive Agree :
    Except AnalysisError Summary × Session → Except AnalysisError Summary × Session → Prop
  /-- Both fail, perhaps for different reasons and after different reports. -/
  | failed (error other : AnalysisError) (seen seenToo : Session) :
    Agree (.error error, seen) (.error other, seenToo)
  /-- Both succeed. -/
  | passed (summary : Summary) (seen seenToo : Session)
    (h : seen.sink.received.toList.Perm seenToo.sink.received.toList) :
    Agree (.ok summary, seen) (.ok summary, seenToo)

/-- **Parallel and sequential runs agree**, on every tree, with every sink and under every
schedule. -/
theorem runInto_parallel_agrees (table : Table) (tree : Tree) (sink : Sink)
    (schedule other : Schedule) :
    Agree (((ofTable table).withMode .parallel).runInto schedule tree sink)
      ((ofTable table).runInto other tree sink) := by
  unfold runInto runScheduled
  simp only [ofTable, withMode]
  cases hparallel : table.walkParallel schedule tree (Session.start sink) with
  | ok summary after =>
    obtain ⟨hdelivers, rfl, acts, hmerges, rfl⟩ := Table.exists_merges_of_walkParallel hparallel
    have hwalk := (table.walk_eq_ok_iff tree).mpr
      ⟨(table.reports_script tree tree.root).symm ▸ hdelivers, rfl, rfl⟩
    rw [hwalk]
    refine .passed _ _ _ ?_
    simp only [Session.sink_after, Sink.received_after, Table.reports_script]
    exact hmerges.perm_found.append_left _
  | error error after =>
    cases hwalk : table.walk tree tree.root (Session.start sink) with
    | error => exact .failed ..
    | ok summary last =>
      have hdelivers := ((table.walk_eq_ok_iff tree).mp hwalk).1
      rw [Table.reports_script] at hdelivers
      obtain ⟨_, _, hok⟩ := Table.exists_walkParallel_eq_ok schedule hdelivers
      rw [hok] at hparallel
      cases hparallel

end Analyzer
end SpacingLint
