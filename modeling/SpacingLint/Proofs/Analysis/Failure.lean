import SpacingLint.Proofs.Analysis.Duties

/-! # Where a run stops

A report fails if its span leaves the text, or else if the sink takes no more
(`Tree.refusal`).  Acts stop at the first report that fails: what was done before it stays done,
and nothing is done after it (`Act.of_performAll_eq_error`).

Here this is followed through a sequential run into a sink that takes only so many reports.
The acts of a run are the calls that are due, each a visit and then the reports of its rule, so
the report that fails is one of a certain call (`Duty.split_acts`).  The calls before that one
are made in full, it is the last one made, and the sink has what came before the report.
-/
namespace SpacingLint

namespace Tree

/-- Why a report about a tree does not arrive.  The span is looked at first. -/
def refusal (tree : Tree) (diagnostic : Diagnostic) : ReportError :=
  if tree.containsSpan diagnostic.span then .sinkClosed
  else .spanOutOfBounds diagnostic.span tree.length

/-- The first of some reports that is refused if only `count` are taken: it is `index` places
behind the first one. -/
structure FirstRefused (tree : Tree) (count : Nat) (reports : List Diagnostic) (index : Nat)
    (diagnostic : Diagnostic) : Prop where
  /-- Where the report is. -/
  getElem?_eq : reports[index]? = some diagnostic
  /-- It leaves the text, or no more are taken. -/
  refused : tree.containsSpan diagnostic.span = false ∨ index = count
  /-- No report before it is refused. -/
  first : ∀ earlier < index, ∀ other, reports[earlier]? = some other →
    tree.containsSpan other.span = true ∧ earlier ≠ count

variable {tree : Tree} {count : Nat} {reports : List Diagnostic}

/-- Only one report is the first that is refused. -/
theorem FirstRefused.unique {index index' : Nat} {diagnostic diagnostic' : Diagnostic}
    (h : tree.FirstRefused count reports index diagnostic)
    (h' : tree.FirstRefused count reports index' diagnostic') :
    index = index' ∧ diagnostic = diagnostic' := by
  have hindex : index = index' := by
    rcases Nat.lt_trichotomy index index' with hlt | heq | hgt
    · obtain ⟨hwithin, hcount⟩ := h'.first _ hlt _ h.getElem?_eq
      exact (h.refused.elim (fun hout => by simp [hwithin] at hout) hcount).elim
    · exact heq
    · obtain ⟨hwithin, hcount⟩ := h.first _ hgt _ h'.getElem?_eq
      exact (h'.refused.elim (fun hout => by simp [hwithin] at hout) hcount).elim
  subst hindex
  exact ⟨rfl, Option.some.inj (h.getElem?_eq.symm.trans h'.getElem?_eq)⟩

/-- A report that does not arrive behind those that do is the first one refused. -/
theorem firstRefused_of_not_delivers {before more : List Diagnostic} {diagnostic : Diagnostic}
    (hbefore : tree.Delivers (Sink.accepting count) before)
    (hnot : ¬ tree.Delivers ((Sink.accepting count).after before) [diagnostic]) :
    tree.FirstRefused count (before ++ diagnostic :: more) before.length diagnostic := by
  obtain ⟨hwithin, hcount⟩ := delivers_accepting_iff.mp hbefore
  refine ⟨by simp, ?_, fun earlier hearlier other hother => ?_⟩
  · -- It would arrive if it lay within the text and there were room for one more.
    by_contra hneither
    obtain ⟨hinside, hlength⟩ := not_or.mp hneither
    refine hnot ⟨fun other hother => ?_, fun room hroom => ?_⟩
    · rw [List.mem_singleton.mp hother]
      exact Bool.of_not_eq_false hinside
    · simp only [Sink.after, Sink.accepting, Option.map_some, Option.some.injEq] at hroom
      simp only [List.length_singleton]
      omega
  · rw [List.getElem?_append_left hearlier] at hother
    exact ⟨hwithin other (List.mem_of_getElem? hother), by omega⟩

/-- A report that fails does not arrive, and leaves the session as it was. -/
theorem of_report_eq_error {diagnostic : Diagnostic} {session after : Session}
    {error : ReportError} (h : tree.report diagnostic session = .error error after) :
    error = tree.refusal diagnostic ∧ after = session := by
  rw [report] at h
  rw [refusal]
  split at h
  · next hwithin =>
    rw [if_pos hwithin]
    split at h
    · cases h
    · cases h
      exact ⟨rfl, rfl⟩
  · next hwithin =>
    rw [if_neg hwithin]
    cases h
    exact ⟨rfl, rfl⟩

end Tree

namespace Act

variable {tree : Tree} {session after : Session} {error : ReportError}

/-- An act that fails is a report. -/
theorem of_perform_eq_error {act : Act} (h : act.perform tree session = .error error after) :
    ∃ diagnostic, act = .report diagnostic ∧ ¬ tree.Delivers session.sink [diagnostic] ∧
      error = tree.refusal diagnostic ∧ after = session := by
  cases act with
  | visit rule node => cases h
  | report diagnostic =>
    exact ⟨diagnostic, rfl, not_delivers_of_perform h, Tree.of_report_eq_error h⟩

/-- **Acts stop at the first report that fails**, with all done that comes before it and nothing
that comes after it. -/
theorem of_performAll_eq_error {acts : List Act}
    (h : performAll tree acts session = .error error after) :
    ∃ before diagnostic rest, acts = before ++ .report diagnostic :: rest ∧
      tree.Delivers session.sink (reports before) ∧
      ¬ tree.Delivers (session.sink.after (reports before)) [diagnostic] ∧
      error = tree.refusal diagnostic ∧ after = session.after before := by
  induction acts generalizing session with
  | nil => cases h
  | cons act rest ih =>
    rw [performAll] at h
    simp only [bind, EStateM.bind] at h
    cases hact : act.perform tree session with
    | error failure last =>
      obtain ⟨diagnostic, rfl, hnot, rfl, rfl⟩ := of_perform_eq_error hact
      obtain ⟨rfl, rfl⟩ : tree.refusal diagnostic = error ∧ last = after := by
        simpa [hact] using h
      exact ⟨[], diagnostic, rest, rfl, Tree.delivers_nil, by simpa using hnot, rfl, by simp⟩
    | ok _ middle =>
      obtain ⟨hdelivers, rfl⟩ := perform_eq_ok_iff.mp hact
      simp only [hact] at h
      obtain ⟨before, diagnostic, behind, rfl, hbefore, hnot, rfl, rfl⟩ := ih h
      have hreports : reports (act :: before) = reports [act] ++ reports before :=
        reports_append [act] before
      refine ⟨act :: before, diagnostic, behind, rfl, ?_, ?_, rfl, by simp⟩
      · rw [hreports, Tree.delivers_append]
        exact ⟨hdelivers, hbefore⟩
      · rw [hreports, ← Sink.after_append]
        exact hnot

end Act

namespace Duty

variable {tree : Tree} {duties : List Duty} {before rest : List Act} {diagnostic : Diagnostic}

/-- What is done when a rule has made some of its reports and all calls before are over. -/
def begun (tree : Tree) (done : List Duty) (duty : Duty) (said : List Diagnostic) : List Act :=
  done.flatMap (acts tree) ++ .visit duty.rule duty.node :: said.map .report

theorem reports_begun (done : List Duty) (duty : Duty) (said : List Diagnostic) :
    Act.reports (begun tree done duty said) = reports tree done ++ said := by
  rw [begun, Act.reports_append, reports_flatMap_acts, Act.reports_visit, Act.reports_map_report]

theorem visits_begun (done : List Duty) (duty : Duty) (said : List Diagnostic) :
    Act.visits (begun tree done duty said) = (done ++ [duty]).map visit := by
  rw [begun, Act.visits_append, visits_flatMap_acts, Act.visits_visit, Act.visits_map_report,
    List.map_append]
  rfl

/-- A report that comes up in a call is one that its rule makes, after the visit. -/
theorem split_acts_self {duty : Duty} (h : duty.acts tree = before ++ .report diagnostic :: rest) :
    ∃ said unsaid, duty.findings tree = said ++ diagnostic :: unsaid ∧
      before = begun tree [] duty said := by
  cases before with
  | nil => cases h
  | cons act before =>
    obtain ⟨rfl, htail⟩ := List.cons.inj h
    obtain ⟨said, behind, hsaid, rfl, hbehind⟩ := List.map_eq_append_iff.mp htail
    obtain ⟨diagnostic', unsaid, rfl, hsame, -⟩ := List.map_eq_cons_iff.mp hbehind
    obtain rfl := Act.report.inj hsame
    exact ⟨said, unsaid, hsaid, rfl⟩

/-- **A report that comes up in some calls** comes up in one of them, when those before it are
over. -/
theorem split_acts (h : duties.flatMap (acts tree) = before ++ .report diagnostic :: rest) :
    ∃ done duty later said unsaid, duties = done ++ duty :: later ∧
      duty.findings tree = said ++ diagnostic :: unsaid ∧ before = begun tree done duty said := by
  induction duties generalizing before with
  | nil => simp at h
  | cons duty later ih =>
    rw [List.flatMap_cons] at h
    rcases List.append_eq_append_iff.mp h with ⟨between, rfl, hlater⟩ | ⟨between, hacts, hbehind⟩
    · obtain ⟨done, caller, after, said, unsaid, rfl, hfindings, rfl⟩ := ih hlater
      refine ⟨duty :: done, caller, after, said, unsaid, rfl, hfindings, ?_⟩
      rw [begun, begun, List.flatMap_cons, List.append_assoc]
    · cases between with
      | nil =>
        -- No call begins with a report.
        obtain ⟨done, _, _, _, _, -, -, hnil⟩ := @ih [] hbehind.symm
        simp [begun] at hnil
      | cons act unsaid =>
        obtain ⟨rfl, -⟩ := List.cons.inj hbehind
        obtain ⟨said, unsaid, hfindings, rfl⟩ := split_acts_self hacts
        exact ⟨[], duty, later, said, unsaid, rfl, hfindings, rfl⟩

end Duty

namespace Analyzer

variable {rules : List Rule}

/-- A sequential run that fails stopped in its script. -/
theorem performAll_of_run_eq_error {table : Table} {tree : Tree} {sink : Sink}
    {error : AnalysisError} {session : Session}
    (h : (ofTable table).run tree sink = (.error error, session)) :
    ∃ failure, error = .report failure ∧
      Act.performAll tree (table.script tree tree.root) (Session.start sink) =
        .error failure session := by
  simp only [run, runInto, runScheduled, ofTable, Table.walk_eq, bind, EStateM.bind] at h
  cases hacts : Act.performAll tree (table.script tree tree.root) (Session.start sink) with
  | ok _ after => simp [hacts, pure, EStateM.pure] at h
  | error failure after =>
    simp only [hacts, Prod.mk.injEq, Except.error.injEq] at h
    exact ⟨failure, h.1.symm, by rw [h.2]⟩

/-- **Where a sequential run stops** if the sink takes only `count` reports.  It succeeds exactly
if all that the rules report lies within the text and there is room for it.  Otherwise one of
the reports is the first that is refused: the error is the one of that report, the sink has
exactly the reports before it, and the call that makes it is the last one. -/
theorem run_accepting (h : Rule.Identified rules) (tree : Tree) (count : Nat) :
    ((∃ summary session, (ofTable (Table.ofRules rules)).run tree (Sink.accepting count) =
        (.ok summary, session)) ↔
      (∀ diagnostic ∈ Duty.reports tree (Rule.duties rules tree),
          tree.containsSpan diagnostic.span = true) ∧
        (Duty.reports tree (Rule.duties rules tree)).length ≤ count) ∧
      ∀ error session, (ofTable (Table.ofRules rules)).run tree (Sink.accepting count) =
          (.error error, session) →
        ∃ index diagnostic,
          tree.FirstRefused count (Duty.reports tree (Rule.duties rules tree)) index diagnostic ∧
          error = .report (tree.refusal diagnostic) ∧
          session.sink.received.toList =
            (Duty.reports tree (Rule.duties rules tree)).take index ∧
          ∃ done duty later, Rule.duties rules tree = done ++ duty :: later ∧
            session.visits.toList = (done ++ [duty]).map Duty.visit ∧
            (Duty.reports tree done).length ≤ index ∧
            index < (Duty.reports tree (done ++ [duty])).length := by
  refine ⟨?_, fun error session hrun => ?_⟩
  · rw [← Tree.delivers_accepting_iff, ← Table.found_ofRules h]
    exact exists_runInto_eq_ok_iff
  obtain ⟨failure, rfl, hacts⟩ := performAll_of_run_eq_error hrun
  rw [Table.script_ofRules h] at hacts
  obtain ⟨before, diagnostic, rest, hsplit, hbefore, hnot, rfl, rfl⟩ :=
    Act.of_performAll_eq_error hacts
  obtain ⟨done, duty, later, said, unsaid, hduties, hfindings, rfl⟩ := Duty.split_acts hsplit
  rw [Duty.reports_begun] at hbefore hnot
  have hall : Duty.reports tree (Rule.duties rules tree) =
      (Duty.reports tree done ++ said) ++ diagnostic :: (unsaid ++ Duty.reports tree later) := by
    simp [hduties, hfindings]
  refine ⟨_, diagnostic, hall ▸ Tree.firstRefused_of_not_delivers hbefore hnot, rfl, ?_,
    done, duty, later, hduties, ?_, ?_, ?_⟩
  · rw [hall, List.take_left, Session.sink_after, Duty.reports_begun, Sink.received_after]
    rfl
  · simp [Session.after, Session.start, Duty.visits_begun]
  · simp
  · simp [hfindings]

/-- A rule that makes three reports at a block, the second one about more text than there may
be. -/
def overreaching : Rule where
  handle := 0
  descriptor := IfSpacing.descriptor
  kinds := [.block]
  findings := fun _ node =>
    [node.span, Span.upTo 9, node.span].map (Diagnostic.ofMessage IfSpacing.descriptor · "seen")

/-- A report that is refused for two reasons: the sink has taken its only one, but what counts
is that the span leaves the text.  The second block is not looked at. -/
theorem run_accepting_overreaching : ∃ tree session, Tree.ofCalls blocks = .ok tree ∧
    (ofTable (Table.ofRules [overreaching])).run tree (Sink.accepting 1) =
      (.error (.report (.spanOutOfBounds (Span.upTo 9) 4)), session) ∧
    session.sink.received.toList.map (·.span) = [Span.upTo 2] ∧ session.visits.size = 1 := by
  have h : Rule.Identified [overreaching] := by
    intro rule hrule other hother _
    rw [List.mem_singleton.mp hrule, List.mem_singleton.mp hother]
  have hfacts : (Tree.ofCalls blocks).toOption.map (fun tree =>
      decide ((Duty.reports tree (Rule.duties [overreaching] tree)).map (·.span) =
          [Span.upTo 2, Span.upTo 9, Span.upTo 2, Span.ofSize 2 2, Span.upTo 9, Span.ofSize 2 2] ∧
        tree.containsSpan (Span.upTo 2) = true ∧ tree.containsSpan (Span.upTo 9) = false ∧
        tree.length = 4 ∧
        ∀ duty ∈ Rule.duties [overreaching] tree, (duty.findings tree).length = 3)) =
      some true := by
    decide +kernel
  obtain ⟨tree, htree, hall⟩ := Option.map_eq_some_iff.mp hfacts
  obtain ⟨hspans, hinside, houtside, hlength, hthree⟩ := of_decide_eq_true hall
  obtain ⟨first, _, hreports, hfirst, hrest⟩ := List.map_eq_cons_iff.mp hspans
  obtain ⟨second, more, rfl, hsecond, -⟩ := List.map_eq_cons_iff.mp hrest
  obtain ⟨hsucceeds, hfails⟩ := run_accepting h tree 1
  rw [hreports] at hsucceeds hfails
  have hrefused : tree.FirstRefused 1 (first :: second :: more) 1 second := by
    refine ⟨rfl, .inl (hsecond ▸ houtside), fun earlier hearlier other hother => ?_⟩
    obtain rfl : earlier = 0 := by omega
    cases hother
    exact ⟨hfirst ▸ hinside, by decide⟩
  rcases hrun : (ofTable (Table.ofRules [overreaching])).run tree (Sink.accepting 1) with
    ⟨error | summary, session⟩
  case ok =>
    have hsecondInside := (hsucceeds.mp ⟨_, _, hrun⟩).1 second (by simp)
    rw [hsecond, houtside] at hsecondInside
    cases hsecondInside
  obtain ⟨index, diagnostic, hindex, rfl, hreceived, done, duty, later, hduties, hvisits,
    hdone, -⟩ := hfails error session hrun
  obtain ⟨rfl, rfl⟩ := hrefused.unique hindex
  have hnone : done = [] := by
    cases done with
    | nil => rfl
    | cons caller done =>
      rw [Duty.reports_cons, List.length_append, hthree caller (by simp [hduties])] at hdone
      omega
  refine ⟨tree, session, eq_ok_of_toOption htree, ?_, ?_, ?_⟩
  · rw [hrun, Tree.refusal, hsecond, houtside, hlength]
    rfl
  · rw [hreceived, List.take_one, List.head?_cons]
    exact congrArg (fun span => [span]) hfirst
  · rw [← Array.length_toList, hvisits, hnone]
    rfl

end Analyzer
end SpacingLint
