import SpacingLint.Proofs.Analysis.Determinism
import SpacingLint.Proofs.Lint.Registration

/-! # Who is called for what

A run calls rules for nodes.  Which calls are due is a matter of the registrations and of the
tree: node by node, each before what is below it, and at a node every rule that came in and
declared its kind, in the order of registration (`Rule.duties`).  A rule that declared a kind
twice, or that was registered twice, is due once.

The script of a table of registered rules consists of these calls (`Table.script_ofRules`).  A
run in which no report fails makes each of them, in either mode and under every schedule, and
counts as many nodes as the tree has and as many calls as it made.
-/
namespace SpacingLint

/-- A call that is due: a rule is to look at a node. -/
structure Duty where
  /-- The rule. -/
  rule : Rule
  /-- The node. -/
  node : Node

namespace Duty

/-- What is done for it. -/
def acts (tree : Tree) (duty : Duty) : List Act := duty.rule.acts tree duty.node

/-- What the rule reports if nothing fails. -/
def findings (tree : Tree) (duty : Duty) : List Diagnostic := duty.rule.findings tree duty.node

/-- The visit of the rule to the node. -/
def visit (duty : Duty) : Visit := ⟨duty.rule.handle, duty.node⟩

variable (tree : Tree) (duties more : List Duty)

/-- What is reported for some duties if nothing fails, in order. -/
def reports : List Diagnostic := duties.flatMap (findings tree)

@[simp] theorem reports_nil : reports tree [] = [] := rfl

@[simp] theorem reports_cons (duty : Duty) :
    reports tree (duty :: duties) = duty.findings tree ++ reports tree duties :=
  List.flatMap_cons

@[simp] theorem reports_append :
    reports tree (duties ++ more) = reports tree duties ++ reports tree more :=
  List.flatMap_append

theorem reports_acts (duty : Duty) : Act.reports (duty.acts tree) = duty.findings tree :=
  duty.rule.reports_acts tree duty.node

theorem visits_acts (duty : Duty) : Act.visits (duty.acts tree) = [duty.visit] := by
  rw [acts, Rule.acts, Act.visits_visit, Act.visits_map_report]
  rfl

theorem reports_flatMap_acts : Act.reports (duties.flatMap (acts tree)) = reports tree duties := by
  induction duties with
  | nil => rfl
  | cons duty rest ih =>
    rw [List.flatMap_cons, Act.reports_append, reports_acts, ih, reports_cons]

theorem visits_flatMap_acts : Act.visits (duties.flatMap (acts tree)) = duties.map visit := by
  induction duties with
  | nil => rfl
  | cons duty rest ih =>
    rw [List.flatMap_cons, Act.visits_append, visits_acts, ih, List.map_cons]
    rfl

end Duty

namespace Rule

/-- The calls that are due at a node after some registrations. -/
def dutiesAt (rules : List Rule) (node : Node) : List Duty :=
  ((newcomers [] rules).filter (node.kind ∈ ·.kinds)).map (⟨·, node⟩)

/-- The calls that are due in a tree after some registrations. -/
def duties (rules : List Rule) (tree : Tree) : List Duty :=
  tree.root.preorder.flatMap (dutiesAt rules)

end Rule

/-! ## Scripts of registered rules -/

namespace Table

variable {rules : List Rule}

theorem rulesFor_ofRules (h : Rule.Identified rules) (kind : Kind) :
    (ofRules rules).rulesFor kind = (Rule.newcomers [] rules).filter (kind ∈ ·.kinds) := by
  rw [(kept_ofRules h).rulesFor_eq, rules_ofRules]

theorem acts_ofRules (h : Rule.Identified rules) (tree : Tree) (node : Node) :
    (ofRules rules).acts tree node = (Rule.dutiesAt rules node).flatMap (Duty.acts tree) := by
  rw [acts, rulesFor_ofRules h, Rule.dutiesAt, List.flatMap_map]
  rfl

/-- **A script is what is due**, call by call. -/
theorem script_ofRules (h : Rule.Identified rules) (tree : Tree) :
    (ofRules rules).script tree tree.root = (Rule.duties rules tree).flatMap (Duty.acts tree) := by
  rw [script, Node.descendants_eq, Rule.duties, List.flatMap_assoc]
  congr 1
  funext node
  exact acts_ofRules h tree node

theorem found_ofRules (h : Rule.Identified rules) (tree : Tree) :
    (ofRules rules).found tree tree.root = Duty.reports tree (Rule.duties rules tree) := by
  rw [← reports_script, script_ofRules h, Duty.reports_flatMap_acts]

theorem efforts_ofRules (h : Rule.Identified rules) (nodes : List Node) :
    (ofRules rules).efforts nodes =
      ⟨nodes.length, (nodes.flatMap (Rule.dutiesAt rules)).length⟩ := by
  induction nodes with
  | nil => rfl
  | cons node rest ih =>
    rw [efforts, ih, rulesFor_ofRules h, List.flatMap_cons, List.length_append, Rule.dutiesAt,
      List.length_map]
    exact Summary.ext_counts (Nat.add_comm ..) rfl

/-- **What a walk counts**: the nodes, and the calls that are due. -/
theorem effort_ofRules (h : Rule.Identified rules) (tree : Tree) :
    (ofRules rules).effort tree.root = ⟨tree.root.size, (Rule.duties rules tree).length⟩ := by
  rw [effort, Node.descendants_eq, efforts_ofRules h, Node.length_preorder]
  rfl

end Table

namespace Analyzer

variable {analyzer : Analyzer} {schedule : Schedule} {tree : Tree} {sink : Sink}
  {summary : Summary} {session : Session}

/-- **A run that succeeds** does all that is in the script, in some order, in either mode. -/
theorem perm_script_of_runInto
    (h : analyzer.runInto schedule tree sink = (.ok summary, session)) :
    tree.Delivers sink (analyzer.table.found tree tree.root) ∧
      summary = analyzer.table.effort tree.root ∧
      ∃ acts, acts.Perm (analyzer.table.script tree tree.root) ∧
        session = (Session.start sink).after acts := by
  rw [runInto] at h
  cases hrun : analyzer.runScheduled schedule tree (Session.start sink) with
  | error error after => simp [hrun] at h
  | ok counted after =>
    obtain ⟨rfl, rfl⟩ : counted = summary ∧ after = session := by simpa [hrun] using h
    rw [runScheduled] at hrun
    cases hmode : analyzer.mode with
    | sequential =>
      simp only [hmode] at hrun
      obtain ⟨hdelivers, hcounted, hafter⟩ := (analyzer.table.walk_eq_ok_iff tree).mp hrun
      rw [Table.reports_script] at hdelivers
      exact ⟨hdelivers, hcounted, _, List.Perm.refl _, hafter⟩
    | parallel =>
      simp only [hmode] at hrun
      obtain ⟨hdelivers, hcounted, acts, hmerges, hafter⟩ :=
        Table.exists_merges_of_walkParallel hrun
      exact ⟨hdelivers, hcounted, acts, hmerges.perm_script, hafter⟩

/-- **A run succeeds exactly when all reports arrive**, in either mode and under every
schedule. -/
theorem exists_runInto_eq_ok_iff :
    (∃ summary session, analyzer.runInto schedule tree sink = (.ok summary, session)) ↔
      tree.Delivers sink (analyzer.table.found tree tree.root) := by
  constructor
  · rintro ⟨summary, session, hrun⟩
    exact (perm_script_of_runInto hrun).1
  · intro hdelivers
    rw [runInto, runScheduled]
    cases analyzer.mode with
    | sequential =>
      rw [← Table.reports_script] at hdelivers
      have hwalk : analyzer.table.walk tree tree.root (Session.start sink) = .ok _ _ :=
        (analyzer.table.walk_eq_ok_iff tree).mpr ⟨hdelivers, rfl, rfl⟩
      simp only [hwalk]
      exact ⟨_, _, rfl⟩
    | parallel =>
      have hwalk : ∃ summary after,
          analyzer.table.walkParallel schedule tree (Session.start sink) = .ok summary after :=
        Table.exists_walkParallel_eq_ok schedule hdelivers
      obtain ⟨summary, after, hwalk⟩ := hwalk
      simp only [hwalk]
      exact ⟨_, _, rfl⟩

end Analyzer

/-! ## Every duty is done once -/

namespace Rule

variable {rules : List Rule} {rule : Rule}

/-- A rule that came in is the only one of its handle. -/
theorem filter_newcomers (h : Identified rules) (hrule : rule ∈ newcomers [] rules) :
    (newcomers [] rules).filter (·.handle = rule.handle) = [rule] := by
  have hnodup : (newcomers [] rules).Nodup := by
    rw [← Table.rules_ofRules]
    exact List.Nodup.of_map _ (Table.kept_ofRules h).nodup_ids
  have hidentified : Identified (newcomers [] rules) := h.of_subset (newcomers_subset _ _)
  obtain ⟨before, behind, hsplit⟩ := List.append_of_mem hrule
  rw [hsplit] at hnodup hidentified ⊢
  -- Any other one of this handle would be the rule itself, a second time.
  have hnone : ∀ others : List Rule, others ⊆ before ++ rule :: behind → rule ∉ others →
      others.filter (·.handle = rule.handle) = [] := by
    intro others hsubset hrule
    rw [List.filter_eq_nil_iff]
    intro other hother hhandle
    have heq := hidentified other (hsubset hother) rule (by simp) (of_decide_eq_true hhandle)
    exact hrule (heq ▸ hother)
  obtain ⟨-, hbehind, hapart⟩ := List.nodup_append.mp hnodup
  have hnotBefore : rule ∉ before := fun hmem => hapart rule hmem rule (by simp) rfl
  have hnotBehind : rule ∉ behind := (List.nodup_cons.mp hbehind).1
  rw [List.filter_append, List.filter_cons, if_pos (decide_eq_true rfl),
    hnone before (List.subset_append_left ..) hnotBefore,
    hnone behind (fun _ hmem => by simp [hmem]) hnotBehind]
  rfl

/-- **The nodes that a rule is called for** are those of the kinds that it declared. -/
theorem map_node_dutiesAt (h : Identified rules) (hrule : rule ∈ newcomers [] rules)
    (nodes : List Node) :
    ((nodes.flatMap (dutiesAt rules)).filter (·.rule.handle = rule.handle)).map Duty.node =
      nodes.filter (·.kind ∈ rule.kinds) := by
  induction nodes with
  | nil => rfl
  | cons node rest ih =>
    have hone : ((newcomers [] rules).filter (node.kind ∈ ·.kinds)).filter
        (·.handle = rule.handle) = [rule].filter (node.kind ∈ ·.kinds) := by
      rw [List.filter_comm, filter_newcomers h hrule]
    have hnode : (dutiesAt rules node).filter (·.rule.handle = rule.handle) =
        ([rule].filter (node.kind ∈ ·.kinds)).map (⟨·, node⟩) := by
      rw [dutiesAt, List.filter_map]
      exact congrArg (List.map (Duty.mk · node)) hone
    rw [List.flatMap_cons, List.filter_append, List.map_append, ih, hnode, List.filter_cons,
      List.filter_cons]
    by_cases hkind : node.kind ∈ rule.kinds
    · rw [if_pos (decide_eq_true hkind), if_pos (decide_eq_true hkind)]
      rfl
    · rw [if_neg (by simpa using hkind), if_neg (by simpa using hkind)]
      rfl

/-- Only rules that came in are called. -/
theorem rule_mem_of_mem_duties {tree : Tree} {duty : Duty} (h : duty ∈ duties rules tree) :
    duty.rule ∈ newcomers [] rules := by
  obtain ⟨node, -, hduty⟩ := List.mem_flatMap.mp h
  obtain ⟨rule, hrule, rfl⟩ := List.mem_map.mp hduty
  exact (List.mem_filter.mp hrule).1

/-- **The visits of a rule that came in**: once to each node of the kinds that it declared. -/
theorem map_node_visits (h : Identified rules) (hrule : rule ∈ newcomers [] rules) (tree : Tree) :
    ((((duties rules tree).map Duty.visit).filter (·.handle = rule.handle)).map Visit.node) =
      tree.root.preorder.filter (·.kind ∈ rule.kinds) := by
  rw [← map_node_dutiesAt h hrule, List.filter_map, List.map_map]
  rfl

end Rule

namespace Analyzer

variable {rules : List Rule} {mode : TraversalMode} {schedule : Schedule} {tree : Tree}
  {sink : Sink} {summary : Summary} {session : Session}

/-- A run of registered rules that succeeds makes the calls that are due, and counts them. -/
theorem visits_of_runInto (h : Rule.Identified rules)
    (hrun : (Analyzer.mk (Table.ofRules rules) mode).runInto schedule tree sink =
      (.ok summary, session)) :
    session.visits.toList.Perm ((Rule.duties rules tree).map Duty.visit) ∧
      summary = ⟨tree.root.size, session.visits.size⟩ := by
  obtain ⟨-, rfl, acts, hacts, rfl⟩ := perm_script_of_runInto hrun
  have hvisits : (Act.visits acts).Perm ((Rule.duties rules tree).map Duty.visit) := by
    rw [← Duty.visits_flatMap_acts tree, ← Table.script_ofRules h]
    exact hacts.filterMap _
  have hcount : (Act.visits acts).length = (Rule.duties rules tree).length := by
    rw [hvisits.length_eq, List.length_map]
  refine ⟨by simpa [Session.after, Session.start] using hvisits, ?_⟩
  simp [Table.effort_ofRules h, Session.after, Session.start, hcount]

/-- **Every call that is due is made once**, in either mode and under every schedule.  A run
succeeds exactly when all reports arrive, and then each rule that came in was called once for
every node of the kinds that it declared, no other object was called, and the counts are those
of the nodes and of the calls.  An object that came after another one with its id was never
called. -/
theorem runInto_duties (h : Rule.Identified rules) (mode : TraversalMode) (schedule : Schedule)
    (tree : Tree) (sink : Sink) :
    ((∃ summary session, (Analyzer.mk (Table.ofRules rules) mode).runInto schedule tree sink =
        (.ok summary, session)) ↔
      tree.Delivers sink (Duty.reports tree (Rule.duties rules tree))) ∧
      ∀ summary session, (Analyzer.mk (Table.ofRules rules) mode).runInto schedule tree sink =
          (.ok summary, session) →
        summary = ⟨tree.root.size, session.visits.size⟩ ∧
        (∀ rule ∈ Rule.newcomers [] rules,
          ((session.visits.toList.filter (·.handle = rule.handle)).map Visit.node).Perm
            (tree.root.preorder.filter (·.kind ∈ rule.kinds))) ∧
        (∀ visit ∈ session.visits.toList,
          ∃ rule ∈ Rule.newcomers [] rules, visit.handle = rule.handle) ∧
        ∀ past rule later, rules = past ++ rule :: later →
          (∀ other ∈ past, other.handle ≠ rule.handle) →
          (∃ other ∈ past, other.descriptor.id = rule.descriptor.id) →
          ∀ visit ∈ session.visits.toList, visit.handle ≠ rule.handle := by
  refine ⟨?_, fun summary session hrun => ?_⟩
  · rw [← Table.found_ofRules h]
    exact exists_runInto_eq_ok_iff
  obtain ⟨hvisits, hsummary⟩ := visits_of_runInto h hrun
  have hcalled : ∀ visit ∈ session.visits.toList,
      ∃ rule ∈ Rule.newcomers [] rules, visit.handle = rule.handle := by
    intro visit hvisit
    obtain ⟨duty, hduty, rfl⟩ := List.mem_map.mp (hvisits.mem_iff.mp hvisit)
    exact ⟨duty.rule, Rule.rule_mem_of_mem_duties hduty, rfl⟩
  refine ⟨hsummary, fun rule hrule => ?_, hcalled, ?_⟩
  · rw [← Rule.map_node_visits h hrule]
    exact (hvisits.filter _).map _
  · intro past rule later hrules hfirst htaken visit hvisit hhandle
    obtain ⟨caller, hcaller, hcall⟩ := hcalled visit hvisit
    have hself : caller = rule := h caller (Rule.newcomers_subset _ _ hcaller) rule
      (by simp [hrules]) (hcall.symm.trans hhandle)
    rw [hself, hrules] at hcaller
    exact Rule.not_mem_newcomers hfirst htaken hcaller

/-- Six registrations of four objects, two of which came in, and two blocks: four calls by
threads that take turns, none of them by the object that has only the id of the first. -/
theorem runInto_duties_sample : ∃ tree session, Tree.ofCalls blocks = .ok tree ∧
    (Analyzer.mk (Table.ofRules Table.samples) .parallel).runInto
      [1, 0, 1] tree (Sink.accepting 4) = (.ok ⟨3, 4⟩, session) ∧
    ((session.visits.toList.filter (·.handle = 0)).map Visit.node).Perm tree.root.childNodes ∧
    ∀ visit ∈ session.visits.toList, visit.handle ≠ 2 := by
  have h : Rule.Identified Table.samples := Rule.Identified.map_of_handle (fun _ => rfl) _
  have hfacts : (Tree.ofCalls blocks).toOption.map (fun tree =>
      let duties := Rule.duties Table.samples tree
      decide ((∀ diagnostic ∈ Duty.reports tree duties,
          tree.containsSpan diagnostic.span = true) ∧
        (Duty.reports tree duties).length = 4 ∧ duties.length = 4 ∧ tree.root.size = 3 ∧
        tree.root.preorder.filter (·.kind ∈ (Table.sample 0).kinds) = tree.root.childNodes)) =
      some true := by
    decide +kernel
  obtain ⟨tree, htree, hall⟩ := Option.map_eq_some_iff.mp hfacts
  obtain ⟨hwithin, hreports, hduties, hsize, hnodes⟩ := of_decide_eq_true hall
  have hdelivers := Tree.delivers_accepting_iff.mpr ⟨hwithin, Nat.le_of_eq hreports⟩
  obtain ⟨hsucceeds, hresult⟩ := runInto_duties h .parallel [1, 0, 1] tree (Sink.accepting 4)
  obtain ⟨summary, session, hrun⟩ := hsucceeds.mpr hdelivers
  obtain ⟨rfl, hcalled, -, hlate⟩ := hresult summary session hrun
  have hcalls : session.visits.size = 4 := by
    rw [← Array.length_toList, (visits_of_runInto h hrun).1.length_eq, List.length_map, hduties]
  rw [hsize, hcalls] at hrun
  refine ⟨tree, session, eq_ok_of_toOption htree, hrun, ?_, ?_⟩
  · rw [← hnodes]
    exact hcalled (Table.sample 0) (List.mem_cons_self ..)
  · exact hlate ([0, 0, 1].map Table.sample) (Table.sample 2) ([3, 0].map Table.sample) rfl
      (by decide) ⟨Table.sample 0, List.mem_cons_self .., rfl⟩

end Analyzer
end SpacingLint
