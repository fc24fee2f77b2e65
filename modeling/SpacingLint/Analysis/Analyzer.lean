import SpacingLint.Analysis.Thread
import SpacingLint.Lint.Config

/-! # Analyzers

An analyzer lets the rules of a table look at every node of a tree.  Sequentially it
walks over the nodes, each before what is below it, and stops at the first report
that fails.  In parallel it lets the rules look at the root and then hands each
subtree below the root to a thread of its own; the threads share the sink, and the
run succeeds if every one of them does.  How the threads take turns is a parameter.
-/
namespace SpacingLint

/-- How the nodes of a tree are visited. -/
inductive TraversalMode where
  /-- One walk over the tree. -/
  | sequential
  /-- The root, then a thread for each subtree below it. -/
  | parallel
deriving DecidableEq, Inhabited

namespace TraversalMode

/-- The name of a mode. -/
def name : TraversalMode → String
  | sequential => "sequential"
  | parallel => "parallel"

/-- The mode of a name. -/
def ofName? : String → Option TraversalMode
  | "sequential" => some sequential
  | "parallel" => some parallel
  | _ => none

end TraversalMode

/-- What a run counts. -/
structure Summary where
  /-- The nodes visited. -/
  nodesVisited : Nat := 0
  /-- The times a rule was asked to look at a node. -/
  ruleInvocations : Nat := 0
deriving DecidableEq, Inhabited

namespace Summary

instance : Add Summary where
  add a b := ⟨a.nodesVisited + b.nodesVisited, a.ruleInvocations + b.ruleInvocations⟩

/-- The counts of several runs taken together. -/
def total : List Summary → Summary
  | [] => {}
  | summary :: rest => summary + total rest

end Summary

/-- Why an analysis fails. -/
inductive AnalysisError where
  /-- A diagnostic could not be reported. -/
  | report (cause : ReportError)
deriving DecidableEq

namespace AnalysisError

/-- What is said about the error. -/
def message : AnalysisError → String
  | report cause => s!"failed to report diagnostic: {cause.message}"

end AnalysisError

namespace Table

/-! ## Walks -/

/-- Lets the rules look at some nodes in order. -/
def visitAll (table : Table) (tree : Tree) : List Node → Reporting Summary
  | [] => return {}
  | node :: rest => do
    let invocations ← table.dispatch tree node
    let later ← table.visitAll tree rest
    return ⟨1, invocations⟩ + later

/-- Lets the rules look at a node and at every node below it. -/
def walk (table : Table) (tree : Tree) (node : Node) : Reporting Summary :=
  table.visitAll tree node.descendants

/-- Everything the rules do at a node and below it if nothing fails. -/
def script (table : Table) (tree : Tree) (node : Node) : List Act :=
  node.descendants.flatMap (table.acts tree)

/-- What a visit to some nodes counts if nothing fails. -/
def efforts (table : Table) : List Node → Summary
  | [] => {}
  | node :: rest => ⟨1, (table.rulesFor node.kind).length⟩ + table.efforts rest

/-- What a walk from a node counts if nothing fails. -/
def effort (table : Table) (node : Node) : Summary := table.efforts node.descendants

/-- Lets the rules look at the root, then at each subtree below it in a thread of its
own; the threads take turns as the schedule says. -/
def walkParallel (table : Table) (schedule : Schedule) (tree : Tree) : Reporting Summary := do
  let invocations ← table.dispatch tree tree.root
  let subtrees := tree.root.childNodes
  let threads ← modifyGet (Thread.runAll tree schedule
    (subtrees.map fun subtree => Thread.ofActs (table.script tree subtree)))
  match Thread.firstFailure threads with
  | some error => throw error
  | none => return ⟨1, invocations⟩ + Summary.total (subtrees.map table.effort)

end Table

/-- A table of rules and a way to visit nodes. -/
structure Analyzer where
  /-- The rules. -/
  table : Table
  /-- How nodes are visited. -/
  mode : TraversalMode

namespace Analyzer

/-- An analyzer that walks sequentially. -/
def ofTable (table : Table) : Analyzer := ⟨table, .sequential⟩

/-- The same analyzer with another way to visit nodes. -/
def withMode (analyzer : Analyzer) (mode : TraversalMode) : Analyzer := { analyzer with mode }

/-- The analyzer of the rules that come with the library, set as they are by default. -/
def builtin : Analyzer := ofTable (Table.ofConfig LintConfig.empty)

/-- Runs the rules over a tree.  The schedule matters in parallel mode only. -/
def runScheduled (analyzer : Analyzer) (schedule : Schedule) (tree : Tree) : Reporting Summary :=
  match analyzer.mode with
  | .sequential => analyzer.table.walk tree tree.root
  | .parallel => analyzer.table.walkParallel schedule tree

/-- Runs the rules over a tree with a sink: what comes of it, and what was seen. -/
def runInto (analyzer : Analyzer) (schedule : Schedule) (tree : Tree) (sink : Sink) :
    Except AnalysisError Summary × Session :=
  match analyzer.runScheduled schedule tree (Session.start sink) with
  | .ok summary session => (.ok summary, session)
  | .error error session => (.error (.report error), session)

/-- Runs the rules over a tree, one thread after the other in parallel mode. -/
def run (analyzer : Analyzer) (tree : Tree) (sink : Sink) :
    Except AnalysisError Summary × Session :=
  analyzer.runInto [] tree sink

/-- All diagnostics of a tree under a schedule, sorted for listing. -/
def collectScheduled (analyzer : Analyzer) (schedule : Schedule) (tree : Tree) :
    Except AnalysisError (List Diagnostic) :=
  match analyzer.runInto schedule tree Sink.collecting with
  | (.ok _, session) => .ok session.sink.listing
  | (.error error, _) => .error error

/-- All diagnostics of a tree, sorted for listing. -/
def collect (analyzer : Analyzer) (tree : Tree) : Except AnalysisError (List Diagnostic) :=
  analyzer.collectScheduled [] tree

end Analyzer
end SpacingLint
