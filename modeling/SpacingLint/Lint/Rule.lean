import SpacingLint.Lint.Sink
import SpacingLint.Tree.Basic

/-! # Rules and reporting

A rule looks at one node of a tree at a time.  It declares the kinds of nodes it
wants to see, and what it finds at a node is a list of diagnostics that depends on
nothing but the tree and the node; it reports them in order and gives up at the
first report that fails.

What a rule does can be watched: a session keeps the sink and a record of every
visit of a rule to a node.  A report must lie within the text of the tree.  That is
looked at first, so a span outside is refused as such even if the sink is closed.
-/
namespace SpacingLint

/-- A rule. -/
structure Rule where
  /-- Which object the rule is: registering one object twice is registering two rules
  with one handle. -/
  handle : Nat
  /-- Its identity. -/
  descriptor : Descriptor
  /-- The kinds of nodes it wants to see. -/
  kinds : List Kind
  /-- What it finds at a node, in the order in which it reports. -/
  findings : Tree → Node → List Diagnostic

/-- A visit of a rule to a node. -/
structure Visit where
  /-- The handle of the rule. -/
  handle : Nat
  /-- The node. -/
  node : Node
deriving DecidableEq

/-- What can be seen of rules at work. -/
structure Session where
  /-- Where the reports go. -/
  sink : Sink
  /-- The visits so far, oldest first. -/
  visits : Array Visit
deriving DecidableEq

namespace Session

/-- A session that has only begun. -/
def start (sink : Sink) : Session := ⟨sink, #[]⟩

end Session

/-- Work that reports: it may end early with an error, and what was seen of it by then
stays seen. -/
abbrev Reporting := EStateM ReportError Session

/-- Hands a diagnostic about a tree to the sink. -/
def Tree.report (tree : Tree) (diagnostic : Diagnostic) : Reporting Unit := fun session =>
  if tree.containsSpan diagnostic.span then
    match session.sink.accept? diagnostic with
    | some sink => .ok () { session with sink }
    | none => .error .sinkClosed session
  else .error (.spanOutOfBounds diagnostic.span tree.length) session

/-- One thing that can be seen of a rule at work. -/
inductive Act where
  /-- A rule visits a node. -/
  | visit (rule : Rule) (node : Node)
  /-- A diagnostic is reported. -/
  | report (diagnostic : Diagnostic)

namespace Act

/-- Does it. -/
def perform (tree : Tree) : Act → Reporting Unit
  | .visit rule node => fun session =>
    .ok () { session with visits := session.visits.push ⟨rule.handle, node⟩ }
  | .report diagnostic => tree.report diagnostic

/-- Does some acts in order, up to the first that fails. -/
def performAll (tree : Tree) : List Act → Reporting Unit
  | [] => pure ()
  | act :: rest => do
    perform tree act
    performAll tree rest

end Act

namespace Rule

/-- What a rule does at a node: it visits the node, then reports. -/
def acts (rule : Rule) (tree : Tree) (node : Node) : List Act :=
  .visit rule node :: (rule.findings tree node).map .report

/-- Lets a rule look at a node. -/
def check (rule : Rule) (tree : Tree) (node : Node) : Reporting Unit :=
  Act.performAll tree (rule.acts tree node)

end Rule

/-- How the place of a rule at work is shown. -/
def Node.describeContext (node : Node) : String :=
  "SyntaxNodeContext \x7b node: " ++ node.label ++ ", .. \x7d"

end SpacingLint
