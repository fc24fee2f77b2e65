import SpacingLint.Lint.Rule
import SpacingLint.Text.Quoted

/-! # Rule tables

A table knows its rules in two ways: all of them in the order in which they were
registered, and for each kind of node the ones that want to see it.  No two rules of
a table share an id.  A rule whose descriptor is in the table already is passed
over; one that has the id but not the descriptor of a rule in the table is refused.
-/
namespace SpacingLint

/-- Why a rule is not registered. -/
inductive RegistryError where
  /-- Its id belongs to another rule. -/
  | duplicateRuleId (id : String)
deriving DecidableEq

namespace RegistryError

/-- What is said about the error. -/
def message : RegistryError → String
  | duplicateRuleId id => s!"a different rule is already registered with id '{id}'"

end RegistryError

/-- The rules in use. -/
structure Table where
  /-- Every rule, in the order of registration. -/
  rules : List Rule
  /-- For each kind of node, the rules that want to see it, in the same order. -/
  rulesFor : Kind → List Rule

namespace Table

/-- A table without rules. -/
def empty : Table := ⟨[], fun _ => []⟩

/-- Adds a rule to those that want to see a kind, unless it is there already. -/
def enter (rule : Rule) (lanes : Kind → List Rule) (kind : Kind) : Kind → List Rule :=
  if (lanes kind).any (·.handle = rule.handle) then lanes
  else fun other => if other = kind then lanes kind ++ [rule] else lanes other

/-- The rule of an id. -/
def find? (table : Table) (id : String) : Option Rule :=
  table.rules.find? (·.descriptor.id = id)

/-- Registers a rule under every kind it declares. -/
def register (table : Table) (rule : Rule) : Except RegistryError Table :=
  match table.find? rule.descriptor.id with
  | some existing =>
    if existing.descriptor = rule.descriptor then .ok table
    else .error (.duplicateRuleId rule.descriptor.id)
  | none => .ok ⟨table.rules ++ [rule], rule.kinds.foldl (enter rule) table.rulesFor⟩

/-- Registers a rule; a refused one leaves the table as it is. -/
def add (table : Table) (rule : Rule) : Table :=
  match table.register rule with
  | .ok larger => larger
  | .error _ => table

/-- The table of some rules, registered in order; the refused ones are left out. -/
def ofRules (rules : List Rule) : Table := rules.foldl add empty

/-- The table of some rules, registered in order, or the first refusal. -/
def ofRules? (rules : List Rule) : Except RegistryError Table :=
  rules.foldlM register empty

/-- Whether the table has no rules. -/
def isEmpty (table : Table) : Bool := table.rules.isEmpty

/-- The descriptors of the rules, in the order of registration. -/
def descriptors (table : Table) : List Descriptor := table.rules.map (·.descriptor)

/-- How a table is shown. -/
def describe (table : Table) : String :=
  "RuleTable \x7b rules: [" ++
    String.intercalate ", " (table.descriptors.map (Text.quoted ·.id)) ++ "] \x7d"

/-! ## Dispatch -/

/-- Lets some rules look at a node, up to the first that fails. -/
def checkAll (tree : Tree) (node : Node) : List Rule → Reporting Unit
  | [] => pure ()
  | rule :: rest => do
    rule.check tree node
    checkAll tree node rest

/-- Lets every rule that wants to see a node look at it, and counts them. -/
def dispatch (table : Table) (tree : Tree) (node : Node) : Reporting Nat := do
  let rules := table.rulesFor node.kind
  checkAll tree node rules
  return rules.length

/-- What the rules do at a node if nothing fails. -/
def acts (table : Table) (tree : Tree) (node : Node) : List Act :=
  (table.rulesFor node.kind).flatMap (·.acts tree node)

end Table
end SpacingLint
