import SpacingLint.Lint.IfSpacing
import SpacingLint.Lint.Settings
import SpacingLint.Lint.Table

/-! # Which rules run

A configuration sets rules on or off by id.  A rule without a setting runs if its
descriptor says so.  Of two configurations that are merged the second one wins.
-/
namespace SpacingLint

/-- Which rules run. -/
structure LintConfig where
  /-- What is said about rules. -/
  rules : Settings
deriving DecidableEq, Inhabited

namespace LintConfig

/-- A configuration that says nothing. -/
def empty : LintConfig := ⟨Settings.empty⟩

/-- What is said about a rule. -/
def setting? (config : LintConfig) (id : String) : Option Setting := config.rules.get? id

/-- Whether a rule runs. -/
def isEnabled (config : LintConfig) (descriptor : Descriptor) : Bool :=
  (config.setting? descriptor.id).elim descriptor.enabledByDefault Setting.isOn

/-- The configuration with one rule set. -/
def withRule (config : LintConfig) (id : String) (setting : Setting) : LintConfig :=
  ⟨config.rules.insert id setting⟩

/-- The configuration changed by another, which wins. -/
def merge (config changes : LintConfig) : LintConfig := ⟨config.rules.merge changes.rules⟩

/-- The ids with a setting that are not among the valid ones, in ascending order. -/
def unknownRules (config : LintConfig) (valid : List String) : List String :=
  config.rules.ids.filter (!valid.contains ·)

end LintConfig

/-! ## The rules that come with the library -/

/-- The rules that come with the library. -/
def builtinRules : List Rule := [IfSpacing.rule 0]

/-- Their ids. -/
def builtinRuleIds : List String := builtinRules.map (·.descriptor.id)

namespace Table

/-- The table of all of them. -/
def builtin : Table := ofRules builtinRules

/-- The table of those that a configuration lets run. -/
def ofConfig (config : LintConfig) : Table :=
  ofRules (builtinRules.filter (config.isEnabled ·.descriptor))

end Table
end SpacingLint
