import SpacingLint.Analysis.Analyzer
import SpacingLint.Json.Basic

/-! # Configurations as JSON values

A configuration of an analysis has two parts, the traversal and the settings of the
rules, and either may be left out.  Written as a JSON value, the traversal is its
name and a setting is `on` or `off`; no settings at all are left out.

Reading is laxer than writing.  A setting may be spelled `true` and `false`, as a
text or as a truth value.  The traversal may be an object with a single member whose
name is the mode and whose value is null.  Both records may be written as arrays of
their parts in order, and parts at the end may be left out.  Unknown and repeated
members are refused, and of several problems the first one is reported, in the order
in which the value is written.
-/
namespace SpacingLint

/-- The configuration of an analysis. -/
structure AnalysisConfig where
  /-- How nodes are visited. -/
  traversal : TraversalMode
  /-- Which rules run. -/
  lint : LintConfig
deriving DecidableEq, Inhabited

namespace AnalysisConfig

/-- The configuration that says nothing. -/
def empty : AnalysisConfig := ⟨.sequential, LintConfig.empty⟩

end AnalysisConfig

/-- What a place in a configuration asks for. -/
inductive Wanted where
  | setting
  | lintConfig
  | analysisConfig
  | settings
  | traversal
  | nothing
deriving DecidableEq

namespace Wanted

/-- How the wanted thing is called. -/
def describe : Wanted → String
  | setting => "a rule setting ('on', 'off', true or false)"
  | lintConfig => "struct LintConfig"
  | analysisConfig => "struct AnalysisConfig"
  | settings => "a map"
  | traversal => "string or map"
  | nothing => "unit"

end Wanted

/-- Why a JSON value is no configuration. -/
inductive DataError where
  /-- A text that is no setting. -/
  | unknownSetting (text : String)
  /-- A text that names no traversal. -/
  | unknownVariant (text : String)
  /-- A member that a record does not have; it has the members `known`. -/
  | unknownField (name : String) (known : List String)
  /-- A member that occurs twice. -/
  | duplicateField (name : String)
  /-- A value of the wrong kind. -/
  | invalidType (found : Json) (wanted : Wanted)
  /-- An object for the traversal that has no member, or several. -/
  | notSingleKey
  /-- An array of `count` items for a record of fewer parts. -/
  | tooManyElements (count : Nat)

/-- How a JSON value is called in a complaint about its kind. -/
def Json.describe : Json → String
  | .null => "null"
  | .bool value => if value then "boolean `true`" else "boolean `false`"
  | .int value => s!"integer `{value}`"
  | .real written => s!"floating point `{written}`"
  | .str text => "string " ++ Text.quoted text
  | .arr _ => "sequence"
  | .obj _ => "map"

namespace DataError

/-- A name in a message. -/
def ticked (name : String) : String := s!"`{name}`"

/-- What is said about the error. -/
def message : DataError → String
  | unknownSetting text => s!"unknown rule setting: {text}"
  | unknownVariant text => s!"unknown variant `{text}`, expected `sequential` or `parallel`"
  | unknownField name known =>
    s!"unknown field `{name}`, expected " ++ String.intercalate " or " (known.map ticked)
  | duplicateField name => s!"duplicate field `{name}`"
  | invalidType found wanted => s!"invalid type: {found.describe}, expected {wanted.describe}"
  | notSingleKey => "invalid value: map, expected map with a single key"
  | tooManyElements count => s!"invalid length {count}, expected fewer elements in array"

end DataError

namespace Setting

/-- The setting of a text: its name, or the truth value that stands for it. -/
def ofText? : String → Option Setting
  | "on" | "true" => some on
  | "off" | "false" => some off
  | _ => none

/-- A setting as a JSON value. -/
def toJson (setting : Setting) : Json := .str setting.name

/-- The setting that a JSON value stands for. -/
def ofJson : Json → Except DataError Setting
  | .bool value => .ok (ofBool value)
  | .str text =>
    match ofText? text with
    | some setting => .ok setting
    | none => .error (.unknownSetting text)
  | other => .error (.invalidType other .setting)

end Setting

namespace TraversalMode

/-- A mode as a JSON value. -/
def toJson (mode : TraversalMode) : Json := .str mode.name

/-- The mode of a name. -/
def ofText (name : String) : Except DataError TraversalMode :=
  match ofName? name with
  | some mode => .ok mode
  | none => .error (.unknownVariant name)

/-- The mode that a JSON value stands for. -/
def ofJson : Json → Except DataError TraversalMode
  | .str name => ofText name
  | .obj [(name, value)] => do
    let mode ← ofText name
    match value with
    | .null => return mode
    | other => throw (.invalidType other .nothing)
  | .obj _ => .error .notSingleKey
  | other => .error (.invalidType other .traversal)

end TraversalMode

namespace Settings

/-- Settings as a JSON value. -/
def toJson (settings : Settings) : Json :=
  .obj (settings.entries.map fun entry => (entry.1, entry.2.toJson))

/-- Some settings with the members of an object made in order. -/
def addMembers (settings : Settings) : List (String × Json) → Except DataError Settings
  | [] => .ok settings
  | (id, value) :: rest => do
    let setting ← Setting.ofJson value
    addMembers (settings.insert id setting) rest

/-- The settings that a JSON value stands for.  Of several members of one name the last
one counts. -/
def ofJson : Json → Except DataError Settings
  | .obj members => addMembers empty members
  | other => .error (.invalidType other .settings)

end Settings

namespace LintConfig

/-- A configuration as a JSON value. -/
def toJson (config : LintConfig) : Json :=
  if config.rules.entries.isEmpty then .obj [] else .obj [("rules", config.rules.toJson)]

/-- Reads the members of an object, given what they said so far. -/
def ofMembers (rules : Option Settings) : List (String × Json) → Except DataError LintConfig
  | [] => .ok ⟨rules.getD Settings.empty⟩
  | (name, value) :: rest =>
    if name = "rules" then
      match rules with
      | some _ => .error (.duplicateField name)
      | none => do
        let settings ← Settings.ofJson value
        ofMembers (some settings) rest
    else .error (.unknownField name ["rules"])

/-- The configuration that a JSON value stands for. -/
def ofJson : Json → Except DataError LintConfig
  | .obj members => ofMembers none members
  | .arr [] => .ok empty
  | .arr (value :: rest) => do
    let settings ← Settings.ofJson value
    if rest.isEmpty then return ⟨settings⟩ else throw (.tooManyElements (rest.length + 1))
  | other => .error (.invalidType other .lintConfig)

end LintConfig

namespace AnalysisConfig

/-- A configuration as a JSON value. -/
def toJson (config : AnalysisConfig) : Json :=
  .obj [("lint", config.lint.toJson), ("traversal", config.traversal.toJson)]

/-- Reads the members of an object, given what they said so far. -/
def ofMembers (traversal : Option TraversalMode) (lint : Option LintConfig) :
    List (String × Json) → Except DataError AnalysisConfig
  | [] => .ok ⟨traversal.getD empty.traversal, lint.getD empty.lint⟩
  | (name, value) :: rest =>
    if name = "traversal" then
      match traversal with
      | some _ => .error (.duplicateField name)
      | none => do
        let mode ← TraversalMode.ofJson value
        ofMembers (some mode) lint rest
    else if name = "lint" then
      match lint with
      | some _ => .error (.duplicateField name)
      | none => do
        let config ← LintConfig.ofJson value
        ofMembers traversal (some config) rest
    else .error (.unknownField name ["traversal", "lint"])

/-- The configuration that a JSON value stands for. -/
def ofJson : Json → Except DataError AnalysisConfig
  | .obj members => ofMembers none none members
  | .arr [] => .ok empty
  | .arr [traversal] => do
    let mode ← TraversalMode.ofJson traversal
    return ⟨mode, empty.lint⟩
  | .arr (traversal :: lint :: rest) => do
    let mode ← TraversalMode.ofJson traversal
    let config ← LintConfig.ofJson lint
    if rest.isEmpty then return ⟨mode, config⟩ else throw (.tooManyElements (rest.length + 2))
  | other => .error (.invalidType other .analysisConfig)

end AnalysisConfig

namespace Analyzer

/-- The analyzer that a configuration asks for. -/
def ofConfig (config : AnalysisConfig) : Analyzer :=
  (ofTable (Table.ofConfig config.lint)).withMode config.traversal

end Analyzer
end SpacingLint
