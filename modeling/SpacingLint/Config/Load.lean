import SpacingLint.Config.Decode
import SpacingLint.Files.Directory
import SpacingLint.Json.Reader
import SpacingLint.Text.Space
import SpacingLint.Yaml.Document

/-! # Loading configurations

The extension of its path tells in which format a configuration is written.  JSON is
read as strictly as the format is defined; YAML is laxer in what it takes for a
truth value and for nothing, and takes no arrays for records.  A configuration that
can be read is still refused if it sets a rule that does not exist.
-/
namespace SpacingLint

/-- How a configuration is written. -/
inductive ConfigFormat where
  | yaml
  | json
deriving DecidableEq

namespace ConfigFormat

/-- The format that the extension of a path tells. -/
def ofPath? (path : String) : Option ConfigFormat :=
  match Path.extension? path with
  | some "yml" | some "yaml" => some yaml
  | some "json" => some json
  | _ => none

/-- The name of a format. -/
def name : ConfigFormat → String
  | yaml => "YAML"
  | json => "JSON"

end ConfigFormat

/-- Why a configuration is not loaded. -/
inductive ConfigError where
  /-- Its file cannot be read. -/
  | unreadable (cause : ReadError)
  /-- It is malformed. -/
  | invalid (path : String) (format : ConfigFormat)
  /-- Its path tells no format. -/
  | unsupportedFormat (path : String)
  /-- It sets rules that do not exist; those in `valid` do. -/
  | unknownRules (rules valid : List String)
deriving DecidableEq

namespace ConfigError

/-- What is said about the error. -/
def message : ConfigError → String
  | unreadable cause => s!"failed to read config file: {cause.message}"
  | invalid path format => s!"invalid config at {path}: {format.name} parse error"
  | unsupportedFormat path => s!"unsupported config format: {path}"
  | unknownRules rules valid =>
    "unknown lint rule(s): " ++ String.intercalate ", " rules ++ ". Valid rules: " ++
      String.intercalate ", " valid

end ConfigError

/-! ## Configurations as YAML documents -/

/-- The truth value of a plain scalar; space around it does not count. -/
def Yaml.truth? (text : String) : Option Bool :=
  match (String.ofList (Text.trim text.toList)).map Char.toLower with
  | "true" | "yes" | "y" | "on" => some true
  | "false" | "no" | "n" | "off" => some false
  | _ => none

/-- The setting that a document stands for: a plain truth value, or the text of a
setting. -/
def Setting.ofYaml? : Yaml → Option Setting
  | .scalar quoted text =>
    match quoted, Yaml.truth? text with
    | false, some value => some (Setting.ofBool value)
    | _, _ => Setting.ofText? text
  | .mapping _ => none

/-- The mode that a document stands for: its name, or a mapping from its name to
nothing. -/
def TraversalMode.ofYaml? : Yaml → Option TraversalMode
  | .scalar _ name => ofName? name
  | .mapping [(name, value)] => if value.isNull then ofName? name else none
  | .mapping _ => none

/-- The settings that a document stands for. -/
def Settings.ofYaml? (document : Yaml) : Option Settings :=
  if document.isNull then some empty
  else
    match document with
    | .scalar _ _ => none
    | .mapping entries => do
      let pairs ← entries.mapM fun entry => do
        let setting ← Setting.ofYaml? entry.2
        return (entry.1, setting)
      return ofList pairs

/-- The configuration of rules that a document stands for. -/
def LintConfig.ofYaml? (document : Yaml) : Option LintConfig :=
  if document.isNull then some empty
  else
    match document with
    | .mapping [] => some empty
    | .mapping [("rules", value)] => (Settings.ofYaml? value).map LintConfig.mk
    | _ => none

/-- A configuration changed by one entry of a mapping. -/
def AnalysisConfig.addEntry? (config : AnalysisConfig) (entry : String × Yaml) :
    Option AnalysisConfig :=
  match entry.1 with
  | "traversal" => (TraversalMode.ofYaml? entry.2).map fun traversal => { config with traversal }
  | "lint" => (LintConfig.ofYaml? entry.2).map fun lint => { config with lint }
  | _ => none

/-- The configuration that a document stands for. -/
def AnalysisConfig.ofYaml? (document : Yaml) : Option AnalysisConfig :=
  if document.isNull then some empty
  else
    match document with
    | .scalar _ _ => none
    | .mapping entries => entries.foldlM addEntry? empty

/-! ## Texts and files -/

namespace AnalysisConfig

/-- The configuration of a JSON text. -/
def ofJsonText? (text : String) : Option AnalysisConfig := do
  let value ← Json.parse? text
  (ofJson value).toOption

/-- The configuration of a YAML text. -/
def ofYamlText? (text : String) : Option AnalysisConfig := do
  let document ← Yaml.parse? text
  ofYaml? document

/-- The configuration of a text in a format. -/
def read? (format : ConfigFormat) (text : String) : Option AnalysisConfig :=
  match format with
  | .yaml => ofYamlText? text
  | .json => ofJsonText? text

/-- The configuration of a text that comes from a path. -/
def ofText (path text : String) : Except ConfigError AnalysisConfig :=
  match ConfigFormat.ofPath? path with
  | none => .error (.unsupportedFormat path)
  | some format =>
    match read? format text with
    | none => .error (.invalid path format)
    | some config =>
      match config.lint.unknownRules builtinRuleIds with
      | [] => .ok config
      | rules => .error (.unknownRules rules builtinRuleIds)

/-- The configuration in a file. -/
def load (directory : Directory) (path : String) : Except ConfigError AnalysisConfig :=
  match directory.read path with
  | .error cause => .error (.unreadable cause)
  | .ok text => ofText path text

end AnalysisConfig
end SpacingLint
