import ServiceQuery.Config.Basic
import ServiceQuery.Toml.Parser
import ServiceQuery.Toml.Printer

namespace ServiceQuery

/-- Why a configuration file cannot be used. -/
inductive ConfigError where
  /-- The text is no TOML, or a value is of the wrong type. -/
  | malformed
  | invalidVersion (text : String)
  deriving DecidableEq

/-- The text of a configuration error, apart from a malformed file. -/
def ConfigError.message : ConfigError → String
  | malformed => "not a configuration"
  | invalidVersion text =>
    "protocol version '" ++ text ++ "' is invalid; expected 4.0 or 4.01"

/-- The section `compiler` of a configuration file. -/
structure CompilerSection where
  baseUri : Option String := none
  keyAsSegment : Option Bool := none
  maxVersion : Option String := none
  partialEvaluation : Option Bool := none

namespace CompilerSection

/-- The names of the fields of the section. -/
def fieldNames : List String :=
  ["base_uri", "key_as_segment", "max_protocol_version", "partial_evaluation"]

/-- The section that a TOML value gives; an array has to hold all fields. -/
def ofToml? (toml : Toml) : Option CompilerSection := do
  let entries ← toml.record? fieldNames fieldNames.length
  let baseUri ← Toml.entry? "base_uri" none (fun value => some <$> value.string?) entries
  let keyAsSegment ← Toml.entry? "key_as_segment" none (fun value => some <$> value.boolean?) entries
  let maxVersion ←
    Toml.entry? "max_protocol_version" none (fun value => some <$> value.string?) entries
  let partialEvaluation ←
    Toml.entry? "partial_evaluation" none (fun value => some <$> value.boolean?) entries
  pure ⟨baseUri, keyAsSegment, maxVersion, partialEvaluation⟩

/-- The section of a document; there need not be one. -/
def ofDocument? (toml : Toml) : Option CompilerSection := do
  Toml.entry? "compiler" {} ofToml? (← toml.table?)

end CompilerSection

namespace Config

/-- The configuration that a section gives. -/
def ofSection (given : CompilerSection) : Except ConfigError Config := do
  let default : Config := {}
  let maxVersion ←
    match given.maxVersion with
    | none => pure default.maxVersion
    | some text =>
      match ProtocolVersion.ofText text with
      | .ok version => pure version
      | .error _ => throw (.invalidVersion text)
  pure
    { baseUri := given.baseUri.getD default.baseUri
      keyAsSegment := given.keyAsSegment.getD default.keyAsSegment
      maxVersion := maxVersion
      partialEvaluation := given.partialEvaluation.getD default.partialEvaluation }

/-- Reads a configuration file. -/
def ofToml (text : String) : Except ConfigError Config :=
  match (Toml.parse text).bind CompilerSection.ofDocument? with
  | some given => ofSection given
  | none => .error .malformed

/-- The text of a truth value. -/
def boolText (b : Bool) : String := if b then "true" else "false"

/-- The text of a configuration file. -/
def toToml (config : Config) : String :=
  "[compiler]\nbase_uri = " ++ Toml.quote config.baseUri ++
  "\nkey_as_segment = " ++ boolText config.keyAsSegment ++
  "\nmax_protocol_version = " ++ Toml.quote config.maxVersion.text ++
  "\npartial_evaluation = " ++ boolText config.partialEvaluation ++ "\n"

end Config

end ServiceQuery
