import ServiceQuery.Text.Blank
import ServiceQuery.Version

namespace ServiceQuery

/-- The configuration of the compiler. -/
structure Config where
  /-- The address of the service; requests are relative if it is empty. -/
  baseUri : String := ""
  /-- Whether a single key is written as a path segment. -/
  keyAsSegment : Bool := false
  /-- The latest protocol version that requests may need. -/
  maxVersion : ProtocolVersion := .v401
  /-- Whether closed subexpressions are evaluated before compilation. -/
  partialEvaluation : Bool := true
  deriving DecidableEq

/-- The address of the service without slashes at its end. -/
def Config.serviceRoot (config : Config) : String :=
  String.ofList (Text.dropTrailing (· == '/') config.baseUri.toList)

end ServiceQuery
