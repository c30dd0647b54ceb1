import ServiceQuery.Text.Blank

namespace ServiceQuery

/-- A version of the protocol. -/
inductive ProtocolVersion where
  /-- Version 4.0. -/
  | v40
  /-- Version 4.01, which adds the membership operator. -/
  | v401
  deriving DecidableEq, Inhabited

namespace ProtocolVersion

/-- The text of a version. -/
def text : ProtocolVersion → String
  | v40 => "4.0"
  | v401 => "4.01"

/-- The later of two versions. -/
def latest : ProtocolVersion → ProtocolVersion → ProtocolVersion
  | v40, v => v
  | v401, _ => v401

/-- Whether a version comes before or is another one. -/
def atMost : ProtocolVersion → ProtocolVersion → Bool
  | v401, v40 => false
  | _, _ => true

/-- Reads a version with white space around it; a text that is none is returned without it. -/
def ofText (s : String) : Except String ProtocolVersion :=
  match String.ofList (Text.trim s.toList) with
  | "4.0" | "4" => .ok v40
  | "4.01" => .ok v401
  | other => .error other

/-- The message for a text that is no version. -/
def unknownMessage (text : String) : String := "unknown protocol version '" ++ text ++ "'"

end ProtocolVersion

end ServiceQuery
