import ServiceQuery.Path.Basic
import ServiceQuery.Text.Blank

namespace ServiceQuery.Path

/-- The non-empty texts between slashes, without white space around them. -/
def segmentTexts (text : List Char) : List (List Char) :=
  ((Text.split (· == '/') text).map Text.trim).filter fun piece => !piece.isEmpty

/-- A value with its name; a value without a name has the empty one. -/
def namedValue (piece : List Char) : String × String :=
  match Text.splitOnce (· == '=') piece with
  | some (name, value) => (String.ofList (Text.trim name), String.ofList (Text.trim value))
  | none => ("", String.ofList (Text.trim piece))

/-- The identifier of a segment and the values in parentheses after it. -/
def splitValues (segment : List Char) : String × List (String × String) :=
  match Text.splitOnce (· == '(') segment with
  | none => (String.ofList segment, [])
  | some (identifier, rest) =>
    let pieces := Text.split (· == ',') (Text.dropTrailing (· == ')') rest)
    (String.ofList identifier, (pieces.filter fun piece => !piece.isEmpty).map namedValue)

/-- Reads one segment: a dollar sign marks a reserved one, any other is classified. -/
def segmentM {m : Type → Type} [Monad m] (isStructural : String → m Bool) (segment : List Char) :
    m Segment :=
  match segment with
  | '$' :: _ => pure (.system (String.ofList segment))
  | _ => do
    let (identifier, values) := splitValues segment
    let structural ← isStructural identifier
    pure (.property identifier values structural)

/-- Reads a path. Properties are classified one by one, in order. -/
def parseM {m : Type → Type} [Monad m] (isStructural : String → m Bool) (text : String) : m Path :=
  (segmentTexts text.toList).mapM (segmentM isStructural)

end ServiceQuery.Path
