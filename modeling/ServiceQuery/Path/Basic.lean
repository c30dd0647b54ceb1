import ServiceQuery.Error

/-!
# Select and expand paths

A path is a list of segments. Segments that start with a dollar sign are reserved by the protocol
and may not stand in a path that is written.
-/

namespace ServiceQuery

/-- One segment of a path. -/
inductive Segment where
  /-- A segment reserved by the protocol. -/
  | system (identifier : String)
  /-- A property with named values in parentheses; `structural` says that it is no navigation. -/
  | property (identifier : String) (values : List (String × String)) (structural : Bool)
  deriving DecidableEq

namespace Segment

/-- The text of a segment. -/
def identifier : Segment → String
  | system identifier => identifier
  | property identifier _ _ => identifier

/-- Whether the segment is a structural property. -/
def isStructural : Segment → Bool
  | property _ _ structural => structural
  | system _ => false

end Segment

/-- The segments of a path, first segment first. -/
abbrev Path := List Segment

namespace Path

/-- The segment that stands for every property. -/
def wildcard : String := "*"

/-- A path of properties without values. -/
def ofProperties (properties : List (String × Bool)) : Path :=
  properties.map fun (name, structural) => .property name [] structural

/-- The texts of the segments. -/
def identifiers (path : Path) : List String := path.map Segment.identifier

/-- Whether no segment is a structural property. -/
def isNavigationOnly (path : Path) : Bool := path.all fun segment => !segment.isStructural

/-- Attaches a path at the end of another one in place: whether that succeeds, and the other path as
it is afterwards. A reserved segment on the way to the end is an error. -/
def attach : Path → Path → Except CompileError Unit × Path
  | [], tail => (.ok (), tail)
  | .system token :: rest, _ => (.error (.illegalSystemToken token), .system token :: rest)
  | .property name values structural :: rest, tail =>
    let (outcome, rest) := attach rest tail
    (outcome, .property name values structural :: rest)

/-- One path after another; the first one may hold no reserved segment. -/
def append (path tail : Path) : Except CompileError Path :=
  let (outcome, path) := path.attach tail
  (fun _ => path) <$> outcome

/-- The segments before the first wildcard, among which no reserved one may be. -/
def withoutWildcard : Path → Except CompileError Path
  | [] => .ok []
  | .system token :: _ => .error (.illegalSystemToken token)
  | .property name values structural :: rest =>
    if name = wildcard then .ok []
    else (.property name values structural :: ·) <$> withoutWildcard rest

/-- The path itself, when it holds no reserved segment. -/
def checked : Path → Except CompileError Path
  | [] => .ok []
  | .system token :: _ => .error (.illegalSystemToken token)
  | .property name values structural :: rest =>
    (.property name values structural :: ·) <$> checked rest

/-- The text of a path whose every segment is expanded. -/
def expandText : Path → Except CompileError String
  | [] => .ok ""
  | .system token :: _ => .error (.illegalSystemToken token)
  | [.property name _ _] => .ok name
  | .property name _ _ :: next :: rest => do
    let inner ← expandText (next :: rest)
    pure (name ++ "(($expand=" ++ inner ++ "))")

mutual

/-- The options in parentheses after a segment: the next segment is expanded if it is a navigation,
and begins a selection if it is structural. -/
def optionsText : Path → Except CompileError String
  | [] => .ok ""
  | .system token :: _ => .error (.illegalSystemToken token)
  | .property name _ false :: rest => do
    let inner ← optionsText rest
    pure ("($expand=" ++ name ++ inner ++ ")")
  | .property name _ true :: rest => do
    let inner ← selectionText rest
    pure ("($select=" ++ name ++ inner)

/-- The rest of a selection: structural segments join it, and a navigation ends it. -/
def selectionText : Path → Except CompileError String
  | [] => .ok ")"
  | .system token :: _ => .error (.illegalSystemToken token)
  | .property name _ true :: rest => do
    let inner ← selectionText rest
    pure ("," ++ name ++ inner)
  | .property name _ false :: rest => do
    let inner ← optionsText rest
    pure (";$expand=" ++ name ++ inner ++ ")")

end

/-- The text of a path with nested selections and expansions. -/
def selectExpandText : Path → Except CompileError String
  | [] => .ok ""
  | .system token :: _ => .error (.illegalSystemToken token)
  | .property name _ _ :: rest => do
    let options ← optionsText rest
    pure (name ++ options)

end Path

end ServiceQuery
