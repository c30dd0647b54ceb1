import ServiceQuery.Binding.Basic
import ServiceQuery.Fold
import ServiceQuery.Uri.Request

namespace ServiceQuery

/-- The method of a request. -/
inductive HttpMethod where
  | get
  | post
  | delete
  deriving DecidableEq

/-- The name of a method. -/
def HttpMethod.text : HttpMethod → String
  | get => "GET"
  | post => "POST"
  | delete => "DELETE"

/-- What is sent for a query and what becomes of the answer. -/
structure Request where
  uri : String
  version : ProtocolVersion
  elementType : Ty
  /-- What is built from each element of the answer. -/
  projector : Option Lambda := none
  /-- The expressions that were put into normal form. -/
  replacements : Replacements := []
  method : HttpMethod := .get
  /-- Whether the query asks for one result. -/
  singleResult : Option Bool := none
  bodyParameters : List (String × Value) := []
  uriParameters : List (String × Value) := []

namespace Request

/-- The request itself, if its method allows its parameters. -/
def checked (request : Request) : Except CompileError Request :=
  if !request.bodyParameters.isEmpty && request.method != .post then
    .error (.invalidOperationParameters "body" request.method.text)
  else if !request.uriParameters.isEmpty && request.method == .post then
    .error (.invalidOperationParameters "uri" request.method.text)
  else .ok request

/-- The places where a selection begins. -/
def selectMarkers : List String := ["?$select=", "&$select=", "($select=", ";$select="]

/-- Whether the address selects properties. -/
def hasSelect (request : Request) : Bool :=
  selectMarkers.any fun marker => Text.occursIn marker.toList request.uri.toList

end Request

/-- A configuration and a service. -/
structure Compiler where
  config : Config
  metadata : Metadata

namespace Compiler

/-- The query with its closed subexpressions evaluated, if that is configured. -/
def reduce (compiler : Compiler) (expr : Expr) : Except CompileError Expr :=
  if compiler.config.partialEvaluation then
    match expr.fold with
    | .ok folded => .ok folded
    | .error error => .error (.evaluation error)
  else .ok expr

/-- The bound form of a query. -/
def bind (compiler : Compiler) (expr : Expr) : Except CompileError BoundQuery := do
  let reduced ← compiler.reduce expr
  let (normal, replacements) := reduced.normalize
  let (bound, _) ← (Binding.bindQuery compiler.metadata normal).run 0
  pure { bound with replacements := replacements }

/-- The request of a bound query: the root says how its parameters are sent. -/
def requestOf (bound : BoundQuery) (uri : String) (version : ProtocolVersion) : Request :=
  let request : Request :=
    { uri := uri
      version := version
      elementType := bound.elementType
      projector := bound.projector
      replacements := bound.replacements
      singleResult := bound.singleResult }
  match bound.chain.resources.head?.bind Resource.origin with
  | some (.action parameters) => { request with method := .post, bodyParameters := parameters }
  | some (.function parameters _) => { request with uriParameters := parameters }
  | _ => request

/-- The request of a query. -/
def compile (compiler : Compiler) (expr : Expr) : Except CompileError Request := do
  let bound ← compiler.bind expr
  let (uri, version) ← Uri.ofChain compiler.config bound.chain
  if version.atMost compiler.config.maxVersion then (requestOf bound uri version).checked
  else throw (.protocolVersionTooLow version compiler.config.maxVersion)

end Compiler

end ServiceQuery
