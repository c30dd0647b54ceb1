import ServiceQuery.Config.Basic
import ServiceQuery.Resource.Basic
import ServiceQuery.Uri.Expression

namespace ServiceQuery.Uri

/-- The key of a resource: a single one has no name, and may be a segment of its own. -/
def keyText (config : Config) : List (String × Value) → Except CompileError String
  | [(_, value)] => do
    let text ← literal value
    pure (if config.keyAsSegment then "/" ++ text else "(" ++ text ++ ")")
  | keys => do
    let text ← namedLiterals keys
    pure ("(" ++ text ++ ")")

/-- The segment of a resource with the parameters of a function and the key. -/
def segment (config : Config) (resource : Resource) : Except CompileError String := do
  let parameters ←
    match resource.origin with
    | some (.function parameters _) => do
      let text ← namedLiterals parameters
      pure ("(" ++ text ++ ")")
    | _ => pure ""
  let key ←
    match resource.key? with
    | some key => keyText config key
    | none => pure ""
  pure (resource.name ++ parameters ++ key)

/-- The path of a chain of resources. -/
def path (config : Config) (chain : Chain) : Except CompileError String := do
  let segments ← chain.resources.mapM (segment config)
  pure (Text.join "/" segments ++ if chain.leaf.countSegment then "/$count" else "")

/-- The text of an aggregation. -/
def aggregationText (aggregation : Aggregation) : WriteM String :=
  match aggregation.method, aggregation.expr with
  | .count, _ => pure ("$count as " ++ aggregation.name)
  | method, some expr => do
    let text ← write expr
    pure (text ++ " with " ++ method.keyword ++ " as " ++ aggregation.name)
  | method, none => throw (.methodNotSupported method.keyword)

/-- The transformation that aggregates, if there is something to aggregate. -/
def aggregateText? (apply : Apply) : WriteM (Option String) :=
  if apply.aggregations.isEmpty then pure none
  else do
    let texts ← apply.aggregations.mapM aggregationText
    pure (some ("aggregate(" ++ Text.join "," texts ++ ")"))

/-- The transformations of a grouping: the filter, then the grouping with its aggregations. -/
def applyText (apply : Apply) : WriteM String := do
  let filters ←
    if apply.predicates.isEmpty then pure []
    else do
      let text ← conjunction apply.predicates
      pure ["filter(" ++ text ++ ")"]
  let aggregate ← aggregateText? apply
  let groups ←
    if apply.grouping.isEmpty then pure aggregate.toList
    else do
      let keys ← apply.grouping.mapM write
      let inner := "(" ++ Text.join "," keys ++ ")" ++ (aggregate.map ("," ++ ·)).getD ""
      pure ["groupby(" ++ inner ++ ")"]
  pure (Text.join "/" (filters ++ groups))

/-- The text of one key of an ordering. -/
def selectorText (selector : OrderSelector) : WriteM String := do
  let text ← write selector.expr
  pure (if selector.descending then text ++ " desc" else text)

/-- The text of a sequence option; filters and orderings that are empty have none. -/
def optionText? : SequenceOption → WriteM (Option String)
  | .filter [] | .orderBy [] => pure none
  | .filter predicates => do
    let text ← conjunction predicates
    pure (some ("$filter=" ++ text))
  | .orderBy selectors => do
    let texts ← selectors.mapM selectorText
    pure (some ("$orderby=" ++ Text.join "," texts))
  | .skip count => pure (some ("$skip=" ++ toString count))
  | .take count => pure (some ("$top=" ++ toString count))

/-- The text of a count option. -/
def countText : CountOption → List String
  | .none => []
  | .true => ["$count=true"]
  | .false => ["$count=false"]

/-- The options of a resource in the order they are written. -/
def options (leaf : Resource) : WriteM (List String) := do
  let apply ←
    match leaf.apply with
    | some apply =>
      if apply.isEmpty then pure []
      else do
        let text ← applyText apply
        pure ["$apply=" ++ text]
    | none => pure []
  let sequence ← leaf.sequence.mapM optionText?
  let expand := if leaf.expand.isEmpty then [] else ["$expand=" ++ Text.join "," leaf.expand]
  let select :=
    match leaf.projection with
    | some projection =>
      if projection.paths.isEmpty then [] else ["$select=" ++ Text.join "," projection.paths]
    | none => []
  let custom := leaf.custom.entries.map fun (name, value) =>
    Percent.encode name ++ "=" ++ Percent.encode value
  pure (apply ++ sequence.filterMap id ++ expand ++ select ++ countText leaf.count ++ custom)

/-- The address of a chain of resources and the protocol version that it needs. -/
def ofChain (config : Config) (chain : Chain) : Except CompileError (String × ProtocolVersion) := do
  let path ← path config chain
  let (options, writer) := (options chain.leaf).run.run {}
  let options ← options
  let root := config.serviceRoot
  let address := if root.isEmpty then path else root ++ "/" ++ path
  let query := if options.isEmpty then "" else "?" ++ Text.join "&" options
  pure (address ++ query, writer.version)

end ServiceQuery.Uri
