import ServiceQuery.Binding.Expand
import ServiceQuery.Binding.Key
import ServiceQuery.Binding.Navigation
import ServiceQuery.Binding.Operator
import ServiceQuery.Grouping
import ServiceQuery.Normal
import ServiceQuery.Projection

/-!
# Binding of queries

A query is bound operator by operator, source first: each operator adds to the chain of resources
that its source has been bound to.

## Main definitions

* `BoundQuery`: a chain of resources and what becomes of its elements.
* `Binding.step`: what an operator adds to a chain.
* `Binding.bind`: the chain that a query is bound to.
* `Binding.bindQuery`: a query that may end in a terminal operator.
-/

namespace ServiceQuery

/-- A bound query. -/
structure BoundQuery where
  chain : Chain
  /-- What is built from each element. -/
  projector : Option Lambda
  /-- Whether the query asks for one result. -/
  singleResult : Option Bool
  elementType : Ty
  /-- The expressions that were put into normal form. -/
  replacements : Replacements := []

namespace Binding

variable (metadata : Metadata)

/-- A root of the service; sets and singletons have to be declared. -/
def bindRoot (root : ResourceRoot) : BindM Chain := do
  match root.kind with
  | .entitySet => discard (metadata.entitySetType root.name)
  | .singleton => discard (metadata.singletonType root.name)
  | .function _ _ | .action _ => pure ()
  let id ← freshId
  pure ⟨.ofRoot id root, []⟩

/-- The bound predicate of a filter on the leaf of a chain. -/
def predicateOn (chain : Chain) (predicate : Expr) : Except CompileError Expr := do
  chain.leaf.requireCollection "Where"
  chain.leaf.requireNotAfter "Where" ["Skip", "Take", "Select", "GroupBy"]
  let f ← predicate.requireLambda
  chain.boundBody "filter" f

/-- Adds a filter. -/
def bindFilter (chain : Chain) (predicate : Expr) : BindM Chain := do
  let chain := chain.mapLeaf Resource.demoteKey
  let bound ← predicateOn chain predicate
  pure (chain.mapLeaf (·.addOption (.filter [bound])))

/-- Adds a filter, or a key in its place. -/
def bindWhere (chain : Chain) (predicate : Expr) : BindM Chain := do
  let chain := chain.mapLeaf Resource.demoteKey
  let bound ← predicateOn chain predicate
  match ← chain.leaf.keyIn metadata bound with
  | some key => do
    let id ← freshId
    pure (chain.mapLeaf fun leaf => (leaf.withKeyFilter key bound).renumber id)
  | none => pure (chain.mapLeaf (·.addOption (.filter [bound])))

/-- The bound key of an ordering of the leaf of a chain. -/
def selectorOn (chain : Chain) (method : String) (key : Expr) (descending : Bool) :
    Except CompileError OrderSelector := do
  chain.leaf.requireCollection method
  chain.leaf.requireNotAfter method ["Skip", "Take", "Select", "GroupBy"]
  let f ← key.requireLambda
  let expr ← chain.boundBody "orderby" f
  pure ⟨expr, descending⟩

/-- Orders by a key. -/
def bindOrderBy (chain : Chain) (key : Expr) (descending : Bool) : BindM Chain := do
  let method := if descending then "OrderByDescending" else "OrderBy"
  let chain := chain.mapLeaf Resource.demoteKey
  let selector ← selectorOn chain method key descending
  pure (chain.mapLeaf (·.addOption (.orderBy [selector])))

/-- Orders by a further key. -/
def bindThenBy (chain : Chain) (key : Expr) (descending : Bool) : BindM Chain := do
  let method := if descending then "ThenByDescending" else "ThenBy"
  let chain := chain.mapLeaf Resource.demoteKey
  let selector ← selectorOn chain method key descending
  match chain.leaf.orderBy? with
  | some selectors => pure (chain.mapLeaf (·.addOption (.orderBy (selectors ++ [selector]))))
  | none => throw (.methodNotSupported method)

/-- Skips elements. -/
def bindSkip (chain : Chain) (count : Expr) : BindM Chain := do
  let chain := chain.mapLeaf Resource.demoteKey
  chain.leaf.requireCollection "Skip"
  chain.leaf.requireNotAfter "Skip" ["Take"]
  let count ← count.requireCount "Skip"
  pure (chain.mapLeaf (·.addOption (.skip count)))

/-- Takes elements. -/
def bindTake (chain : Chain) (count : Expr) : BindM Chain := do
  let chain := chain.mapLeaf Resource.demoteKey
  chain.leaf.requireCollection "Take"
  let count ← count.requireCount "Take"
  pure (chain.mapLeaf (·.addOption (.take count)))

/-- The leaf with the aggregations of a result selector. -/
def withResult (chain : Chain) (apply : Apply) (result : Lambda) (group : Param) :
    Except CompileError Chain := do
  let (outcome, apply) := (Grouping.addResult chain result group.name).run.run apply
  outcome
  pure (chain.mapLeaf fun leaf => { leaf with apply := some apply })

/-- The leaf with a projection after the one it has. -/
def project (chain : Chain) (selector : Lambda) : Except CompileError Chain := do
  let selector ← selector.overElement chain.leaf
  let selector ←
    match chain.leaf.projection with
    | some previous => selector.after previous.selector
    | none => pure selector
  let paths ← selector.paths chain.leaf.elementType metadata
  pure (chain.mapLeaf fun leaf =>
    paths.expand.foldl Resource.addExpand { leaf with projection := some ⟨selector, paths.select⟩ })

/-- The navigations of a selector that reads a single related element of a single element. -/
def toOneNavigations? (chain : Chain) (selector : Lambda) :
    Except CompileError (Option (List PropertyDef)) :=
  if chain.leaf.isSingle && chain.leaf.projection.isNone then do
    let properties ← navigations? metadata chain.leaf selector
    pure (properties.filter fun properties => properties.all fun property => !isCollection property)
  else .ok none

/-- Builds results: after a grouping from its groups, else by a navigation or a projection. -/
def bindSelect (chain : Chain) (selector : Expr) : BindM Chain := do
  let f ← selector.requireLambda
  match chain.leaf.apply with
  | some apply =>
    if apply.result.isSome then throw (.unsupportedAfter "Select" "GroupBy")
    else
      let group ← f.single
      withResult chain apply f group
  | none =>
    if f.isIdentity then pure chain
    else
      match ← toOneNavigations? metadata chain f with
      | some properties => navigate "Select" chain properties
      | none => project metadata chain f

/-- The scope that a result selector opens after a navigation. One that returns the element of the
navigation opens none. -/
def scopeOf (result : Expr) (source : ResourceId) :
    Except CompileError (Option TransparentScope) := do
  let f ← result.requireLambda
  let returnsInner :=
    match f.params with
    | [_, inner] => f.body.isParameter inner.name
    | _ => false
  if returnsInner then pure none
  else
    match transparentScope? f source with
    | some scope => pure (some scope)
    | none => throw (.unsupported result)

/-- Navigates to a collection. -/
def bindSelectMany (chain : Chain) (selector : Expr) (result : Option Expr) : BindM Chain := do
  let f ← selector.requireLambda
  match (← navigations? metadata chain.leaf f).filter endsInCollection with
  | none => throw (.unsupported selector)
  | some properties => do
    let target ← navigate "SelectMany" chain properties
    match result with
    | none => pure target
    | some result => do
      match ← scopeOf result chain.leaf.id with
      | some scope => pure (target.mapLeaf fun leaf => { leaf with scope := some scope })
      | none => pure target

/-- The key selector of a grouping, and the element and result selectors if there are any: a second
selector with two parameters is a result selector. -/
def groupSelectors : List Lambda → Option (Lambda × Option Lambda × Option Lambda)
  | [key] => some (key, none, none)
  | [key, other] =>
    if other.params.length = 2 then some (key, none, some other) else some (key, some other, none)
  | [key, element, result] => some (key, some element, some result)
  | _ => none

/-- The second parameter of a result selector, which is the group. -/
def groupParam (result : Lambda) : Except CompileError Param :=
  match result.params with
  | _ :: group :: _ => .ok group
  | _ => .error (.unsupported result.toExpr)

/-- What the selectors of a grouping add. -/
def addGroups (chain : Chain) (key : Lambda) (element result : Option Lambda) :
    Grouping.ApplyM Unit := do
  Grouping.addKeys chain key
  element.forM (Grouping.addMembers chain)
  result.forM fun result => do
    let group ← groupParam result
    Grouping.addResult chain result group.name

/-- Groups the elements that the filters leave. -/
def bindGroupBy (chain : Chain) (selectors : List Expr) : BindM Chain := do
  let chain := chain.mapLeaf Resource.demoteKey
  chain.leaf.requireCollection "GroupBy"
  chain.leaf.requireNotAfter "GroupBy" ["Skip", "Take", "OrderBy", "Select", "GroupBy"]
  let lambdas ← selectors.mapM fun selector => liftM selector.requireLambda
  match groupSelectors lambdas with
  | none => throw (.methodNotSupported "GroupBy")
  | some (key, element, result) => do
    let filtered := chain.mapLeaf Resource.withoutFilter
    let apply : Apply := { predicates := chain.leaf.filter?.getD [] }
    let (outcome, apply) := (addGroups filtered key element result).run.run apply
    outcome
    pure (filtered.mapLeaf fun leaf => { leaf with apply := some apply })

/-- Sets an option that is not of the protocol. -/
def bindOption (chain : Chain) (name value : Expr) : BindM Chain := do
  let name ←
    match name with
    | .constant (.string text) => pure text
    | _ => throw (name.nonConstant "AddQueryOption" "string")
  if name.startsWith "$" then throw (.reservedQueryOption name)
  match value with
  | .constant (.string text) => pure (chain.mapLeaf (·.withCustom name text))
  | .constant other => pure (chain.mapLeaf (·.withCustom name other.text))
  | _ => throw (value.nonConstant "AddQueryOption" "scalar")

/-- Asks for the number of elements, or not to be told it. -/
def bindIncludeCount (chain : Chain) (flag : Option Expr) : BindM Chain := do
  let chain := chain.mapLeaf Resource.demoteKey
  chain.leaf.requireCollection "IncludeCount"
  let count ←
    match flag with
    | none | some (.constant (.bool true)) => pure CountOption.true
    | some (.constant (.bool false)) => pure CountOption.false
    | some other => throw (other.nonConstant "IncludeCount" "boolean")
  pure (chain.mapLeaf fun leaf => { leaf with count := count })

/-- What an operator adds to a chain. -/
def step (chain : Chain) : Operator → BindM Chain
  | .filter predicate => bindWhere metadata chain predicate
  | .orderBy key descending => bindOrderBy chain key descending
  | .thenBy key descending => bindThenBy chain key descending
  | .skip count => bindSkip chain count
  | .take count => bindTake chain count
  | .select selector => bindSelect metadata chain selector
  | .selectMany selector result => bindSelectMany metadata chain selector result
  | .groupBy selectors => bindGroupBy chain selectors
  | .expand path => do
    let text ← Expand.text metadata chain.leaf.elementType path
    pure (chain.mapLeaf (·.addExpand text))
  | .addOption name value => bindOption chain name value
  | .includeCount flag => bindIncludeCount chain flag

/-- The chain that a query is bound to. Nothing follows an action. -/
def bind : Expr → BindM Chain
  | .root origin => bindRoot metadata origin
  | .call method (source :: args) _ => do
    let chain ← bind source
    if chain.leaf.isAction then throw (.notComposable chain.leaf.name method)
    match Operator.ofCall? method args with
    | some operator => step metadata chain operator
    | none => throw (.methodNotSupported method)
  | .call method [] _ | .invoke _ method _ _ => throw (.methodNotSupported method)
  | other => throw (.notAResource other.text)

/-- The bound query of a chain. -/
def finish (chain : Chain) (elementType : Option Ty) (singleResult : Option Bool) : BoundQuery where
  chain := chain
  projector :=
    match chain.leaf.apply.bind Apply.result with
    | some result => some result
    | none => chain.leaf.projection.map Projection.selector
  singleResult := singleResult
  elementType := elementType.getD chain.leaf.elementType

/-- The number of elements, after an optional predicate. -/
def bindCount (method : String) (args : List Expr) (ty : Ty) : BindM BoundQuery := do
  let chain ←
    match args with
    | [source] => do
      let chain ← bind metadata source
      pure (chain.mapLeaf Resource.demoteKey)
    | [source, predicate] => do
      let chain ← bind metadata source
      bindFilter chain predicate
    | _ => throw (.methodNotSupported method)
  chain.leaf.requireCollection method
  chain.leaf.requireNotAfter method ["Skip", "Take", "GroupBy"]
  pure (finish (chain.mapLeaf fun leaf => { leaf with countSegment := true }) (some ty) (some true))

/-- One element, after an optional predicate. -/
def bindElement (method : String) (limit : Nat) (args : List Expr) : BindM BoundQuery := do
  let chain ←
    match args with
    | [source] => bind metadata source
    | [source, predicate] => do
      let chain ← bind metadata source
      bindWhere metadata chain predicate
    | _ => throw (.methodNotSupported method)
  let chain := if chain.leaf.isSingle then chain else chain.mapLeaf (·.addOption (.take limit))
  pure (finish chain none (some true))

/-- An aggregation of the elements that the filters leave. -/
def bindAggregate (method : String) (args : List Expr) (ty : Ty) : BindM BoundQuery := do
  match args with
  | [source, selector] => do
    let chain ← bind metadata source
    let chain := chain.mapLeaf Resource.demoteKey
    chain.leaf.requireCollection method
    chain.leaf.requireNotAfter method ["Skip", "Take", "OrderBy", "Select", "GroupBy"]
    let f ← selector.requireLambda
    match ← Grouping.terminal chain method (some f) with
    | none => throw (.crossResourceReference "aggregate" f.body.text)
    | some aggregation =>
      let apply : Apply :=
        { predicates := chain.leaf.filter?.getD [], aggregations := [aggregation] }
      let chain := chain.mapLeaf fun leaf => { leaf.withoutFilter with apply := some apply }
      pure (finish chain (some ty) (some true))
  | _ => throw (.methodNotSupported method)

/-- A query that may end in a terminal operator. -/
def bindQuery (expr : Expr) : BindM BoundQuery :=
  let plain := (finish · none none) <$> bind metadata expr
  match expr with
  | .call method args ty =>
    match Terminal.ofMethod? method with
    | some .count => bindCount metadata method args ty
    | some (.element limit) => bindElement metadata method limit args
    | some .aggregate => bindAggregate metadata method args ty
    | none => plain
  | _ => plain

end Binding

end ServiceQuery
