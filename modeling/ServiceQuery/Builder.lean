import ServiceQuery.Error

/-!
# Building queries

A builder makes the calls of a query one after another and names the parameters of its lambdas.
-/

namespace ServiceQuery

/-- The name of the parameter with the given number: a letter, and how often the letters have been
used up before. -/
def variableName (index : Nat) : String :=
  let letter := String.singleton (Char.ofNat ('a'.toNat + index % 26))
  if index < 26 then letter else letter ++ toString (index / 26)

/-- The type of an aggregation of values of a type. -/
def aggregateType (method : String) (selected : Ty) : Ty :=
  if method = "CountDistinct" then .int32
  else if method = "Average" && selected.nonNullable != .decimal then .double
  else selected

/-- A query under construction. -/
structure Builder where
  expr : Expr
  /-- The type of its elements. -/
  element : Ty
  /-- The number of the next parameter. -/
  nextVariable : Nat := 0
  /-- The first error, after which no call is added. -/
  error : Option CompileError := none

namespace Builder

/-- A query of a root. -/
def ofRoot (root : ResourceRoot) : Builder where
  expr := .root root
  element := root.elementType

/-- A query of an entity set. -/
def entitySet (name entity : String) : Builder := ofRoot ⟨name, .entity entity, .entitySet⟩

/-- A query of a singleton. -/
def singleton (name entity : String) : Builder := ofRoot ⟨name, .entity entity, .singleton⟩

/-- A query of what a function returns. -/
def function (name : String) (elementType : Ty) (parameters : List (String × Value))
    (returnsCollection : Bool) : Builder :=
  ofRoot ⟨name, elementType, .function parameters returnsCollection⟩

/-- A query of what an action returns. -/
def action (name : String) (elementType : Ty) (parameters : List (String × Value)) : Builder :=
  ofRoot ⟨name, elementType, .action parameters⟩

/-- A new parameter of the given type. -/
def newParam (builder : Builder) (ty : Ty) : Param × Builder :=
  (⟨variableName builder.nextVariable, ty⟩,
    { builder with nextVariable := builder.nextVariable + 1 })

/-- A lambda over the elements. -/
def newLambda (builder : Builder) (body : Expr → Expr) : Lambda × Builder :=
  let (param, builder) := builder.newParam builder.element
  (⟨[param], body param.toExpr⟩, builder)

/-- A lambda over a group key and a group of elements of the given type. -/
def newResult (builder : Builder) (key : Lambda) (element : Ty) (body : Expr → Expr → Expr) :
    Lambda × Builder :=
  let (keyParam, builder) := builder.newParam key.body.ty
  let (groupParam, builder) := builder.newParam (.grouping key.body.ty element)
  (⟨[keyParam, groupParam], body keyParam.toExpr groupParam.toExpr⟩, builder)

/-- A lambda that pairs an element with one of its collection, of the given type, in a record. -/
def newPair (builder : Builder) (element : Ty) (outer inner : String) : Lambda × Builder :=
  let (outerParam, builder) := builder.newParam builder.element
  let (innerParam, builder) := builder.newParam element
  let record := Expr.recordOf [(outer, outerParam.toExpr), (inner, innerParam.toExpr)]
  (⟨[outerParam, innerParam], record⟩, builder)

/-- Adds a call whose elements have the given type, unless there was an error. -/
def push (builder : Builder) (method : String) (args : List Expr) (element : Ty) : Builder :=
  if builder.error.isSome then builder
  else
    { builder with
      expr := .call method (builder.expr :: args) (.collection element)
      element := element }

/-- Adds a call of a lambda that keeps the elements. -/
def pushLambda (builder : Builder) (method : String) (body : Expr → Expr) : Builder :=
  let (f, builder) := builder.newLambda body
  builder.push method [f.toExpr] builder.element

/-- Keeps the elements that satisfy a predicate. -/
def filter (builder : Builder) (predicate : Expr → Expr) : Builder :=
  builder.pushLambda "Where" predicate

/-- Orders by a key. -/
def orderBy (builder : Builder) (key : Expr → Expr) : Builder := builder.pushLambda "OrderBy" key

/-- Orders by a key, largest first. -/
def orderByDescending (builder : Builder) (key : Expr → Expr) : Builder :=
  builder.pushLambda "OrderByDescending" key

/-- Orders equal elements by a further key. -/
def thenBy (builder : Builder) (key : Expr → Expr) : Builder := builder.pushLambda "ThenBy" key

/-- Orders equal elements by a further key, largest first. -/
def thenByDescending (builder : Builder) (key : Expr → Expr) : Builder :=
  builder.pushLambda "ThenByDescending" key

/-- Skips elements. -/
def skip (builder : Builder) (count : Int32) : Builder :=
  builder.push "Skip" [.constant (.int32 count)] builder.element

/-- Takes elements. -/
def take (builder : Builder) (count : Int32) : Builder :=
  builder.push "Take" [.constant (.int32 count)] builder.element

/-- Builds a result from each element. -/
def select (builder : Builder) (selector : Expr → Expr) : Builder :=
  let (f, builder) := builder.newLambda selector
  builder.push "Select" [f.toExpr] f.body.ty

/-- The type of the elements of the collection that a selector returns; it is an error if it returns
none. -/
def collectionElement (builder : Builder) (selector : Lambda) : Option Ty × Builder :=
  if builder.error.isSome then (none, builder)
  else
    match selector.body.ty.elementType? with
    | some element => (some element, builder)
    | none =>
      let text := "SelectMany(" ++ selector.toExpr.text ++ ")"
      (none, { builder with error := some (.expressionNotSupported text) })

/-- Navigates to a collection. -/
def selectMany (builder : Builder) (selector : Expr → Expr) : Builder :=
  let (f, builder) := builder.newLambda selector
  match builder.collectionElement f with
  | (some element, builder) => builder.push "SelectMany" [f.toExpr] element
  | (none, builder) => builder

/-- Navigates to a collection and pairs its elements with their source in a record. -/
def selectManyScoped (builder : Builder) (selector : Expr → Expr) (outer inner : String) :
    Builder :=
  let (f, builder) := builder.newLambda selector
  match builder.collectionElement f with
  | (some element, builder) =>
    let (result, builder) := builder.newPair element outer inner
    builder.push "SelectMany" [f.toExpr, result.toExpr] result.body.ty
  | (none, builder) => builder

/-- Groups by a key. -/
def groupBy (builder : Builder) (key : Expr → Expr) : Builder :=
  let (key, builder) := builder.newLambda key
  builder.push "GroupBy" [key.toExpr] (.grouping key.body.ty builder.element)

/-- Groups by a key and builds a result from each group. -/
def groupByWithResult (builder : Builder) (key : Expr → Expr) (result : Expr → Expr → Expr) :
    Builder :=
  let (key, builder) := builder.newLambda key
  let (result, builder) := builder.newResult key builder.element result
  builder.push "GroupBy" [key.toExpr, result.toExpr] result.body.ty

/-- Groups what is selected from the elements by a key and builds a result from each group. -/
def groupByWithSelector (builder : Builder) (key element : Expr → Expr)
    (result : Expr → Expr → Expr) : Builder :=
  let (key, builder) := builder.newLambda key
  let (selector, builder) := builder.newLambda element
  let (result, builder) := builder.newResult key selector.body.ty result
  builder.push "GroupBy" [key.toExpr, selector.toExpr, result.toExpr] result.body.ty

/-- Expands a path. -/
def expand (builder : Builder) (path : String) : Builder :=
  builder.push "Expand" [.constant (.string path)] builder.element

/-- Expands the path that a lambda follows. -/
def expandWith (builder : Builder) (path : Expr → Expr) : Builder :=
  builder.pushLambda "Expand" path

/-- Sets an option that is not of the protocol. -/
def addQueryOption (builder : Builder) (name : String) (value : Value) : Builder :=
  builder.push "AddQueryOption" [.constant (.string name), .constant value] builder.element

/-- Asks for the number of elements. -/
def includeCount (builder : Builder) : Builder := builder.push "IncludeCount" [] builder.element

/-- The query. -/
def build (builder : Builder) : Except CompileError Expr :=
  match builder.error with
  | some error => .error error
  | none => .ok builder.expr

/-- The query with a terminal operator of the given type. -/
def terminal (builder : Builder) (method : String) (args : List Expr) (ty : Ty) :
    Except CompileError Expr := do
  let expr ← builder.build
  pure (.call method (expr :: args) ty)

/-- The number of elements. -/
def count (builder : Builder) : Except CompileError Expr := builder.terminal "Count" [] .int32

/-- The number of elements that satisfy a predicate. -/
def countWhere (builder : Builder) (predicate : Expr → Expr) : Except CompileError Expr :=
  let (f, builder) := builder.newLambda predicate
  builder.terminal "Count" [f.toExpr] .int32

/-- The number of elements as a long integer. -/
def longCount (builder : Builder) : Except CompileError Expr :=
  builder.terminal "LongCount" [] .int64

/-- The first element. -/
def first (builder : Builder) : Except CompileError Expr :=
  builder.terminal "First" [] builder.element

/-- The first element that satisfies a predicate. -/
def firstWhere (builder : Builder) (predicate : Expr → Expr) : Except CompileError Expr :=
  let (f, builder) := builder.newLambda predicate
  builder.terminal "First" [f.toExpr] builder.element

/-- The first element, if there is one. -/
def firstOrDefault (builder : Builder) : Except CompileError Expr :=
  builder.terminal "FirstOrDefault" [] builder.element

/-- The only element. -/
def single (builder : Builder) : Except CompileError Expr :=
  builder.terminal "Single" [] builder.element

/-- The only element, if there is one. -/
def singleOrDefault (builder : Builder) : Except CompileError Expr :=
  builder.terminal "SingleOrDefault" [] builder.element

/-- An aggregation of a value selected from each element. -/
def aggregate (builder : Builder) (method : String) (selector : Expr → Expr) :
    Except CompileError Expr :=
  let (f, builder) := builder.newLambda selector
  builder.terminal method [f.toExpr] (aggregateType method f.body.ty)

end Builder

namespace Group

/-- An aggregation of a value selected from each element of a group. -/
def aggregate (method : String) (group : Expr) (selector : Expr → Expr) : Expr :=
  let element :=
    match group.ty with
    | .grouping _ element => element
    | other => other.elementType?.getD .object
  let param : Param := ⟨"e", element⟩
  let body := selector param.toExpr
  .call method [group, .lambda [param] body] (aggregateType method body.ty)

/-- The number of elements of a group. -/
def count (group : Expr) : Expr := .call "Count" [group] .int32

/-- The key of a group. -/
def key (group : Expr) : Expr :=
  let ty :=
    match group.ty with
    | .grouping key _ => key
    | _ => .object
  .member group "Key" ty

end Group

end ServiceQuery
