import ServiceQuery.Expr.Text
import ServiceQuery.Resource.Input

/-!
# Grouping and aggregation

The selectors of a grouping fill the `Apply` of a resource: the key selector gives the expressions
grouped by, the element selector the members that aggregations may read, and the result selector
the aggregations.
-/

namespace ServiceQuery.Grouping

/-- Steps that add to an `Apply`; what was added before a failure stays. -/
abbrev ApplyM := ExceptT CompileError (StateM Apply)

/-- The name of the member that is the key of a group. -/
def keyMember : String := "Key"

/-- An expression over the elements of the leaf with its parameter replaced, if it reads no other
resource. -/
def boundToLeaf (chain : Chain) (name : String) (expr : Expr) : Except CompileError Expr :=
  if chain.readsOnlyLeaf name expr then .ok (chain.bindInput name expr)
  else .error (.crossResourceReference "grouping" expr.text)

/-- A key: a chain of members of the element that ends in no entity and no collection. -/
def keyExpr (chain : Chain) (name : String) (expr : Expr) : Except CompileError Expr :=
  match expr.chainFrom? name with
  | some (_ :: _) =>
    if expr.ty.isEntity || expr.ty.elementType?.isSome then
      .error (.invalidGroupingExpression expr.text)
    else boundToLeaf chain name expr
  | _ => .error (.invalidGroupingExpression expr.text)

/-- A member of a grouped element: the element itself or a chain of members of it. -/
def memberExpr (chain : Chain) (name : String) (expr : Expr) : Except CompileError Expr :=
  match expr.chainFrom? name with
  | some _ => boundToLeaf chain name expr
  | none => .error (.invalidGroupingExpression expr.text)

/-- Adds what a key selector groups by: each member of a construction, or a single key without a
name. -/
def addKeys (chain : Chain) (selector : Lambda) : ApplyM Unit := do
  let param ← selector.single
  match selector.body.members? with
  | some members =>
    members.forM fun (name, expr) => do
      let bound ← keyExpr chain param.name expr
      modify fun apply => (apply.addKey name bound).addGrouping bound
  | none => do
    let bound ← keyExpr chain param.name selector.body
    modify fun apply => apply.addGrouping bound

/-- Adds the members that an element selector gives to grouped elements. -/
def addMembers (chain : Chain) (selector : Lambda) : ApplyM Unit := do
  let param ← selector.single
  let members := selector.body.members?.getD [("", selector.body)]
  members.forM fun (name, expr) => do
    let bound ← memberExpr chain param.name expr
    modify fun apply => apply.addMember name bound

/-- Whether an expression is the key of a group. -/
def isGroupKey (keyParam : Option String) (group : String) : Expr → Bool
  | .parameter param => keyParam == some param.name
  | .member source name _ => name == keyMember && source.isParameter group
  | _ => false

/-- The first member read from the key of a group that the key has not. -/
def unknownKey? (apply : Apply) (keyParam : Option String) (group : String) (expr : Expr) :
    Option String :=
  List.head? <| expr.gather fun
    | .member source name _ =>
      if isGroupKey keyParam group source && (apply.key? name).isNone then some [name] else none
    | .lambda params _ =>
      if params.any fun param => param.name == group || keyParam == some param.name then some []
      else none
    | _ => none

/-- The name of the key parameter of a result selector, given that its second parameter is the
group. -/
def keyParam? (result : Lambda) (group : String) : Option String :=
  match result.params with
  | [key, elements] => if elements.name == group then some key.name else none
  | _ => none

/-- Fails on a member of a constructed key that the key selector does not build. -/
def checkKeys (apply : Apply) (result : Lambda) (group : String) : Except CompileError Unit :=
  if apply.keys.isEmpty then .ok ()
  else
    match unknownKey? apply (keyParam? result group) group result.body with
    | some name => .error (.unknownMember "group key" name)
    | none => .ok ()

/-- The outermost calls whose first argument is the group. -/
def groupCalls (group : String) (expr : Expr) : List Expr :=
  expr.gather fun node =>
    match node with
    | .call _ (.parameter param :: _) _ => if param.name == group then some [node] else none
    | .lambda params _ => if Param.declares params group then some [] else none
    | _ => none

/-- The name of an aggregation that is given none. -/
def defaultName (method : AggregationMethod) (selector : Option Lambda) : String :=
  match selector.bind fun f => f.body.memberChain?.bind fun chain => chain.2.getLast? with
  | some property => method.name ++ "Of" ++ property
  | none => method.name

/-- An expression over grouped elements in terms of the members they were given. There is none if it
reads anything else. -/
def overMembers? (apply : Apply) (name : String) (expr : Expr) : Option Expr :=
  expr.replaceM fun
    | .parameter param => some (if param.name == name then apply.member? "" else none)
    | .member source member _ =>
      if source.isParameter name then some (apply.member? member) else none
    | _ => none

/-- An expression over grouped elements as one over the elements of the leaf. There is none if it
reads anything else. -/
def overLeaf? (chain : Chain) (name : String) (expr : Expr) : Option Expr :=
  let bound := chain.bindInput name expr
  if chain.readsOnlyLeaf name expr && !bound.hasFreeParameter then some bound else none

/-- The aggregation of a value selected from each element of a group. There is none if the selector
reads more than the element. -/
def ofSelector (chain : Chain) (apply : Apply) (method : AggregationMethod) (selector : Lambda)
    (name : String) : Except CompileError (Option Aggregation) :=
  match selector.param? with
  | none => .ok none
  | some param =>
    if method.requiresNumeric && !selector.body.ty.isNumeric then
      .error (.methodNotSupported (method.name ++ "(" ++ selector.toExpr.text ++ ")"))
    else
      let bound :=
        if apply.members.isEmpty then overLeaf? chain param.name selector.body
        else overMembers? apply param.name selector.body
      .ok (bound.map fun expr => ⟨some expr, method, name⟩)

/-- The aggregation that a call over a group stands for. There is none if the arguments are not
those of an aggregation. -/
def aggregationOf (chain : Chain) (apply : Apply) (call : Expr) (name : Option String) :
    Except CompileError (Option Aggregation) :=
  match call with
  | .call method args _ =>
    match AggregationMethod.ofMethod? method with
    | none => .error (.methodNotSupported method)
    | some aggregation =>
      if aggregation.takesSelector then
        match args with
        | [_, .lambda params body] =>
          let selector : Lambda := ⟨params, body⟩
          ofSelector chain apply aggregation selector
            (name.getD (defaultName aggregation (some selector)))
        | _ => .ok none
      else
        match args with
        | [_] => .ok (some ⟨none, aggregation, name.getD (defaultName aggregation none)⟩)
        | _ => .ok none
  | _ => .ok none

/-- The name of the first member of a construction that is the given expression. -/
def nameOf? (members : List (String × Expr)) (expr : Expr) : Option String :=
  (members.find? fun member => member.2.same expr).map Prod.fst

/-- Adds the aggregations of a result selector, named by the members they are assigned to, and the
selector itself. -/
def addResult (chain : Chain) (result : Lambda) (group : String) : ApplyM Unit := do
  checkKeys (← get) result group
  let members := result.body.members?.getD []
  (groupCalls group result.body).forM fun call => do
    match ← aggregationOf chain (← get) call (nameOf? members call) with
    | some aggregation => modify fun apply => apply.addAggregation aggregation
    | none => pure ()
  modify fun apply => { apply with result := some result }

/-- The aggregation of all elements of a resource. There is none if the selector reads more than the
element, or is not what the method takes. -/
def terminal (chain : Chain) (method : String) (selector : Option Lambda) :
    Except CompileError (Option Aggregation) :=
  match AggregationMethod.ofMethod? method with
  | none => .error (.methodNotSupported method)
  | some aggregation =>
    match selector, aggregation.takesSelector with
    | none, false => .ok (some ⟨none, aggregation, "Count"⟩)
    | some f, true => ofSelector chain {} aggregation f (defaultName aggregation selector)
    | _, _ => .ok none

end ServiceQuery.Grouping
