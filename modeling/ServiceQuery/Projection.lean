import ServiceQuery.Model.Basic
import ServiceQuery.Path.Basic
import ServiceQuery.Resource.Input

/-!
# Projections

A projection builds a result from each element of a resource. The service is asked for the
structural properties that it reads and for the related elements that it reaches.
-/

namespace ServiceQuery

/-- The paths that a projection selects and expands. -/
structure ProjectionPaths where
  select : List String := []
  expand : List String := []
  deriving DecidableEq

/-- Adds a text to a list unless it is there. -/
def addDistinct (item : String) (items : List String) : List String :=
  if items.contains item then items else items ++ [item]

namespace Expr

/-- The member of a construction with the given name. -/
def constructed? (name : String) (expr : Expr) : Option Expr :=
  expr.members?.bind fun members => members.lookup name

/-- The expression where `accessor`, read from the parameter `old`, is the parameter `new`. There is
none if the parameter `old` is used in another way. -/
def replaceAccessor? (old accessor : String) (new : Param) (expr : Expr) : Option Expr :=
  expr.replaceM fun node =>
    match node with
    | member source name _ =>
      if name == accessor && source.isParameter old then some (some new.toExpr) else none
    | parameter param => if param.name == old then some none else none
    | lambda params _ => if Param.declares params old then some (some node) else none
    | _ => none

/-- The expression with a parameter replaced. A member read from a construction becomes what was
assigned to it. -/
def substitute (expr : Expr) (name : String) (replacement : Expr) : Expr :=
  Id.run <| expr.transformM
    (fun node =>
      match node with
      | parameter param => if param.name == name then some (pure replacement) else none
      | lambda params _ => if Param.declares params name then some (pure node) else none
      | _ => none)
    (fun _ rebuilt =>
      match rebuilt with
      | member source field _ => pure ((source.constructed? field).getD rebuilt)
      | _ => pure rebuilt)

/-- The longest chains of members over a parameter, in order. The empty chain is the parameter
itself. -/
def chainsFrom (name : String) (expr : Expr) : List (List String) :=
  expr.gather fun node =>
    match node.chainFrom? name with
    | some names => some [names]
    | none =>
      match node with
      | lambda params _ => if Param.declares params name then some [] else none
      | _ => none

end Expr

/-- The entity type or complex type whose members a value of the type has. -/
def Ty.structured? (ty : Ty) : Option Ty :=
  let element :=
    match ty.nonNullable with
    | .collection of => of.nonNullable
    | other => other
  match element with
  | .entity _ | .complex _ => some element
  | _ => none

/-- The path of a chain of member names, as far as it runs through structured types. -/
def Metadata.pathOf (metadata : Metadata) (owner : Ty) :
    List String → Except CompileError Path
  | [] => .ok []
  | name :: rest =>
    match owner.structured? with
    | none => .ok []
    | some ty => do
      let property ← metadata.member name ty
      let path ← metadata.pathOf property.ty rest
      pure (.property name [] (!property.navigation) :: path)

namespace ProjectionPaths

/-- Adds a path: one that begins with a structural property is selected up to its first navigation,
any other is expanded. -/
def add (paths : ProjectionPaths) (path : Path) : Except CompileError ProjectionPaths :=
  match path with
  | [] => .ok paths
  | segment :: _ =>
    if segment.isStructural then
      let names := (path.takeWhile Segment.isStructural).map Segment.identifier
      .ok { paths with select := addDistinct ("/".intercalate names) paths.select }
    else do
      let text ← path.selectExpandText
      pure { paths with expand := addDistinct text paths.expand }

end ProjectionPaths

namespace Lambda

/-- The field through which a record parameter reads the element of a resource; where a transparent
scope describes the record, only its inner member will do. -/
def accessor? (param : Param) (resource : Resource) : Option String := do
  let fields ← param.ty.fields?
  let isInner (name : String) : Bool :=
    match resource.scope with
    | some scope => if scope.describes param.ty then scope.inner == name else true
    | none => true
  let (name, _) ← fields.find? fun (name, ty) => ty == resource.elementType && isInner name
  some name

/-- A projection of a record that holds the element of a resource as a projection of that element.
The record may then be read through that field only. -/
def overElement (f : Lambda) (resource : Resource) : Except CompileError Lambda :=
  match f.param? with
  | none => .ok f
  | some param =>
    match accessor? param resource with
    | none => .ok f
    | some accessor =>
      let element : Param := ⟨accessor, resource.elementType⟩
      match f.body.replaceAccessor? param.name accessor element with
      | some body => .ok ⟨[element], body⟩
      | none => .error (.leafOnlyProjection f.toExpr.text)

/-- The paths that a projection of elements of the given type reads. A projection that uses the
whole element selects nothing. -/
def paths (f : Lambda) (elementType : Ty) (metadata : Metadata) :
    Except CompileError ProjectionPaths := do
  let param ← f.single
  let chains := f.body.chainsFrom param.name
  let paths ← (chains.filter fun names => !names.isEmpty).foldlM
    (fun paths names => do
      let path ← metadata.pathOf elementType names
      paths.add path)
    {}
  pure (if chains.contains [] then { paths with select := [] } else paths)

/-- The projection that applies `f` to what `first` builds. -/
def after (f first : Lambda) : Except CompileError Lambda := do
  let param ← f.single
  pure ⟨first.params, f.body.substitute param.name first.body⟩

end Lambda

end ServiceQuery
