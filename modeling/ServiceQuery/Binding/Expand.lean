import ServiceQuery.Binding.Guard
import ServiceQuery.Model.Basic
import ServiceQuery.Path.Parser

/-!
# Expanded paths

A path to expand is given as a text, or as a lambda that follows members and selects from the
collections they lead to.
-/

namespace ServiceQuery.Expand

/-- Whether a segment is structural, with the type that it is looked up in as the state. -/
def classify (metadata : Metadata) (segment : String) : StateT Ty (Except CompileError) Bool := do
  if segment = Path.wildcard then pure false
  else
    let property ← metadata.member segment (← get)
    set property.ty
    pure (!property.navigation)

/-- The path that a text gives, up to its first wildcard. -/
def ofText (metadata : Metadata) (element : Ty) (text : String) : Except CompileError Path := do
  let (path, _) ← (Path.parseM (classify metadata) text).run element
  if path.isEmpty then
    throw (.nonConstantArgument "Expand" ("'" ++ text ++ "'") "non-empty path")
  else path.withoutWildcard

/-- The path of a chain of member names and the type it leads to. -/
def ofNames (metadata : Metadata) (owner : Ty) : List String → Except CompileError (Path × Ty)
  | [] => .ok ([], owner)
  | name :: rest => do
    let property ← metadata.member name owner
    let (path, ty) ← ofNames metadata property.ty rest
    pure (.property name [] (!property.navigation) :: path, ty)

/-- The path of a chain of members over the parameter. -/
def ofMembers (metadata : Metadata) (param : String) (owner : Ty) (body : Expr) :
    Except CompileError (Path × Ty) :=
  match body.memberChain? with
  | none => .error (.unsupported body)
  | some (root, names) =>
    if root.isParameter param then ofNames metadata owner names
    else .error (.parameterNotBound root.text)

/-- The path that the body of a lambda follows and the type it leads to: a chain of members, or a
selection from another path. -/
def ofBody (metadata : Metadata) (param : String) (owner : Ty) :
    Expr → Except CompileError (Path × Ty)
  | .call method [source, .lambda params inner] ty =>
    if method = "Select" then do
      let (head, middle) ← ofBody metadata param owner source
      match params with
      | [element] =>
        let (tail, last) ← ofBody metadata element.name middle inner
        let path ← head.append tail
        pure (path, last)
      | _ => throw (.unsupported (.call method [source, .lambda params inner] ty))
    else ofMembers metadata param owner (.call method [source, .lambda params inner] ty)
  | body => ofMembers metadata param owner body

/-- The path that an argument gives. -/
def ofArgument (metadata : Metadata) (element : Ty) : Expr → Except CompileError Path
  | .constant (.string text) => ofText metadata element text
  | .lambda [param] body => Prod.fst <$> ofBody metadata param.name element body
  | .lambda params body => .error (.unsupported (.lambda params body))
  | other => .error (other.nonConstant "Expand" "path string or member lambda")

/-- The text of the path that an argument gives. A path of navigations expands them all, and the
empty path expands everything. -/
def text (metadata : Metadata) (element : Ty) (argument : Expr) : Except CompileError String := do
  let path ← ofArgument metadata element argument
  if path.isEmpty then pure Path.wildcard
  else if path.isNavigationOnly then path.expandText
  else path.selectExpandText

end ServiceQuery.Expand
