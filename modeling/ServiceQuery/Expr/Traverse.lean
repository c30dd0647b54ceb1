import ServiceQuery.Expr.Basic

/-!
# Traversals of expressions

Every pass over expressions is an instance of one rebuilding and one gathering traversal.
-/

namespace ServiceQuery.Expr

section Transform

variable {m : Type → Type} [Monad m] (replace? : Expr → Option (m Expr))
  (complete : Expr → Expr → m Expr)

/-- Replaces a node, or else completes it after its children have been rebuilt. -/
@[macro_inline]
def visit (node : Expr) (rebuild : m Expr) : m Expr :=
  match replace? node with
  | some result => result
  | none => rebuild >>= complete node

mutual

/-- Rebuilds an expression. A node for which `replace?` has an answer becomes that answer; of any
other node the children are rebuilt in evaluation order, and `complete` receives the node as it was
and as rebuilt. -/
def transformM : Expr → m Expr
  | constant value => visit replace? complete (constant value) (pure (constant value))
  | parameter param => visit replace? complete (parameter param) (pure (parameter param))
  | root origin => visit replace? complete (root origin) (pure (root origin))
  | input ref => visit replace? complete (input ref) (pure (input ref))
  | member source name ty =>
    visit replace? complete (member source name ty) do
      let source ← transformM source
      pure (member source name ty)
  | invoke receiver method args ty =>
    visit replace? complete (invoke receiver method args ty) do
      let receiver ← transformM receiver
      let args ← transformListM args
      pure (invoke receiver method args ty)
  | call method args ty =>
    visit replace? complete (call method args ty) do
      let args ← transformListM args
      pure (call method args ty)
  | lambda params body =>
    visit replace? complete (lambda params body) do
      let body ← transformM body
      pure (lambda params body)
  | newRecord ty members =>
    visit replace? complete (newRecord ty members) do
      let members ← transformMembersM members
      pure (newRecord ty members)
  | newObject ty members =>
    visit replace? complete (newObject ty members) do
      let members ← transformMembersM members
      pure (newObject ty members)
  | newArray element items =>
    visit replace? complete (newArray element items) do
      let items ← transformListM items
      pure (newArray element items)
  | unary op operand ty =>
    visit replace? complete (unary op operand ty) do
      let operand ← transformM operand
      pure (unary op operand ty)
  | binary op left right =>
    visit replace? complete (binary op left right) do
      let left ← transformM left
      let right ← transformM right
      pure (binary op left right)
  | conditional test whenTrue whenFalse =>
    visit replace? complete (conditional test whenTrue whenFalse) do
      let test ← transformM test
      let whenTrue ← transformM whenTrue
      let whenFalse ← transformM whenFalse
      pure (conditional test whenTrue whenFalse)

/-- Rebuilds a list of expressions. -/
def transformListM : List Expr → m (List Expr)
  | [] => pure []
  | expr :: rest => do
    let expr ← transformM expr
    let rest ← transformListM rest
    pure (expr :: rest)

/-- Rebuilds named members. -/
def transformMembersM : List (String × Expr) → m (List (String × Expr))
  | [] => pure []
  | (name, expr) :: rest => do
    let expr ← transformM expr
    let rest ← transformMembersM rest
    pure ((name, expr) :: rest)

end

end Transform

/-- Rebuilds an expression where the topmost nodes with a replacement are replaced. -/
def replaceM {m : Type → Type} [Monad m] (replace? : Expr → Option (m Expr)) (expr : Expr) :
    m Expr :=
  expr.transformM replace? fun _ rebuilt => pure rebuilt

/-- Replaces the topmost nodes that have a replacement. -/
def replace (replace? : Expr → Option Expr) (expr : Expr) : Expr :=
  Id.run (expr.replaceM fun node => (replace? node).map pure)

section Gather

variable {α : Type} (find? : Expr → Option (List α))

mutual

/-- Concatenates, from left to right, what `find?` finds at the topmost nodes where it answers;
nothing below such a node is visited. -/
def gather : Expr → List α
  | constant value => (find? (constant value)).getD []
  | parameter param => (find? (parameter param)).getD []
  | root origin => (find? (root origin)).getD []
  | input ref => (find? (input ref)).getD []
  | member source name ty => (find? (member source name ty)).getD (gather source)
  | invoke receiver method args ty =>
    (find? (invoke receiver method args ty)).getD (gather receiver ++ gatherList args)
  | call method args ty => (find? (call method args ty)).getD (gatherList args)
  | lambda params body => (find? (lambda params body)).getD (gather body)
  | newRecord ty members => (find? (newRecord ty members)).getD (gatherMembers members)
  | newObject ty members => (find? (newObject ty members)).getD (gatherMembers members)
  | newArray element items => (find? (newArray element items)).getD (gatherList items)
  | unary op operand ty => (find? (unary op operand ty)).getD (gather operand)
  | binary op left right => (find? (binary op left right)).getD (gather left ++ gather right)
  | conditional test whenTrue whenFalse =>
    (find? (conditional test whenTrue whenFalse)).getD
      (gather test ++ gather whenTrue ++ gather whenFalse)

/-- Gathers from a list of expressions. -/
def gatherList : List Expr → List α
  | [] => []
  | expr :: rest => gather expr ++ gatherList rest

/-- Gathers from named members. -/
def gatherMembers : List (String × Expr) → List α
  | [] => []
  | (_, expr) :: rest => gather expr ++ gatherMembers rest

end

end Gather

/-- Whether some node of the tree satisfies `p`. -/
def any (p : Expr → Bool) (expr : Expr) : Bool :=
  !(expr.gather fun node => if p node then some [()] else none).isEmpty

/-- Whether the parameter with the given name occurs where no lambda rebinds it. -/
def references (name : String) (expr : Expr) : Bool :=
  let occurrences := expr.gather fun
    | parameter param => some (if param.name == name then [()] else [])
    | lambda params _ => if Param.declares params name then some [] else none
    | _ => none
  !occurrences.isEmpty

mutual

/-- Whether some parameter occurs that is neither among the `declared` names nor declared by a
lambda around it. -/
def hasFreeParameterIn (declared : List String) : Expr → Bool
  | parameter param => !declared.contains param.name
  | lambda params body => body.hasFreeParameterIn (params.map Param.name ++ declared)
  | constant _ | root _ | input _ => false
  | member source _ _ => source.hasFreeParameterIn declared
  | invoke receiver _ args _ =>
    receiver.hasFreeParameterIn declared || hasFreeParameterInList declared args
  | call _ args _ => hasFreeParameterInList declared args
  | newRecord _ members | newObject _ members => hasFreeParameterInMembers declared members
  | newArray _ items => hasFreeParameterInList declared items
  | unary _ operand _ => operand.hasFreeParameterIn declared
  | binary _ left right => left.hasFreeParameterIn declared || right.hasFreeParameterIn declared
  | conditional test whenTrue whenFalse =>
    test.hasFreeParameterIn declared || whenTrue.hasFreeParameterIn declared ||
      whenFalse.hasFreeParameterIn declared

/-- The same for some expression of a list. -/
def hasFreeParameterInList (declared : List String) : List Expr → Bool
  | [] => false
  | expr :: rest => expr.hasFreeParameterIn declared || hasFreeParameterInList declared rest

/-- The same for some named member. -/
def hasFreeParameterInMembers (declared : List String) : List (String × Expr) → Bool
  | [] => false
  | (_, expr) :: rest => expr.hasFreeParameterIn declared || hasFreeParameterInMembers declared rest

end

/-- Whether some parameter of the tree is not declared by a lambda inside it. -/
def hasFreeParameter (expr : Expr) : Bool := expr.hasFreeParameterIn []

end ServiceQuery.Expr
