import ServiceQuery.Value

/-!
# Query expressions

The tree of operators, calls and lambdas that a query is given as.

## Main definitions

* `Expr`: the nodes of a query expression.
* `Lambda`: parameters and a body.
* `Expr.ty`: the static type of an expression.
* `Expr.children`: the direct subexpressions, in evaluation order.
* `Expr.memberChain?`: the root and the names of a chain of member accesses.
* `Expr.same`: structural sameness, with constants compared by `Value.same`.
-/

namespace ServiceQuery

/-- A lambda parameter; its name identifies it inside the lambda. -/
structure Param where
  name : String
  ty : Ty
  deriving DecidableEq, Inhabited

/-- An operator with one operand. -/
inductive UnaryOp where
  | not
  | negate
  /-- Conversion to the type of the node. -/
  | convert
  deriving DecidableEq

/-- An operator with two operands. -/
inductive BinaryOp where
  | add
  | subtract
  | multiply
  | divide
  | modulo
  | equal
  | notEqual
  | lessThan
  | lessThanOrEqual
  | greaterThan
  | greaterThanOrEqual
  | andAlso
  | orElse
  deriving DecidableEq

namespace BinaryOp

/-- Whether the operator compares two operands of any type. -/
def isComparison : BinaryOp → Bool
  | equal | notEqual | lessThan | lessThanOrEqual | greaterThan | greaterThanOrEqual => true
  | _ => false

/-- Whether the operator is a conjunction or disjunction. -/
def isLogical : BinaryOp → Bool
  | andAlso | orElse => true
  | _ => false

/-- The symbol of an operator in expression texts. -/
def symbol : BinaryOp → String
  | add => "+"
  | subtract => "-"
  | multiply => "*"
  | divide => "/"
  | modulo => "%"
  | equal => "=="
  | notEqual => "!="
  | lessThan => "<"
  | lessThanOrEqual => "<="
  | greaterThan => ">"
  | greaterThanOrEqual => ">="
  | andAlso => "&&"
  | orElse => "||"

end BinaryOp

/-- What a resource root names on the service. -/
inductive RootKind where
  | entitySet
  | singleton
  /-- A function, whose parameters stand in the address. -/
  | function (parameters : List (String × Value)) (returnsCollection : Bool)
  /-- An action, whose parameters are sent in the body. -/
  | action (parameters : List (String × Value))
  deriving Inhabited

/-- The root of a query: an entity set, singleton, function or action of the service. -/
structure ResourceRoot where
  name : String
  elementType : Ty
  kind : RootKind
  deriving Inhabited

/-- Whether the root yields a collection. -/
def ResourceRoot.isCollection (root : ResourceRoot) : Bool :=
  match root.kind with
  | .entitySet => true
  | .singleton | .action _ => false
  | .function _ returnsCollection => returnsCollection

/-- The number that identifies a resource in a bound query. -/
abbrev ResourceId := Nat

/-- A reference to the element of a bound resource. -/
structure InputRef where
  target : ResourceId
  ty : Ty
  deriving DecidableEq, Inhabited

/-- A node of a query expression. -/
inductive Expr where
  | constant (value : Value)
  | parameter (param : Param)
  | member (source : Expr) (name : String) (ty : Ty)
  /-- A method called on a receiver. -/
  | invoke (receiver : Expr) (method : String) (args : List Expr) (ty : Ty)
  /-- A call without a receiver; a sequence operator has its source as first argument. -/
  | call (method : String) (args : List Expr) (ty : Ty)
  | lambda (params : List Param) (body : Expr)
  /-- Construction of an anonymous record. -/
  | newRecord (ty : Ty) (members : List (String × Expr))
  /-- Construction of a named type from member assignments. -/
  | newObject (ty : Ty) (members : List (String × Expr))
  | newArray (element : Ty) (items : List Expr)
  | unary (op : UnaryOp) (operand : Expr) (ty : Ty)
  | binary (op : BinaryOp) (left right : Expr)
  | conditional (test whenTrue whenFalse : Expr)
  | root (origin : ResourceRoot)
  /-- The element of a bound resource. -/
  | input (ref : InputRef)
  deriving Inhabited

/-- A lambda abstraction. -/
structure Lambda where
  params : List Param
  body : Expr
  deriving Inhabited

namespace Lambda

/-- The lambda as an expression. -/
def toExpr (f : Lambda) : Expr := .lambda f.params f.body

/-- The only parameter of a lambda with one parameter. -/
def param? (f : Lambda) : Option Param :=
  match f.params with
  | [param] => some param
  | _ => none

/-- Whether the lambda returns its only parameter. -/
def isIdentity (f : Lambda) : Bool :=
  match f.params, f.body with
  | [param], .parameter body => body.name == param.name
  | _, _ => false

end Lambda

/-- A parameter as an expression. -/
def Param.toExpr (param : Param) : Expr := .parameter param

/-- Whether one of the parameters has the given name. -/
def Param.declares (params : List Param) (name : String) : Bool :=
  params.any fun param => param.name == name

namespace Expr

/-- The static type of an expression. -/
def ty : Expr → Ty
  | constant value => value.ty
  | parameter param => param.ty
  | member _ _ ty | invoke _ _ _ ty | call _ _ ty | newRecord ty _ | newObject ty _
  | unary _ _ ty => ty
  | lambda _ _ => .object
  | newArray element _ => .collection element
  | binary op left _ => if op.isComparison || op.isLogical then .bool else left.ty
  | conditional _ whenTrue _ => whenTrue.ty
  | root origin =>
    if origin.isCollection then .collection origin.elementType else origin.elementType
  | input ref => ref.ty

/-- The direct subexpressions, in evaluation order. -/
def children : Expr → List Expr
  | constant _ | parameter _ | root _ | input _ => []
  | member source _ _ => [source]
  | invoke receiver _ args _ => receiver :: args
  | call _ args _ => args
  | lambda _ body => [body]
  | newRecord _ members | newObject _ members => members.map Prod.snd
  | newArray _ items => items
  | unary _ operand _ => [operand]
  | binary _ left right => [left, right]
  | conditional test whenTrue whenFalse => [test, whenTrue, whenFalse]

/-- The value of a constant. -/
def constant? : Expr → Option Value
  | constant value => some value
  | _ => none

/-- The lambda that an expression is. -/
def lambda? : Expr → Option Lambda
  | lambda params body => some ⟨params, body⟩
  | _ => none

/-- The named members of a construction. -/
def members? : Expr → Option (List (String × Expr))
  | newRecord _ members | newObject _ members => some members
  | _ => none

/-- Whether the expression is the parameter with the given name. -/
def isParameter (name : String) : Expr → Bool
  | parameter param => param.name == name
  | _ => false

/-- The expression under its outer conversions. -/
def withoutConversions : Expr → Expr
  | unary .convert operand _ => operand.withoutConversions
  | expr => expr

/-- The logical negation of an expression. -/
def logicalNot (expr : Expr) : Expr := unary .not expr .bool

/-- Construction of a record whose type lists the types of its members. -/
def recordOf (members : List (String × Expr)) : Expr :=
  newRecord (.record (members.map fun (name, expr) => (name, expr.ty))) members

/-- Follows member accesses, through conversions, down to a parameter or resource element; `names`
are the members already passed. -/
def memberChainOnto (names : List String) : Expr → Option (Expr × List String)
  | member source name _ => source.memberChainOnto (name :: names)
  | unary .convert operand _ => operand.memberChainOnto names
  | parameter param => some (parameter param, names)
  | input ref => some (input ref, names)
  | _ => none

/-- The root and the member names, root first, of a chain of member accesses over a parameter or a
resource element. Conversions in between are ignored. -/
def memberChain? (expr : Expr) : Option (Expr × List String) := expr.memberChainOnto []

/-- The member names of a chain that is rooted at the parameter with the given name. -/
def chainFrom? (name : String) (expr : Expr) : Option (List String) :=
  match expr.memberChain? with
  | some (parameter param, names) => if param.name == name then some names else none
  | _ => none

end Expr

/-- Sameness of named values, in order. -/
def RootKind.same : RootKind → RootKind → Bool
  | entitySet, entitySet => true
  | singleton, singleton => true
  | function a b, function c d => Value.sameFields a c && b == d
  | action a, action b => Value.sameFields a b
  | _, _ => false

/-- Sameness of resource roots. -/
def ResourceRoot.same (a b : ResourceRoot) : Bool :=
  a.name == b.name && a.elementType == b.elementType && a.kind.same b.kind

namespace Expr

mutual

/-- Structural sameness, with constants compared by `Value.same`. -/
def same : Expr → Expr → Bool
  | constant a, constant b => a.same b
  | parameter a, parameter b => a == b
  | member a m s, member b n t => a.same b && m == n && s == t
  | invoke a m as s, invoke b n bs t => a.same b && m == n && sameList as bs && s == t
  | call m as s, call n bs t => m == n && sameList as bs && s == t
  | lambda ps a, lambda qs b => ps == qs && a.same b
  | newRecord s as, newRecord t bs => s == t && sameMembers as bs
  | newObject s as, newObject t bs => s == t && sameMembers as bs
  | newArray s as, newArray t bs => s == t && sameList as bs
  | unary o a s, unary p b t => o == p && a.same b && s == t
  | binary o a b, binary p c d => o == p && a.same c && b.same d
  | conditional a b c, conditional d e f => a.same d && b.same e && c.same f
  | root a, root b => a.same b
  | input a, input b => a == b
  | _, _ => false

/-- Sameness of expression lists. -/
def sameList : List Expr → List Expr → Bool
  | [], [] => true
  | a :: as, b :: bs => a.same b && sameList as bs
  | _, _ => false

/-- Sameness of member lists. -/
def sameMembers : List (String × Expr) → List (String × Expr) → Bool
  | [], [] => true
  | (m, a) :: as, (n, b) :: bs => m == n && a.same b && sameMembers as bs
  | _, _ => false

end

end Expr

end ServiceQuery
