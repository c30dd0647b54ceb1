import ServiceQuery.Proofs.Uri.Reader

/-!
# What the text of an expression says

The text of an expression leaves out types and conversions, and it does not tell how conjunctions or
disjunctions of more than two operands are nested.
-/

namespace ServiceQuery

mutual

/-- The expression without types, targets and conversions, with conjunctions and disjunctions
associated to the left. The two ways to search a constant array are one. -/
def Expr.skeleton : Expr → Expr
  | .constant (.array _ items) => .constant (.array .object items)
  | .input _ => .input ⟨0, .object⟩
  | .member source name _ => .member source.skeleton name .object
  | .unary .convert operand _ => operand.skeleton
  | .unary op operand _ => .unary op operand.skeleton .object
  | .binary op left right => left.skeleton.join op right.skeleton
  | .invoke receiver method args _ => .invoke receiver.skeleton method (skeletons args) .object
  | .call "Contains" [.constant (.array _ items), item] _ => item.skeleton.isIn items
  | .call method args _ => .call method (skeletons args) .object
  | expr => expr

/-- The same for a list of expressions. -/
def Expr.skeletons : List Expr → List Expr
  | [] => []
  | expr :: rest => expr.skeleton :: skeletons rest

end

namespace Uri

/-- A constant whose text tells its value. -/
inductive IsLiteral : Value → Prop
  | null : IsLiteral .null
  | bool (b : Bool) : IsLiteral (.bool b)
  | int32 {n : Int32} (h : 0 ≤ n) : IsLiteral (.int32 n)
  | string (s : String) : IsLiteral (.string s)

/-- A member name that is an identifier, and no word with a meaning of its own. -/
structure IsName (name : String) : Prop where
  chars : ∀ c ∈ name.toList, isDelimiter c = false ∧ c ≠ '/'
  start : ∃ c rest, name.toList = c :: rest ∧ c.isDigit = false
  plain : name ∉ ["$it", "not", "null", "true", "false", "Length", "Count"]

/-- A path of members from the element of a resource, with conversions anywhere. -/
inductive IsMemberPath : Expr → Prop
  | input (ref : InputRef) : IsMemberPath (.input ref)
  | member {source : Expr} {name : String} {ty : Ty} (path : IsMemberPath source)
    (named : IsName name) : IsMemberPath (.member source name ty)
  | convert {operand : Expr} {ty : Ty} (path : IsMemberPath operand) :
    IsMemberPath (.unary .convert operand ty)

/-- An expression of literals, member paths, operators and functions. A sum is not of strings, and
constant arrays are only searched. -/
inductive Writable : Expr → Prop
  | literal {value : Value} (h : IsLiteral value) : Writable (.constant value)
  | path {expr : Expr} (h : IsMemberPath expr) : Writable expr
  | unary {op : UnaryOp} {operand : Expr} {ty : Ty} (h : Writable operand) :
    Writable (.unary op operand ty)
  | binary {op : BinaryOp} {left right : Expr} (hl : Writable left) (hr : Writable right)
    (numeric : op = .add → isString left = false ∧ isString right = false) :
    Writable (.binary op left right)
  | invoke {receiver : Expr} {method : String} {args : List Expr} {ty : Ty}
    (hr : Writable receiver) (ha : ∀ arg ∈ args, Writable arg) :
    Writable (.invoke receiver method args ty)
  | call {method : String} {args : List Expr} {ty : Ty}
    (rounds : method ∈ ["Round", "Floor", "Ceiling"]) (ha : ∀ arg ∈ args, Writable arg) :
    Writable (.call method args ty)
  | invokeContains {element : Ty} {items : List Value} {item : Expr} {ty : Ty}
    (hi : ∀ value ∈ items, IsLiteral value) (h : Writable item) :
    Writable (.invoke (.constant (.array element items)) "Contains" [item] ty)
  | callContains {element : Ty} {items : List Value} {item : Expr} {ty : Ty}
    (hi : ∀ value ∈ items, IsLiteral value) (h : Writable item) :
    Writable (.call "Contains" [.constant (.array element items), item] ty)

end Uri

end ServiceQuery
