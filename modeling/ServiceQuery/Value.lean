import ServiceQuery.Decimal.Text
import ServiceQuery.Number.Text
import ServiceQuery.Ty

/-!
# Values

Constants of a query and the results of evaluating closed expressions.
-/

namespace ServiceQuery

/-- A constant value. -/
inductive Value where
  | null
  | bool (b : Bool)
  | int32 (n : Int32)
  | int64 (n : Int64)
  | single (x : Float32)
  | double (x : Float)
  | decimal (d : Decimal)
  | string (s : String)
  /-- Items in order, with the type they were declared with. -/
  | array (element : Ty) (items : List Value)
  /-- Named values in order. -/
  | record (fields : List (String × Value))
  deriving Inhabited

namespace Value

/-- Whether the value is null. -/
def isNull : Value → Bool
  | null => true
  | _ => false

mutual

/-- The type of a value. -/
def ty : Value → Ty
  | null => .object
  | bool _ => .bool
  | int32 _ => .int32
  | int64 _ => .int64
  | single _ => .single
  | double _ => .double
  | decimal _ => .decimal
  | string _ => .string
  | array element _ => .collection element
  | record fields => .record (fieldTys fields)

/-- The types of the fields of a record. -/
def fieldTys : List (String × Value) → List (String × Ty)
  | [] => []
  | (name, value) :: rest => (name, value.ty) :: fieldTys rest

end

mutual

/-- The text of a value. -/
def text : Value → String
  | null => "null"
  | bool b => if b then "true" else "false"
  | int32 n => toString n.toInt
  | int64 n => toString n.toInt ++ "L"
  | single x => Number.float32Text x ++ "f"
  | double x => Number.float64Text x
  | decimal d => d.text ++ "m"
  | string s => "\"" ++ s ++ "\""
  | array _ items => "[" ++ Text.join ", " (itemTexts items) ++ "]"
  | record fields => "\x7b " ++ Text.join ", " (fieldTexts fields) ++ " \x7d"

/-- The texts of the items of an array. -/
def itemTexts : List Value → List String
  | [] => []
  | item :: rest => item.text :: itemTexts rest

/-- The texts of the fields of a record. -/
def fieldTexts : List (String × Value) → List String
  | [] => []
  | (name, value) :: rest => (name ++ " = " ++ value.text) :: fieldTexts rest

end

/-- The text of a value inside a string: strings stand as they are, numbers without a suffix, and
null is empty. -/
def plainText : Value → String
  | null => ""
  | string s => s
  | int64 n => toString n.toInt
  | single x => Number.float32Text x
  | decimal d => d.text
  | value => value.text

/-- The integer that an integral value denotes. -/
def integer? : Value → Option Int
  | int32 n => some n.toInt
  | int64 n => some n.toInt
  | _ => none

/-- The first field of a record with the given name. -/
def field? (name : String) : Value → Option Value
  | record fields => fields.lookup name
  | _ => none

mutual

/-- Structural sameness. Floating-point numbers and decimals are compared as numbers, so nothing
is the same as a value that is not a number. -/
def same : Value → Value → Bool
  | null, null => true
  | bool a, bool b => a == b
  | int32 a, int32 b => a == b
  | int64 a, int64 b => a == b
  | single a, single b => a == b
  | double a, double b => a == b
  | decimal a, decimal b => a.numEq b
  | string a, string b => a == b
  | array s as, array t bs => s == t && sameItems as bs
  | record as, record bs => sameFields as bs
  | _, _ => false

/-- Sameness of item lists. -/
def sameItems : List Value → List Value → Bool
  | [], [] => true
  | a :: as, b :: bs => a.same b && sameItems as bs
  | _, _ => false

/-- Sameness of field lists: the same names in the same order with the same values. -/
def sameFields : List (String × Value) → List (String × Value) → Bool
  | [], [] => true
  | (m, a) :: as, (n, b) :: bs => m == n && a.same b && sameFields as bs
  | _, _ => false

end

end Value

end ServiceQuery
