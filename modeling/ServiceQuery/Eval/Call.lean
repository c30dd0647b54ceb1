import ServiceQuery.Eval.Arithmetic
import ServiceQuery.Text.Blank
import ServiceQuery.Text.Case
import ServiceQuery.Text.Search

namespace ServiceQuery.Value

/-- A string from its characters. -/
def ofChars (chars : List Char) : Value := string (String.ofList chars)

/-- The member `name` of the value of `source`: a field of a record, or the length of a string or
array. -/
def readMember (value : Value) (name : String) (source : Expr) : Except EvalError Value :=
  match value with
  | null => .error (.nullReference source)
  | record fields =>
    match fields.lookup name with
    | some field => .ok field
    | none => .error (.missingMember name source)
  | string s =>
    if name = "Length" then fit32 source s.length else .error (.missingMember name source)
  | array _ items =>
    if name = "Length" ∨ name = "Count" then fit32 source items.length
    else .error (.missingMember name source)
  | _ => .error (.missingMember name source)

/-- The characters of a string argument of `method`. -/
def chars (method : String) : Value → Except EvalError (List Char)
  | string s => .ok s.toList
  | _ => .error (.unsupportedCall method)

/-- A non-negative integer argument in `expr`. -/
def index (expr : Expr) (value : Value) : Except EvalError Nat :=
  match value.integer? with
  | some (.ofNat n) => .ok n
  | _ => .error (.outOfRange expr)

/-- Minus one, zero or one. -/
def ofOrdering : Ordering → Value
  | .lt => int32 (-1)
  | .eq => int32 0
  | .gt => int32 1

/-- Whether a value equals an item of an array. -/
def isAmong (value : Value) (items : List Value) : Bool :=
  items.any fun item => item.equal value

/-- A method of a string, called in `expr`. -/
def invokeString (s : List Char) (method : String) (args : List Value) (expr : Expr) :
    Except EvalError Value :=
  match method, args with
  | "ToUpper", [] => .ok (ofChars (Text.upper s))
  | "ToLower", [] => .ok (ofChars (Text.lower s))
  | "Trim", [] => .ok (ofChars (Text.trim s))
  | "Contains", [part] => do
    let part ← part.chars method
    pure (bool (Text.occursIn part s))
  | "StartsWith", [part] => do
    let part ← part.chars method
    pure (bool (part.isPrefixOf s))
  | "EndsWith", [part] => do
    let part ← part.chars method
    pure (bool (part.isSuffixOf s))
  | "IndexOf", [part] => do
    let part ← part.chars method
    match Text.indexOf? part s with
    | some i => fit32 expr i
    | none => pure (int32 (-1))
  | "Substring", [start] => do
    let start ← start.index expr
    if s.length < start then .error (.outOfRange expr) else pure (ofChars (s.drop start))
  | "Substring", [start, length] => do
    let start ← start.index expr
    let length ← length.index expr
    if s.length < start + length then .error (.outOfRange expr)
    else pure (ofChars ((s.drop start).take length))
  | "Replace", [part, substitute] => do
    let part ← part.chars method
    let substitute ← substitute.chars method
    pure (ofChars (Text.replace part substitute s))
  | "CompareTo", [other] => do
    let other ← other.chars method
    pure (ofOrdering (compare (String.ofList s) (String.ofList other)))
  | _, _ => .error (.unsupportedCall method)

/-- A method called on a value in `expr`. -/
def invoke (receiver : Value) (method : String) (args : List Value) (expr : Expr) :
    Except EvalError Value :=
  match receiver, args with
  | null, _ => .error (.nullReference expr)
  | string s, args => invokeString s.toList method args expr
  | array _ items, [item] =>
    if method = "Contains" then .ok (bool (item.isAmong items))
    else .error (.unsupportedCall method)
  | _, _ => .error (.unsupportedCall method)

/-- A double rounded to an integer. -/
def roundDouble (method : String) (x : Float) : Float :=
  match method with
  | "Round" => Number.roundEven x
  | "Floor" => Number.floor x
  | _ => Number.ceiling x

/-- A decimal rounded to an integer. -/
def roundDecimal (method : String) (d : Decimal) : Decimal :=
  match method with
  | "Round" => d.round
  | "Floor" => d.floor
  | _ => d.ceiling

/-- A rounding function applied in `expr`. -/
def rounded (method : String) (value : Value) (expr : Expr) : Except EvalError Value :=
  match value with
  | double x => .ok (double (roundDouble method x))
  | decimal d => .ok (decimal (roundDecimal method d))
  | value => .error (.typeMismatch expr value.ty .double)

/-- A call without a receiver in `expr`. -/
def call (method : String) (args : List Value) (expr : Expr) : Except EvalError Value :=
  match method, args with
  | "Concat", parts => .ok (string (Text.join "" (parts.map plainText)))
  | "Compare", [string a, string b] => .ok (ofOrdering (compare a b))
  | "Contains", [array _ items, item] => .ok (bool (item.isAmong items))
  | "Round", [value] => rounded method value expr
  | "Floor", [value] => rounded method value expr
  | "Ceiling", [value] => rounded method value expr
  | "Abs", [value] => (value.absolute? expr).getD (.error (.unsupportedCall method))
  | _, _ => .error (.unsupportedCall method)

end ServiceQuery.Value
