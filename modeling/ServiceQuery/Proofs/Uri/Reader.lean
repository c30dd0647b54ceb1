import ServiceQuery.Proofs.Uri.Literal
import ServiceQuery.Uri.Expression

/-!
# Reading expressions back

A reader for the texts of expressions: the text is cut into tokens, and a machine with a stack of
unfinished operators, calls and lists takes them one by one. An operator finishes the operators
before it that bind as tightly as it does or tighter.
-/

namespace ServiceQuery

/-- Joins two operands of a conjunction or disjunction with all operators of it associated to the
left. -/
def Expr.joinLeft (op : BinaryOp) (left : Expr) : Expr → Expr
  | .binary inner first second =>
    if inner = op then .binary op (joinLeft op left first) second
    else .binary op left (.binary inner first second)
  | right => .binary op left right

/-- Two operands under an operator; conjunctions and disjunctions are associated to the left. -/
def Expr.join (op : BinaryOp) (left right : Expr) : Expr :=
  if op.isLogical then left.joinLeft op right else .binary op left right

/-- The test whether a value is in a list. -/
def Expr.isIn (item : Expr) (values : List Value) : Expr :=
  .invoke (.constant (.array .object values)) "Contains" [item] .object

namespace Uri

/-- A piece of the text of an expression. -/
inductive Token where
  | opened
  | closed
  | comma
  | minus
  | word (chars : List Char)
  /-- A word with an opening parenthesis right after it. -/
  | function (name : List Char)
  /-- The characters between two quotes. -/
  | quoted (content : List Char)

/-- Whether a character ends a word. -/
def isDelimiter (c : Char) : Bool :=
  c == ' ' || c == '(' || c == ')' || c == ',' || c == '\'' || c == '-'

/-- The token of a word, if there is one. -/
def wordToken (word : List Char) : List Token :=
  if word.isEmpty then [] else [.word word]

mutual

/-- The tokens of a text after the characters of a word. -/
def scan (word : List Char) : List Char → List Token
  | [] => wordToken word
  | c :: rest =>
    if c = '(' then (if word.isEmpty then .opened else .function word) :: scan [] rest
    else if c = ')' then wordToken word ++ .closed :: scan [] rest
    else if c = ',' then wordToken word ++ .comma :: scan [] rest
    else if c = '-' then wordToken word ++ .minus :: scan [] rest
    else if c = '\'' then wordToken word ++ scanQuoted [] rest
    else if c = ' ' then wordToken word ++ scan [] rest
    else scan (word ++ [c]) rest

/-- The tokens of a text after a quote and some characters. -/
def scanQuoted (content : List Char) : List Char → List Token
  | [] => [.quoted content]
  | c :: rest =>
    if c = '\'' then .quoted content :: scan [] rest else scanQuoted (content ++ [c]) rest

end

/-- Something unfinished that an operand is read for. -/
inductive Frame where
  /-- An expression in parentheses. -/
  | group
  /-- A function with the arguments read so far. -/
  | call (function : String) (args : List Expr)
  /-- An operator before its operand. -/
  | unary (op : UnaryOp)
  /-- An operator after its left operand. -/
  | binary (op : BinaryOp) (left : Expr)
  /-- A list of values that is searched for an item. -/
  | among (item : Expr) (values : List Value)

/-- Where the machine stands. -/
inductive Cursor where
  /-- Before an operand. -/
  | operand
  /-- After an operand. -/
  | after (expr : Expr)
  /-- Before the list that is searched for an item. -/
  | list (item : Expr)

/-- The frames of the machine, innermost first, and where it stands. -/
abbrev State := List Frame × Cursor

/-- Finishes the operators on the stack that bind as tightly as the level or tighter. -/
def settle (level : Precedence) : List Frame → Expr → List Frame × Expr
  | .unary op :: stack, expr =>
    if level ≤ .unary then settle level stack (.unary op expr .object)
    else (.unary op :: stack, expr)
  | .binary op left :: stack, expr =>
    if level ≤ operatorPrecedence op then settle level stack (left.join op expr)
    else (.binary op left :: stack, expr)
  | stack, expr => (stack, expr)

/-- The operators with two operands. -/
def binaryOps : List BinaryOp :=
  [.add, .subtract, .multiply, .divide, .modulo, .equal, .notEqual, .lessThan, .lessThanOrEqual,
    .greaterThan, .greaterThanOrEqual, .andAlso, .orElse]

/-- The operator that a word stands for. -/
def operator? (word : List Char) : Option BinaryOp :=
  binaryOps.find? fun op => (operatorWord op).toList == word

/-- The member path whose names are given, from the root. -/
def pathOf : List (List Char) → Expr
  | [] => .input ⟨0, .object⟩
  | first :: rest =>
    let root := .input ⟨0, .object⟩
    let start :=
      if first = "$it".toList then root else .member root (String.ofList first) .object
    rest.foldl (fun source name => .member source (String.ofList name) .object) start

/-- The operand that a word stands for. -/
def operandOf (word : List Char) : Expr :=
  if word.all Char.isDigit then .constant (.int32 (readNumber word))
  else if word = "null".toList then .constant .null
  else if word = "true".toList then .constant (.bool true)
  else if word = "false".toList then .constant (.bool false)
  else pathOf (Text.split (· == '/') word)

/-- The call that a function with its arguments stands for. -/
def applied? (function : String) (args : List Expr) : Option Expr :=
  match function, args with
  | "contains", [a, b] => some (.invoke a "Contains" [b] .object)
  | "startswith", [a, b] => some (.invoke a "StartsWith" [b] .object)
  | "endswith", [a, b] => some (.invoke a "EndsWith" [b] .object)
  | "indexof", [a, b] => some (.invoke a "IndexOf" [b] .object)
  | "substring", [a, b] => some (.invoke a "Substring" [b] .object)
  | "substring", [a, b, c] => some (.invoke a "Substring" [b, c] .object)
  | "tolower", [a] => some (.invoke a "ToLower" [] .object)
  | "toupper", [a] => some (.invoke a "ToUpper" [] .object)
  | "trim", [a] => some (.invoke a "Trim" [] .object)
  | "round", [a] => some (.call "Round" [a] .object)
  | "floor", [a] => some (.call "Floor" [a] .object)
  | "ceiling", [a] => some (.call "Ceiling" [a] .object)
  | _, _ => none

/-- A token where an operand is expected. -/
def stepOperand (stack : List Frame) : Token → Option State
  | .opened => some (.group :: stack, .operand)
  | .function name => some (.call (String.ofList name) [] :: stack, .operand)
  | .minus => some (.unary .negate :: stack, .operand)
  | .word word =>
    if word = "not".toList then some (.unary .not :: stack, .operand)
    else some (stack, .after (operandOf word))
  | .quoted content =>
    (readString? content).map fun text => (stack, .after (.constant (.string text)))
  | .closed =>
    match stack with
    | .among item [] :: stack => some (stack, .after (item.isIn []))
    | _ => none
  | .comma => none

/-- A token after an operand. -/
def stepAfter (stack : List Frame) (expr : Expr) : Token → Option State
  | .word word =>
    if word = "in".toList then
      let (stack, item) := settle .relational stack expr
      some (stack, .list item)
    else
      (operator? word).map fun op =>
        let (stack, left) := settle (operatorPrecedence op) stack expr
        (.binary op left :: stack, .operand)
  | .comma =>
    match settle 0 stack expr with
    | (.call function args :: stack, arg) =>
      some (.call function (args ++ [arg]) :: stack, .operand)
    | (.among item values :: stack, .constant value) =>
      some (.among item (values ++ [value]) :: stack, .operand)
    | _ => none
  | .closed =>
    match settle 0 stack expr with
    | (.group :: stack, inner) => some (stack, .after inner)
    | (.call function args :: stack, arg) =>
      (applied? function (args ++ [arg])).map fun result => (stack, .after result)
    | (.among item values :: stack, .constant value) =>
      some (stack, .after (item.isIn (values ++ [value])))
    | _ => none
  | _ => none

/-- What the machine does with one token. -/
def step : State → Token → Option State
  | (stack, .operand), token => stepOperand stack token
  | (stack, .after expr), token => stepAfter stack expr token
  | (stack, .list item), .opened => some (.among item [] :: stack, .operand)
  | (_, .list _), _ => none

/-- What the machine does with a list of tokens. -/
def run (tokens : List Token) (state : State) : Option State := tokens.foldlM step state

/-- The expression that a text stands for. -/
def read? (text : String) : Option Expr :=
  match run (scan [] text.toList) ([], .operand) with
  | some (stack, .after expr) =>
    match settle 0 stack expr with
    | ([], result) => some result
    | _ => none
  | _ => none

end Uri

end ServiceQuery
