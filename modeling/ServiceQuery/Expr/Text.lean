import ServiceQuery.Expr.Basic

namespace ServiceQuery

/-- The text of a parameter list: one name stands alone, any other number in parentheses. -/
def Param.listText : List Param → String
  | [param] => param.name
  | params => "(" ++ Text.join ", " (params.map Param.name) ++ ")"

namespace Expr

mutual

/-- The text of an expression. -/
def text : Expr → String
  | constant value => value.text
  | parameter param => param.name
  | member source name _ => source.text ++ "." ++ name
  | invoke receiver method args _ =>
    receiver.text ++ "." ++ method ++ "(" ++ Text.join ", " (texts args) ++ ")"
  | call method args _ => method ++ "(" ++ Text.join ", " (texts args) ++ ")"
  | lambda params body => Param.listText params ++ " => " ++ body.text
  | newRecord _ members => "new \x7b " ++ Text.join ", " (memberTexts members) ++ " \x7d"
  | newObject ty members =>
    "new " ++ ty.text ++ " \x7b " ++ Text.join ", " (memberTexts members) ++ " \x7d"
  | newArray _ items => "new[] \x7b " ++ Text.join ", " (texts items) ++ " \x7d"
  | unary .not operand _ => "!(" ++ operand.text ++ ")"
  | unary .negate operand _ => "-" ++ operand.text
  | unary .convert operand ty => "(" ++ ty.text ++ ")" ++ operand.text
  | binary op left right => "(" ++ left.text ++ " " ++ op.symbol ++ " " ++ right.text ++ ")"
  | conditional test whenTrue whenFalse =>
    "(" ++ test.text ++ " ? " ++ whenTrue.text ++ " : " ++ whenFalse.text ++ ")"
  | root origin => origin.name
  | input _ => "$it"

/-- The texts of a list of expressions. -/
def texts : List Expr → List String
  | [] => []
  | expr :: rest => expr.text :: texts rest

/-- The texts of named members. -/
def memberTexts : List (String × Expr) → List String
  | [] => []
  | (name, expr) :: rest => (name ++ " = " ++ expr.text) :: memberTexts rest

end

end Expr

/-- The text of a lambda. -/
def Lambda.text (f : Lambda) : String := f.toExpr.text

end ServiceQuery
