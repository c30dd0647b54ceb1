import ServiceQuery.Expr.Basic

namespace ServiceQuery

/-- An aggregation that a service computes. -/
inductive AggregationMethod where
  | sum
  | average
  | min
  | max
  | countDistinct
  /-- The number of elements of a group. -/
  | count
  deriving DecidableEq

namespace AggregationMethod

/-- The aggregation that a method names. -/
def ofMethod? : String → Option AggregationMethod
  | "Sum" => some sum
  | "Average" => some average
  | "Min" => some min
  | "Max" => some max
  | "CountDistinct" => some countDistinct
  | "Count" | "LongCount" => some count
  | _ => none

/-- The name of an aggregation. -/
def name : AggregationMethod → String
  | sum => "Sum"
  | average => "Average"
  | min => "Min"
  | max => "Max"
  | countDistinct => "CountDistinct"
  | count => "Count"

/-- The word for an aggregation in a request. -/
def keyword : AggregationMethod → String
  | sum => "sum"
  | average => "average"
  | min => "min"
  | max => "max"
  | countDistinct => "countdistinct"
  | count => "$count"

/-- Whether the aggregation is of a value selected from each element. -/
def takesSelector : AggregationMethod → Bool
  | count => false
  | _ => true

/-- Whether the selected values must be numbers. -/
def requiresNumeric : AggregationMethod → Bool
  | sum | average | min | max => true
  | countDistinct | count => false

end AggregationMethod

/-- An aggregated value and the name it is given. -/
structure Aggregation where
  expr : Option Expr
  method : AggregationMethod
  name : String

/-- What a resource groups by and aggregates. -/
structure Apply where
  /-- Predicates on the elements that are grouped. -/
  predicates : List Expr := []
  /-- The distinct expressions grouped by. -/
  grouping : List Expr := []
  /-- The members of the group key. -/
  keys : List (String × Expr) := []
  /-- The members of a grouped element; the empty name stands for the element itself. -/
  members : List (String × Expr) := []
  aggregations : List Aggregation := []
  /-- What is built from each group. -/
  result : Option Lambda := none

namespace Apply

/-- Adds a member of the group key. -/
def addKey (apply : Apply) (name : String) (expr : Expr) : Apply :=
  { apply with keys := apply.keys ++ [(name, expr)] }

/-- Adds a grouping expression unless it is there. -/
def addGrouping (apply : Apply) (expr : Expr) : Apply :=
  if apply.grouping.any fun existing => existing.same expr then apply
  else { apply with grouping := apply.grouping ++ [expr] }

/-- Adds a member of the grouped element. -/
def addMember (apply : Apply) (name : String) (expr : Expr) : Apply :=
  { apply with members := apply.members ++ [(name, expr)] }

/-- Adds an aggregation. -/
def addAggregation (apply : Apply) (aggregation : Aggregation) : Apply :=
  { apply with aggregations := apply.aggregations ++ [aggregation] }

/-- The first key member with the given name. -/
def key? (apply : Apply) (name : String) : Option Expr := apply.keys.lookup name

/-- The first member of the grouped element with the given name. -/
def member? (apply : Apply) (name : String) : Option Expr := apply.members.lookup name

/-- Whether nothing of it is written into a request. -/
def isEmpty (apply : Apply) : Bool :=
  apply.predicates.isEmpty && apply.grouping.isEmpty && apply.aggregations.isEmpty

end Apply

end ServiceQuery
