import ServiceQuery.Expr.Basic

/-!
# Operators of a query

A query is a chain of calls whose first argument is the source of the operator.
-/

namespace ServiceQuery

/-- An operator on a resource with its arguments other than the source. -/
inductive Operator where
  | filter (predicate : Expr)
  | orderBy (key : Expr) (descending : Bool)
  /-- A further key of the ordering before it. -/
  | thenBy (key : Expr) (descending : Bool)
  | skip (count : Expr)
  | take (count : Expr)
  | select (selector : Expr)
  /-- Navigation to a collection, with a function of the source and the target elements. -/
  | selectMany (selector : Expr) (result : Option Expr)
  /-- Grouping by a key, with one to three selectors. -/
  | groupBy (selectors : List Expr)
  | expand (path : Expr)
  | addOption (name value : Expr)
  | includeCount (flag : Option Expr)

/-- The operator that a method with the given arguments after the source stands for. -/
def Operator.ofCall? (method : String) (args : List Expr) : Option Operator :=
  match method, args with
  | "Where", [predicate] => some (.filter predicate)
  | "OrderBy", [key] => some (.orderBy key false)
  | "OrderByDescending", [key] => some (.orderBy key true)
  | "ThenBy", [key] => some (.thenBy key false)
  | "ThenByDescending", [key] => some (.thenBy key true)
  | "Skip", [count] => some (.skip count)
  | "Take", [count] => some (.take count)
  | "Select", [selector] => some (.select selector)
  | "SelectMany", [selector] => some (.selectMany selector none)
  | "SelectMany", [selector, result] => some (.selectMany selector (some result))
  | "GroupBy", [key] => some (.groupBy [key])
  | "GroupBy", [key, other] => some (.groupBy [key, other])
  | "GroupBy", [key, element, result] => some (.groupBy [key, element, result])
  | "Expand", [path] => some (.expand path)
  | "AddQueryOption", [name, value] => some (.addOption name value)
  | "IncludeCount", [] => some (.includeCount none)
  | "IncludeCount", [flag] => some (.includeCount (some flag))
  | _, _ => none

/-- An operator that may only come last. -/
inductive Terminal where
  /-- The number of elements. -/
  | count
  /-- One element, for which up to `limit` elements are asked for. -/
  | element (limit : Nat)
  /-- An aggregation of all elements. -/
  | aggregate
  deriving DecidableEq

/-- The terminal operator that a method stands for. An only element is told from a first one by
asking for a second. -/
def Terminal.ofMethod? : String → Option Terminal
  | "Count" | "LongCount" => some .count
  | "First" | "FirstOrDefault" => some (.element 1)
  | "Single" | "SingleOrDefault" => some (.element 2)
  | "Sum" | "Average" | "Min" | "Max" | "CountDistinct" => some .aggregate
  | _ => none

end ServiceQuery
