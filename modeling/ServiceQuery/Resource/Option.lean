import ServiceQuery.Expr.Basic

namespace ServiceQuery

/-- Whether the number of elements is asked for. -/
inductive CountOption where
  | none
  | true
  | false
  deriving DecidableEq

/-- One key of an ordering. -/
structure OrderSelector where
  expr : Expr
  descending : Bool

/-- An option that filters, orders or cuts a collection. -/
inductive SequenceOption where
  /-- Keeps the elements that satisfy every predicate. -/
  | filter (predicates : List Expr)
  /-- Orders by the first selector, then by the next among equals. -/
  | orderBy (selectors : List OrderSelector)
  | skip (count : Nat)
  | take (count : Nat)

namespace SequenceOption

/-- The largest count that an option holds. -/
def maxCount : Nat := UInt64.size - 1

/-- The name of the operator that gives the option. -/
def methodName : SequenceOption → String
  | filter _ => "Where"
  | orderBy _ => "OrderBy"
  | skip _ => "Skip"
  | take _ => "Take"

/-- Whether two options are of one kind. -/
def sameKind : SequenceOption → SequenceOption → Bool
  | filter _, filter _ | orderBy _, orderBy _ | skip _, skip _ | take _, take _ => true
  | _, _ => false

/-- The single option that stands for `previous` followed by `next`: predicates are joined, skipped
counts are added up to the largest count, the smaller of two taken counts stays, and a later ordering
replaces an earlier one. -/
def compose (next previous : SequenceOption) : SequenceOption :=
  match next, previous with
  | filter new, filter old => filter (old ++ new)
  | skip new, skip old => skip (min (old + new) maxCount)
  | take new, take old => take (min old new)
  | next, _ => next

/-- Adds an option to a list in which every kind occurs at most once. -/
def insert (option : SequenceOption) : List SequenceOption → List SequenceOption
  | [] => [option]
  | existing :: rest =>
    if existing.sameKind option then option.compose existing :: rest
    else existing :: insert option rest

end SequenceOption

end ServiceQuery
