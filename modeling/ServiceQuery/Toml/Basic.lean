namespace ServiceQuery

/-- A TOML value. -/
inductive Toml where
  | string (text : String)
  | integer (n : Int)
  /-- A number with a fraction or an exponent, or one that is not finite, as it is written. -/
  | float (text : String)
  | boolean (b : Bool)
  /-- A date, a time or both, as it is written. -/
  | moment (text : String)
  | array (items : List Toml)
  | table (entries : List (String × Toml))
  deriving Inhabited

namespace Toml

/-- The text of a string. -/
def string? : Toml → Option String
  | string text => some text
  | _ => none

/-- The truth value of a boolean. -/
def boolean? : Toml → Option Bool
  | boolean b => some b
  | _ => none

/-- The entries of a table. -/
def table? : Toml → Option (List (String × Toml))
  | table entries => some entries
  | _ => none

/-- The fields of a record: a table, or an array of at least `least` values in the order of the
names. -/
def record? (names : List String) (least : Nat) : Toml → Option (List (String × Toml))
  | table entries => some entries
  | array items => if items.length < least then none else some (names.zip items)
  | _ => none

/-- An array decoded item by item. -/
def list? {α : Type} (decode : Toml → Option α) : Toml → Option (List α)
  | array items => items.mapM decode
  | _ => none

/-- A table decoded entry by entry, sorted by name. -/
def map? {α : Type} (decode : Toml → Option α) (toml : Toml) : Option (List (String × α)) := do
  let entries ← toml.table?
  let decoded ← entries.mapM fun (name, value) => (decode value).map (name, ·)
  pure (decoded.mergeSort fun a b => decide (a.1 ≤ b.1))

/-- An entry of a table, or a default if it is missing. -/
def entry? {α : Type} (name : String) (default : α) (decode : Toml → Option α)
    (entries : List (String × Toml)) : Option α :=
  match entries.lookup name with
  | some value => decode value
  | none => some default

end Toml

end ServiceQuery
