import ServiceQuery.Text.Search

/-!
# Types

Every node of a query expression carries a static type.
-/

namespace ServiceQuery

/-- The static type of an expression. -/
inductive Ty where
  | bool
  | int32
  | int64
  | single
  | double
  | decimal
  | string
  /-- A type extended by null. -/
  | nullable (of : Ty)
  /-- An entity type of the service model. -/
  | entity (name : String)
  /-- A structured type without keys of the service model. -/
  | complex (name : String)
  | collection (of : Ty)
  /-- A record with named fields in order. -/
  | record (fields : List (String × Ty))
  /-- The elements that share one grouping key. -/
  | grouping (key element : Ty)
  /-- A type that is not known. -/
  | object
  deriving Inhabited

namespace Ty

/-- The type without one nullable wrapper. -/
def nonNullable : Ty → Ty
  | nullable of => of
  | ty => ty

/-- Whether the type is numeric, nullable or not. -/
def isNumeric (ty : Ty) : Bool :=
  match ty.nonNullable with
  | int32 | int64 | single | double | decimal => true
  | _ => false

/-- Whether the type is an entity type. -/
def isEntity : Ty → Bool
  | entity _ => true
  | _ => false

/-- The type of the elements of a collection or grouping. -/
def elementType? : Ty → Option Ty
  | collection of => some of
  | grouping _ element => some element
  | _ => none

/-- The fields of a record type. -/
def fields? : Ty → Option (List (String × Ty))
  | record fields => some fields
  | _ => none

mutual

/-- The text of a type. -/
def text : Ty → String
  | bool => "bool"
  | int32 => "int"
  | int64 => "long"
  | single => "float"
  | double => "double"
  | decimal => "decimal"
  | string => "string"
  | nullable of => of.text ++ "?"
  | entity name => name
  | complex name => name
  | collection of => "IEnumerable<" ++ of.text ++ ">"
  | record fields => "\x7b " ++ Text.join ", " (fieldTexts fields) ++ " \x7d"
  | grouping key element => "IGrouping<" ++ key.text ++ ", " ++ element.text ++ ">"
  | object => "object"

/-- The texts of the fields of a record type. -/
def fieldTexts : List (String × Ty) → List String
  | [] => []
  | (name, ty) :: rest => (name ++ ": " ++ ty.text) :: fieldTexts rest

end

mutual

/-- Comparison of types. -/
def beq : Ty → Ty → Bool
  | bool, bool | int32, int32 | int64, int64 | single, single | double, double
  | decimal, decimal | string, string | object, object => true
  | nullable a, nullable b => a.beq b
  | entity a, entity b => a == b
  | complex a, complex b => a == b
  | collection a, collection b => a.beq b
  | record a, record b => beqFields a b
  | grouping a b, grouping c d => a.beq c && b.beq d
  | _, _ => false

/-- Comparison of field lists. -/
def beqFields : List (String × Ty) → List (String × Ty) → Bool
  | [], [] => true
  | (m, a) :: as, (n, b) :: bs => m == n && a.beq b && beqFields as bs
  | _, _ => false

end

mutual

/-- Types that compare equal are equal. -/
theorem eq_of_beq : ∀ {a b : Ty}, a.beq b = true → a = b
  | bool, b, h => by cases b <;> simp_all [beq]
  | int32, b, h => by cases b <;> simp_all [beq]
  | int64, b, h => by cases b <;> simp_all [beq]
  | single, b, h => by cases b <;> simp_all [beq]
  | double, b, h => by cases b <;> simp_all [beq]
  | decimal, b, h => by cases b <;> simp_all [beq]
  | string, b, h => by cases b <;> simp_all [beq]
  | object, b, h => by cases b <;> simp_all [beq]
  | nullable a, b, h => by
    cases b <;> simp_all [beq]
    exact eq_of_beq h
  | entity a, b, h => by cases b <;> simp_all [beq]
  | complex a, b, h => by cases b <;> simp_all [beq]
  | collection a, b, h => by
    cases b <;> simp_all [beq]
    exact eq_of_beq h
  | record a, b, h => by
    cases b <;> simp_all [beq]
    exact eq_of_beqFields h
  | grouping a c, b, h => by
    cases b <;> simp_all [beq]
    exact ⟨eq_of_beq h.1, eq_of_beq h.2⟩

/-- Field lists that compare equal are equal. -/
theorem eq_of_beqFields : ∀ {as bs : List (String × Ty)}, beqFields as bs = true → as = bs
  | [], bs, h => by cases bs <;> simp_all [beqFields]
  | (m, a) :: as, [], h => by simp [beqFields] at h
  | (m, a) :: as, (n, b) :: bs, h => by
    simp only [beqFields, Bool.and_eq_true, beq_iff_eq] at h
    rw [h.1.1, eq_of_beq h.1.2, eq_of_beqFields h.2]

end

mutual

/-- A type compares equal to itself. -/
theorem beq_self : ∀ a : Ty, a.beq a = true
  | bool | int32 | int64 | single | double | decimal | string | object => by simp [beq]
  | nullable a => by simp [beq, beq_self a]
  | entity a => by simp [beq]
  | complex a => by simp [beq]
  | collection a => by simp [beq, beq_self a]
  | record a => by simp [beq, beqFields_self a]
  | grouping a b => by simp [beq, beq_self a, beq_self b]

/-- A field list compares equal to itself. -/
theorem beqFields_self : ∀ as : List (String × Ty), beqFields as as = true
  | [] => by simp [beqFields]
  | (n, a) :: as => by simp [beqFields, beq_self a, beqFields_self as]

end

/-- The comparison of types decides equality. -/
theorem beq_iff {a b : Ty} : a.beq b = true ↔ a = b :=
  ⟨eq_of_beq, fun h => h ▸ beq_self a⟩

instance : DecidableEq Ty := fun a b => decidable_of_iff (a.beq b = true) beq_iff

end Ty

end ServiceQuery
