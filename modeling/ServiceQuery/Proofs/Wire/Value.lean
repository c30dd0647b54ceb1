import ServiceQuery.Proofs.Decimal
import ServiceQuery.Proofs.Json
import ServiceQuery.Wire.Value

/-!
# Types and values are read back from their JSON form

A type or a value is an object with a tag. What is nested in it is a field or an item of an array,
so that the depth of the JSON form is enough fuel for the decoder. What JSON does not carry exactly
is left out: floating-point numbers, and the sign of a zero.
-/

namespace ServiceQuery

namespace Json

theorem isExact_tagged (tagName tag contentName : String) (content : Json) :
    (tagged tagName tag contentName content).isExact = content.isExact := by
  simp [tagged, isExact, fieldsExact]

theorem isExact_integer {n : Int} (hl : Int64.minValue.toInt ≤ n)
    (hh : n ≤ Int64.maxValue.toInt) : (integer n).isExact = true := by
  have hmax : Int64.maxValue.toInt < (UInt64.size : Int) := by decide
  rw [isExact, Bool.and_eq_true, decide_eq_true_eq, decide_eq_true_eq]
  omega

section Lists

variable {α : Type} {encode : α → Json} {decode : Json → Option α}

/-- A named item as an array of a name and a value. -/
def encodeNamed (encode : α → Json) (field : String × α) : Json :=
  pair (string field.1) (encode field.2)

theorem depth_lt_map {items : List α} {item : α} (h : item ∈ items) :
    (encode item).depth < (array (items.map encode)).depth :=
  depth_lt_of_mem_items (List.mem_map_of_mem h)

theorem depth_lt_map_encodeNamed {fields : List (String × α)} {field : String × α}
    (h : field ∈ fields) :
    (encode field.2).depth < (array (fields.map (encodeNamed encode))).depth := by
  have hpair : (encode field.2).depth < (encodeNamed encode field).depth :=
    depth_lt_of_mem_items (List.mem_cons_of_mem _ List.mem_cons_self)
  exact Nat.lt_trans hpair (depth_lt_map h)

theorem itemsExact_map {items : List α} (h : ∀ item ∈ items, (encode item).isExact = true) :
    itemsExact (items.map encode) = true := by
  rw [itemsExact_iff, List.forall_mem_map]
  exact h

theorem isExact_encodeNamed (encode : α → Json) (field : String × α) :
    (encodeNamed encode field).isExact = (encode field.2).isExact := by
  simp [encodeNamed, pair, isExact, itemsExact]

theorem list?_map {items : List α} (h : ∀ item ∈ items, decode (encode item) = some item) :
    (array (items.map encode)).list? decode = some items := by
  have hlist : (array (items.map encode)).list? decode = (items.map encode).mapM decode := rfl
  rw [hlist]
  clear hlist
  induction items with
  | nil => rfl
  | cons item items ih =>
    rw [List.forall_mem_cons] at h
    rw [List.map_cons, List.mapM_cons, h.1, ih h.2]
    rfl

theorem list?_map_encodeNamed {fields : List (String × α)}
    (h : ∀ field ∈ fields, decode (encode field.2) = some field.2) :
    (array (fields.map (encodeNamed encode))).list? (named? decode) = some fields := by
  refine list?_map fun field hm => ?_
  simp [named?, encodeNamed, pair, pair?, string?, h field hm]

end Lists

end Json

namespace Ty

theorem fieldsToJson_eq (fields : List (String × Ty)) :
    fieldsToJson fields = fields.map (Json.encodeNamed toJson) := by
  induction fields with
  | nil => rfl
  | cons field fields ih => rw [fieldsToJson, ih, List.map_cons, Json.encodeNamed]

theorem depth_lt_fieldsToJson {fields : List (String × Ty)} {field : String × Ty}
    (h : field ∈ fields) : field.2.toJson.depth < (Json.array (fieldsToJson fields)).depth := by
  rw [fieldsToJson_eq]
  exact Json.depth_lt_map_encodeNamed h

theorem decode_toJson {fuel : Nat} {ty : Ty} (h : ty.toJson.depth ≤ fuel) :
    decode fuel ty.toJson = some ty := by
  induction fuel generalizing ty with
  | zero =>
    have hpos := ty.toJson.depth_pos
    omega
  | succ fuel ih =>
    cases ty with
    | nullable of =>
      have hof : of.toJson.depth ≤ fuel := by
        simp only [toJson, Json.tagged, Json.depth, Json.fieldsDepth] at h
        omega
      have hstep : decode (fuel + 1) (nullable of).toJson =
        nullable <$> decode fuel of.toJson := rfl
      rw [hstep, ih hof]
      rfl
    | collection of =>
      have hof : of.toJson.depth ≤ fuel := by
        simp only [toJson, Json.tagged, Json.depth, Json.fieldsDepth] at h
        omega
      have hstep : decode (fuel + 1) (collection of).toJson =
        collection <$> decode fuel of.toJson := rfl
      rw [hstep, ih hof]
      rfl
    | record fields =>
      have hfields : ∀ field ∈ fields, field.2.toJson.depth ≤ fuel := by
        intro field hm
        have hlt := depth_lt_fieldsToJson hm
        simp only [toJson, Json.tagged, Json.depth, Json.fieldsDepth] at h hlt
        omega
      have hstep : decode (fuel + 1) (record fields).toJson =
        record <$> (Json.array (fieldsToJson fields)).list? (Json.named? (decode fuel)) := rfl
      rw [hstep, fieldsToJson_eq, Json.list?_map_encodeNamed]
      · rfl
      · exact fun field hm => ih (hfields field hm)
    | grouping key element =>
      have hkey : key.toJson.depth ≤ fuel := by
        simp only [toJson, Json.tagged, Json.depth, Json.fieldsDepth] at h
        omega
      have helement : element.toJson.depth ≤ fuel := by
        simp only [toJson, Json.tagged, Json.depth, Json.fieldsDepth] at h
        omega
      have hstep : decode (fuel + 1) (grouping key element).toJson = (do
        let key ← decode fuel key.toJson
        let element ← decode fuel element.toJson
        pure (grouping key element)) := rfl
      rw [hstep, ih hkey, ih helement]
      rfl
    | _ => rfl

theorem ofJson?_toJson (ty : Ty) : ofJson? ty.toJson = some ty := decode_toJson (Nat.le_refl _)

mutual

theorem isExact_toJson : ∀ ty : Ty, ty.toJson.isExact = true
  | bool | int32 | int64 | single | double | decimal | string | object | entity _ | complex _ => rfl
  | nullable of | collection of => by
    rw [toJson, Json.isExact_tagged]
    exact isExact_toJson of
  | record fields => by
    rw [toJson, Json.isExact_tagged]
    simp [Json.isExact, Json.fieldsExact, itemsExact_fieldsToJson fields]
  | grouping key element => by
    rw [toJson, Json.isExact_tagged]
    simp [Json.isExact, Json.fieldsExact, isExact_toJson key, isExact_toJson element]

theorem itemsExact_fieldsToJson :
    ∀ fields : List (String × Ty), Json.itemsExact (fieldsToJson fields) = true
  | [] => rfl
  | (_, ty) :: rest => by
    simp [fieldsToJson, Json.pair, Json.itemsExact, Json.isExact, isExact_toJson ty,
      itemsExact_fieldsToJson rest]

end

end Ty

namespace Value

mutual

/-- Whether no floating-point number and no negative zero is in a value. -/
def isExact : Value → Bool
  | single _ | double _ => false
  | decimal d => !(d.negative && d.isZero)
  | array _ items => itemsExact items
  | record fields => fieldsExact fields
  | _ => true

/-- Whether the items of an array are exact. -/
def itemsExact : List Value → Bool
  | [] => true
  | item :: rest => item.isExact && itemsExact rest

/-- Whether the fields of a record are exact. -/
def fieldsExact : List (String × Value) → Bool
  | [] => true
  | (_, value) :: rest => value.isExact && fieldsExact rest

end

theorem itemsExact_iff {items : List Value} :
    itemsExact items = true ↔ ∀ item ∈ items, item.isExact = true := by
  induction items with
  | nil => simp [itemsExact]
  | cons item items ih => rw [itemsExact, Bool.and_eq_true, ih, List.forall_mem_cons]

theorem fieldsExact_iff {fields : List (String × Value)} :
    fieldsExact fields = true ↔ ∀ field ∈ fields, field.2.isExact = true := by
  induction fields with
  | nil => simp [fieldsExact]
  | cons field fields ih => rw [fieldsExact, Bool.and_eq_true, ih, List.forall_mem_cons]

theorem itemsToJson_eq (items : List Value) : itemsToJson items = items.map toJson := by
  induction items with
  | nil => rfl
  | cons item items ih => rw [itemsToJson, ih, List.map_cons]

theorem fieldsToJson_eq (fields : List (String × Value)) :
    fieldsToJson fields = fields.map (Json.encodeNamed toJson) := by
  induction fields with
  | nil => rfl
  | cons field fields ih => rw [fieldsToJson, ih, List.map_cons, Json.encodeNamed]

theorem depth_lt_fieldsToJson {fields : List (String × Value)} {field : String × Value}
    (h : field ∈ fields) : field.2.toJson.depth < (Json.array (fieldsToJson fields)).depth := by
  rw [fieldsToJson_eq]
  exact Json.depth_lt_map_encodeNamed h

theorem int32OfJson?_toInt (n : Int32) : int32OfJson? (.integer n.toInt) = some n := by
  have hrange := And.intro n.minValue_le_toInt n.toInt_le
  simp only [int32OfJson?, Json.integerIn?, if_pos hrange, Option.map_some, Int32.ofInt_toInt]

theorem int64OfJson?_toInt (n : Int64) : int64OfJson? (.integer n.toInt) = some n := by
  have hrange := And.intro n.minValue_le_toInt n.toInt_le
  simp only [int64OfJson?, Json.integerIn?, if_pos hrange, Option.map_some, Int64.ofInt_toInt]

theorem decode_toJson {fuel : Nat} {value : Value} (he : value.isExact = true)
    (h : value.toJson.depth ≤ fuel) : decode fuel value.toJson = some value := by
  induction fuel generalizing value with
  | zero =>
    have hpos := value.toJson.depth_pos
    omega
  | succ fuel ih =>
    cases value with
    | int32 n =>
      have hstep : decode (fuel + 1) (int32 n).toJson =
        int32 <$> int32OfJson? (.integer n.toInt) := rfl
      rw [hstep, int32OfJson?_toInt]
      rfl
    | int64 n =>
      have hstep : decode (fuel + 1) (int64 n).toJson =
        int64 <$> int64OfJson? (.integer n.toInt) := rfl
      rw [hstep, int64OfJson?_toInt]
      rfl
    | single x | double x => cases he
    | decimal d =>
      have hsign : d.negative = true → d.mantissa ≠ 0 := by
        intro hn
        simpa [isExact, Decimal.isZero, hn] using he
      have hstep : decode (fuel + 1) (decimal d).toJson = decimal <$> Decimal.ofText? d.text := rfl
      rw [hstep, Decimal.ofText?_text hsign]
      rfl
    | array element items =>
      have hexact : ∀ item ∈ items, item.isExact = true := itemsExact_iff.1 he
      have hitems : ∀ item ∈ items, item.toJson.depth ≤ fuel := by
        intro item hm
        have hlt : item.toJson.depth < (Json.array (items.map toJson)).depth := Json.depth_lt_map hm
        simp only [toJson, itemsToJson_eq, Json.tagged, Json.depth, Json.fieldsDepth] at h hlt
        omega
      have hstep : decode (fuel + 1) (array element items).toJson = (do
        let element ← Ty.ofJson? element.toJson
        let items ← (Json.array (itemsToJson items)).list? (decode fuel)
        pure (array element items)) := rfl
      rw [hstep, Ty.ofJson?_toJson, itemsToJson_eq, Json.list?_map]
      · rfl
      · exact fun item hm => ih (hexact item hm) (hitems item hm)
    | record fields =>
      have hexact : ∀ field ∈ fields, field.2.isExact = true := fieldsExact_iff.1 he
      have hfields : ∀ field ∈ fields, field.2.toJson.depth ≤ fuel := by
        intro field hm
        have hlt := depth_lt_fieldsToJson hm
        simp only [toJson, Json.tagged, Json.depth, Json.fieldsDepth] at h hlt
        omega
      have hstep : decode (fuel + 1) (record fields).toJson =
        record <$> (Json.array (fieldsToJson fields)).list? (Json.named? (decode fuel)) := rfl
      rw [hstep, fieldsToJson_eq, Json.list?_map_encodeNamed]
      · rfl
      · exact fun field hm => ih (hexact field hm) (hfields field hm)
    | _ => rfl

theorem ofJson?_toJson {value : Value} (h : value.isExact = true) :
    ofJson? value.toJson = some value :=
  decode_toJson h (Nat.le_refl _)

mutual

theorem isExact_toJson : ∀ {value : Value}, value.isExact = true → value.toJson.isExact = true
  | null, _ | bool _, _ | decimal _, _ | string _, _ => rfl
  | int32 n, _ => by
    have hmin : Int64.minValue.toInt ≤ Int32.minValue.toInt := by decide
    have hmax : Int32.maxValue.toInt ≤ Int64.maxValue.toInt := by decide
    rw [toJson, Json.isExact_tagged]
    exact Json.isExact_integer (Int.le_trans hmin n.minValue_le_toInt)
      (Int.le_trans n.toInt_le hmax)
  | int64 n, _ => by
    rw [toJson, Json.isExact_tagged]
    exact Json.isExact_integer n.minValue_le_toInt n.toInt_le
  | array element items, h => by
    rw [toJson, Json.isExact_tagged]
    simp [Json.isExact, Json.fieldsExact, element.isExact_toJson, itemsExact_itemsToJson h]
  | record fields, h => by
    rw [toJson, Json.isExact_tagged]
    exact itemsExact_fieldsToJson h

theorem itemsExact_itemsToJson :
    ∀ {items : List Value}, itemsExact items = true → Json.itemsExact (itemsToJson items) = true
  | [], _ => rfl
  | item :: rest, h => by
    rw [itemsExact, Bool.and_eq_true] at h
    simp [itemsToJson, Json.itemsExact, isExact_toJson h.1, itemsExact_itemsToJson h.2]

theorem itemsExact_fieldsToJson : ∀ {fields : List (String × Value)},
    fieldsExact fields = true → Json.itemsExact (fieldsToJson fields) = true
  | [], _ => rfl
  | (_, value) :: rest, h => by
    rw [fieldsExact, Bool.and_eq_true] at h
    simp [fieldsToJson, Json.pair, Json.itemsExact, Json.isExact, isExact_toJson h.1,
      itemsExact_fieldsToJson h.2]

end

end Value

end ServiceQuery
