import ServiceQuery.Proofs.Input
import ServiceQuery.Proofs.Wire.Value
import ServiceQuery.Wire.Expr

/-!
# Expressions are read back from their JSON form

Every kind of node has its own fields. A node is read back if its subexpressions are, and these are
nested deeper, so that the depth of the JSON form is enough fuel for the whole expression.
-/

namespace ServiceQuery

/-! ### Parts of expressions -/

theorem Param.ofFields?_toJson (param : Param) (tag : Json) :
    Param.ofFields? [("node", tag), ("name", .string param.name), ("ty", param.ty.toJson)] =
      some param := by
  have hstep : Param.ofFields? [("node", tag), ("name", .string param.name),
    ("ty", param.ty.toJson)] = (do
      let ty ← Ty.ofJson? param.ty.toJson
      pure ⟨param.name, ty⟩) := rfl
  rw [hstep, Ty.ofJson?_toJson]
  rfl

theorem Param.ofJson?_toJson (param : Param) : Param.ofJson? param.toJson = some param := by
  have hstep : Param.ofJson? param.toJson = (do
    let ty ← Ty.ofJson? param.ty.toJson
    pure ⟨param.name, ty⟩) := rfl
  rw [hstep, Ty.ofJson?_toJson]
  rfl

theorem UnaryOp.ofTag?_tag (op : UnaryOp) : ofTag? op.tag = some op := by
  cases op <;> rfl

theorem BinaryOp.ofTag?_tag (op : BinaryOp) : ofTag? op.tag = some op := by
  cases op <;> rfl

namespace RootKind

/-- The parameters of a function or an action. -/
def parameters : RootKind → List (String × Value)
  | function parameters _ | action parameters => parameters
  | _ => []

theorem fieldsOfJson?_toJson {parameters : List (String × Value)}
    (h : ∀ parameter ∈ parameters, parameter.2.isExact = true) :
    Value.fieldsOfJson? (.array (Value.fieldsToJson parameters)) = some parameters := by
  rw [Value.fieldsOfJson?, Value.fieldsToJson_eq]
  exact Json.list?_map_encodeNamed fun parameter hm => Value.ofJson?_toJson (h parameter hm)

theorem ofJson?_toJson {kind : RootKind}
    (h : ∀ parameter ∈ kind.parameters, parameter.2.isExact = true) :
    ofJson? kind.toJson = some kind := by
  cases kind with
  | entitySet | singleton => rfl
  | function parameters returnsCollection =>
    have hparameters : ∀ parameter ∈ parameters, parameter.2.isExact = true := h
    have hstep : ofJson? (function parameters returnsCollection).toJson = (do
      let parameters ← Value.fieldsOfJson? (.array (Value.fieldsToJson parameters))
      pure (function parameters returnsCollection)) := rfl
    rw [hstep, fieldsOfJson?_toJson hparameters]
    rfl
  | action parameters =>
    have hparameters : ∀ parameter ∈ parameters, parameter.2.isExact = true := h
    have hstep : ofJson? (action parameters).toJson =
      action <$> Value.fieldsOfJson? (.array (Value.fieldsToJson parameters)) := rfl
    rw [hstep, fieldsOfJson?_toJson hparameters]
    rfl

theorem isExact_toJson {kind : RootKind}
    (h : ∀ parameter ∈ kind.parameters, parameter.2.isExact = true) :
    kind.toJson.isExact = true := by
  cases kind with
  | entitySet | singleton => rfl
  | function parameters returnsCollection | action parameters =>
    have hparameters : Json.itemsExact (Value.fieldsToJson parameters) = true :=
      Value.itemsExact_fieldsToJson (Value.fieldsExact_iff.2 h)
    simp [toJson, Json.isExact, Json.fieldsExact, hparameters]

end RootKind

theorem ResourceRoot.ofFields?_toFields {origin : ResourceRoot} (tag : Json)
    (h : ∀ parameter ∈ origin.kind.parameters, parameter.2.isExact = true) :
    ofFields? (("node", tag) :: origin.toFields) = some origin := by
  have hstep : ofFields? (("node", tag) :: origin.toFields) = (do
    let elementType ← Ty.ofJson? origin.elementType.toJson
    let kind ← RootKind.ofJson? origin.kind.toJson
    pure ⟨origin.name, elementType, kind⟩) := rfl
  rw [hstep, Ty.ofJson?_toJson, RootKind.ofJson?_toJson h]
  rfl

theorem InputRef.ofFields?_toJson {ref : InputRef} (tag : Json) (h : ref.target < UInt32.size) :
    ofFields? [("node", tag), ("target", .integer ref.target), ("ty", ref.ty.toJson)] =
      some ref := by
  have htarget : ResourceId.ofJson? (.integer ref.target) = some ref.target := by
    have hlt : (ref.target : Int) < UInt32.size := Int.ofNat_lt.2 h
    have hrange : (0 : Int) ≤ ref.target ∧ (ref.target : Int) ≤ UInt32.size - 1 := by omega
    simp only [ResourceId.ofJson?, Json.integerIn?]
    rw [if_pos hrange]
    rfl
  have hstep : ofFields? [("node", tag), ("target", .integer ref.target), ("ty", ref.ty.toJson)] =
    (do
      let target ← ResourceId.ofJson? (.integer ref.target)
      let ty ← Ty.ofJson? ref.ty.toJson
      pure ⟨target, ty⟩) := rfl
  rw [hstep, htarget, Ty.ofJson?_toJson]
  rfl

namespace Expr

/-- The values of a node itself. -/
def ownValues : Expr → List Value
  | constant value => [value]
  | root origin => origin.kind.parameters.map Prod.snd
  | _ => []

/-- The constants of an expression and the parameters of its roots. -/
def values (expr : Expr) : List Value := expr.nodes.flatMap ownValues

/-- The values of the expression are exact, and the numbers of resources have 32 bits. -/
structure IsPortable (expr : Expr) : Prop where
  values : ∀ value ∈ expr.values, value.isExact = true
  inputs : ∀ ref ∈ expr.inputs, ref.target < UInt32.size

theorem IsPortable.child {expr child : Expr} (h : expr.IsPortable) (hc : child ∈ expr.children) :
    child.IsPortable where
  values value hm := h.values value (flatMap_nodes_subset ownValues hc hm)
  inputs ref hm := h.inputs ref (inputs_subset hc hm)

theorem IsPortable.own {expr : Expr} (h : expr.IsPortable) {value : Value}
    (hm : value ∈ expr.ownValues) : value.isExact = true :=
  h.values value (subset_flatMap_nodes ownValues expr hm)

theorem listToJson_eq (exprs : List Expr) : listToJson exprs = exprs.map toJson := by
  induction exprs with
  | nil => rfl
  | cons expr exprs ih => rw [listToJson, ih, List.map_cons]

theorem membersToJson_eq (members : List (String × Expr)) :
    membersToJson members = members.map (Json.encodeNamed toJson) := by
  induction members with
  | nil => rfl
  | cons member members ih => rw [membersToJson, ih, List.map_cons, Json.encodeNamed]

/-- The JSON form of a member assignment. -/
def bindingToJson (member : String × Expr) : Json :=
  .object [("member", .string member.1), ("expr", member.2.toJson)]

theorem bindingsToJson_eq (members : List (String × Expr)) :
    bindingsToJson members = members.map bindingToJson := by
  induction members with
  | nil => rfl
  | cons member members ih => rw [bindingsToJson, ih, List.map_cons, bindingToJson]

theorem depth_lt_bindingToJson (member : String × Expr) :
    member.2.toJson.depth < (bindingToJson member).depth :=
  Json.depth_lt_of_mem_fields (List.mem_cons_of_mem _ List.mem_cons_self)

/-- Subexpressions are nested deeper in the JSON form. -/
theorem depth_lt_of_mem_children {expr child : Expr} (h : child ∈ expr.children) :
    child.toJson.depth < expr.toJson.depth := by
  cases expr with
  | constant | parameter | root | input => cases h
  | member source name ty =>
    obtain rfl := List.mem_singleton.1 h
    simp only [toJson, node, Json.depth, Json.fieldsDepth]
    omega
  | invoke receiver method args ty =>
    obtain rfl | h := List.mem_cons.1 h
    · simp only [toJson, node, Json.depth, Json.fieldsDepth]
      omega
    · have hlt := @Json.depth_lt_map _ toJson _ _ h
      simp only [toJson, listToJson_eq, node, Json.depth, Json.fieldsDepth] at hlt ⊢
      omega
  | call method args ty =>
    have hm : child ∈ args := h
    have hlt := @Json.depth_lt_map _ toJson _ _ hm
    simp only [toJson, listToJson_eq, node, Json.depth, Json.fieldsDepth] at hlt ⊢
    omega
  | lambda params body =>
    obtain rfl := List.mem_singleton.1 h
    simp only [toJson, node, Json.depth, Json.fieldsDepth]
    omega
  | newRecord ty members =>
    obtain ⟨member, hm, rfl⟩ := List.mem_map.1 h
    have hlt := @Json.depth_lt_map_encodeNamed _ toJson _ _ hm
    simp only [toJson, membersToJson_eq, node, Json.depth, Json.fieldsDepth] at hlt ⊢
    omega
  | newObject ty members =>
    obtain ⟨member, hm, rfl⟩ := List.mem_map.1 h
    have hbinding := depth_lt_bindingToJson member
    have hlt := @Json.depth_lt_map _ bindingToJson _ _ hm
    simp only [toJson, bindingsToJson_eq, node, Json.depth, Json.fieldsDepth] at hlt ⊢
    omega
  | newArray element items =>
    have hm : child ∈ items := h
    have hlt := @Json.depth_lt_map _ toJson _ _ hm
    simp only [toJson, listToJson_eq, node, Json.depth, Json.fieldsDepth] at hlt ⊢
    omega
  | unary op operand ty =>
    obtain rfl := List.mem_singleton.1 h
    simp only [toJson, node, Json.depth, Json.fieldsDepth]
    omega
  | binary op left right =>
    simp only [toJson, node, Json.depth, Json.fieldsDepth]
    simp only [children, List.mem_cons, List.not_mem_nil, or_false] at h
    obtain rfl | rfl := h <;> omega
  | conditional test whenTrue whenFalse =>
    simp only [toJson, node, Json.depth, Json.fieldsDepth]
    simp only [children, List.mem_cons, List.not_mem_nil, or_false] at h
    obtain rfl | rfl | rfl := h <;> omega

theorem list?_listToJson {fuel : Nat} {exprs : List Expr}
    (h : ∀ expr ∈ exprs, decode fuel expr.toJson = some expr) :
    (Json.array (listToJson exprs)).list? (decode fuel) = some exprs := by
  rw [listToJson_eq, Json.list?_map h]

theorem exists_toJson_eq_object (expr : Expr) : ∃ fields, expr.toJson = .object fields := by
  cases expr <;> exact ⟨_, rfl⟩

/-- A node is read back if its subexpressions are. -/
theorem decode_toJson_of_children {fuel : Nat} {expr : Expr} (hp : expr.IsPortable)
    (h : ∀ child ∈ expr.children, decode fuel child.toJson = some child) :
    decode (fuel + 1) expr.toJson = some expr := by
  cases expr with
  | constant value =>
    have hstep : decode (fuel + 1) (constant value).toJson =
      constant <$> Value.ofJson? value.toJson := rfl
    rw [hstep, Value.ofJson?_toJson (hp.own List.mem_cons_self)]
    rfl
  | parameter param =>
    have hstep : decode (fuel + 1) (parameter param).toJson = parameter <$> Param.ofFields?
      [("node", .string "parameter"), ("name", .string param.name), ("ty", param.ty.toJson)] := rfl
    rw [hstep, Param.ofFields?_toJson]
    rfl
  | member source name ty =>
    have hstep : decode (fuel + 1) (member source name ty).toJson = (do
      let source ← decode fuel source.toJson
      let ty ← Ty.ofJson? ty.toJson
      pure (member source name ty)) := rfl
    rw [hstep, h source List.mem_cons_self, Ty.ofJson?_toJson]
    rfl
  | invoke receiver method args ty =>
    have hargs : (Json.array (listToJson args)).list? (decode fuel) = some args :=
      list?_listToJson fun arg ha => h arg (List.mem_cons_of_mem _ ha)
    -- the receiver is an object, and not null
    have hreceiver := h receiver List.mem_cons_self
    obtain ⟨fields, hf⟩ := receiver.exists_toJson_eq_object
    rw [hf] at hreceiver
    have hstep : decode (fuel + 1) (node "call" [("object", .object fields),
      ("method", .string method), ("args", .array (listToJson args)), ("ty", ty.toJson)]) = (do
        let args ← (Json.array (listToJson args)).list? (decode fuel)
        let ty ← Ty.ofJson? ty.toJson
        let receiver ← decode fuel (.object fields)
        pure (invoke receiver method args ty)) := rfl
    rw [toJson, hf, hstep, hargs, Ty.ofJson?_toJson, hreceiver]
    rfl
  | call method args ty =>
    have hargs : (Json.array (listToJson args)).list? (decode fuel) = some args :=
      list?_listToJson h
    have hstep : decode (fuel + 1) (call method args ty).toJson = (do
      let args ← (Json.array (listToJson args)).list? (decode fuel)
      let ty ← Ty.ofJson? ty.toJson
      pure (call method args ty)) := rfl
    rw [hstep, hargs, Ty.ofJson?_toJson]
    rfl
  | lambda params body =>
    have hparams : (Json.array (params.map Param.toJson)).list? Param.ofJson? = some params :=
      Json.list?_map fun param _ => param.ofJson?_toJson
    have hstep : decode (fuel + 1) (lambda params body).toJson = (do
      let params ← (Json.array (params.map Param.toJson)).list? Param.ofJson?
      let body ← decode fuel body.toJson
      pure (lambda params body)) := rfl
    rw [hstep, hparams, h body List.mem_cons_self]
    rfl
  | newRecord ty members =>
    have hmembers : (Json.array (membersToJson members)).list? (Json.named? (decode fuel)) =
        some members := by
      rw [membersToJson_eq]
      exact Json.list?_map_encodeNamed fun member hm => h member.2 (List.mem_map_of_mem hm)
    have hstep : decode (fuel + 1) (newRecord ty members).toJson = (do
      let ty ← Ty.ofJson? ty.toJson
      let members ← (Json.array (membersToJson members)).list? (Json.named? (decode fuel))
      pure (newRecord ty members)) := rfl
    rw [hstep, Ty.ofJson?_toJson, hmembers]
    rfl
  | newObject ty members =>
    have hmembers : (Json.array (bindingsToJson members)).list? (binding? (decode fuel)) =
        some members := by
      rw [bindingsToJson_eq, Json.list?_map]
      intro member hm
      have hbinding : binding? (decode fuel) (bindingToJson member) = (do
        let expr ← decode fuel member.2.toJson
        pure (member.1, expr)) := rfl
      rw [hbinding, h member.2 (List.mem_map_of_mem hm)]
      rfl
    have hstep : decode (fuel + 1) (newObject ty members).toJson = (do
      let ty ← Ty.ofJson? ty.toJson
      let members ← (Json.array (bindingsToJson members)).list? (binding? (decode fuel))
      pure (newObject ty members)) := rfl
    rw [hstep, Ty.ofJson?_toJson, hmembers]
    rfl
  | newArray element items =>
    have hitems : (Json.array (listToJson items)).list? (decode fuel) = some items :=
      list?_listToJson h
    have hstep : decode (fuel + 1) (newArray element items).toJson = (do
      let element ← Ty.ofJson? element.toJson
      let items ← (Json.array (listToJson items)).list? (decode fuel)
      pure (newArray element items)) := rfl
    rw [hstep, Ty.ofJson?_toJson, hitems]
    rfl
  | unary op operand ty =>
    have hstep : decode (fuel + 1) (unary op operand ty).toJson = (do
      let op ← UnaryOp.ofTag? op.tag
      let operand ← decode fuel operand.toJson
      let ty ← Ty.ofJson? ty.toJson
      pure (unary op operand ty)) := rfl
    rw [hstep, op.ofTag?_tag, h operand List.mem_cons_self, Ty.ofJson?_toJson]
    rfl
  | binary op left right =>
    have hstep : decode (fuel + 1) (binary op left right).toJson = (do
      let op ← BinaryOp.ofTag? op.tag
      let left ← decode fuel left.toJson
      let right ← decode fuel right.toJson
      pure (binary op left right)) := rfl
    rw [hstep, op.ofTag?_tag, h left List.mem_cons_self, h right (by simp [children])]
    rfl
  | conditional test whenTrue whenFalse =>
    have hstep : decode (fuel + 1) (conditional test whenTrue whenFalse).toJson = (do
      let test ← decode fuel test.toJson
      let whenTrue ← decode fuel whenTrue.toJson
      let whenFalse ← decode fuel whenFalse.toJson
      pure (conditional test whenTrue whenFalse)) := rfl
    rw [hstep, h test List.mem_cons_self, h whenTrue (by simp [children]),
      h whenFalse (by simp [children])]
    rfl
  | root origin =>
    have hparameters : ∀ parameter ∈ origin.kind.parameters, parameter.2.isExact = true :=
      fun parameter hm => hp.own (List.mem_map_of_mem hm)
    have hstep : decode (fuel + 1) (root origin).toJson =
      root <$> ResourceRoot.ofFields? (("node", .string "root") :: origin.toFields) := rfl
    rw [hstep, ResourceRoot.ofFields?_toFields _ hparameters]
    rfl
  | input ref =>
    have htarget : ref.target < UInt32.size := hp.inputs ref (mem_inputs.2 (.inl rfl))
    have hstep : decode (fuel + 1) (input ref).toJson = input <$> InputRef.ofFields?
      [("node", .string "input"), ("target", .integer ref.target), ("ty", ref.ty.toJson)] := rfl
    rw [hstep, InputRef.ofFields?_toJson _ htarget]
    rfl

theorem decode_toJson {fuel : Nat} {expr : Expr} (hp : expr.IsPortable)
    (h : expr.toJson.depth ≤ fuel) : decode fuel expr.toJson = some expr := by
  induction fuel generalizing expr with
  | zero =>
    have hpos := expr.toJson.depth_pos
    omega
  | succ fuel ih =>
    refine decode_toJson_of_children hp fun child hc => ih (hp.child hc) ?_
    have hlt := depth_lt_of_mem_children hc
    omega

theorem isExact_toJson {expr : Expr} (hp : expr.IsPortable) : expr.toJson.isExact = true := by
  induction expr using induction_children with | node expr ih =>
  have hchild : ∀ child ∈ expr.children, child.toJson.isExact = true :=
    fun child hc => ih child hc (hp.child hc)
  have hty (ty : Ty) := ty.isExact_toJson
  cases expr with
  | constant value =>
    have hv := Value.isExact_toJson (hp.own List.mem_cons_self)
    simp [toJson, node, Json.isExact, Json.fieldsExact, hv]
  | parameter param => simp [toJson, node, Json.isExact, Json.fieldsExact, hty]
  | invoke receiver method args ty =>
    obtain ⟨hreceiver, hargs⟩ := List.forall_mem_cons.1 hchild
    have hlist := Json.itemsExact_map hargs
    simp [toJson, listToJson_eq, node, Json.isExact, Json.fieldsExact, hty, hreceiver, hlist]
  | call method args ty =>
    have hargs : Json.itemsExact (args.map toJson) = true := Json.itemsExact_map hchild
    simp [toJson, listToJson_eq, node, Json.isExact, Json.fieldsExact, hty, hargs]
  | lambda params body =>
    have hparams : Json.itemsExact (params.map Param.toJson) = true := by
      refine Json.itemsExact_map fun param _ => ?_
      simp [Param.toJson, Json.isExact, Json.fieldsExact, hty]
    have hbody := hchild body List.mem_cons_self
    simp [toJson, node, Json.isExact, Json.fieldsExact, hparams, hbody]
  | newRecord ty members =>
    have hmembers : Json.itemsExact (members.map (Json.encodeNamed toJson)) = true := by
      refine Json.itemsExact_map fun member hm => ?_
      rw [Json.isExact_encodeNamed]
      exact hchild member.2 (List.mem_map_of_mem hm)
    simp [toJson, membersToJson_eq, node, Json.isExact, Json.fieldsExact, hty, hmembers]
  | newObject ty members =>
    have hmembers : Json.itemsExact (members.map bindingToJson) = true := by
      refine Json.itemsExact_map fun member hm => ?_
      have hexpr := hchild member.2 (List.mem_map_of_mem hm)
      simp [bindingToJson, Json.isExact, Json.fieldsExact, hexpr]
    simp [toJson, bindingsToJson_eq, node, Json.isExact, Json.fieldsExact, hty, hmembers]
  | newArray element items =>
    have hitems : Json.itemsExact (items.map toJson) = true := Json.itemsExact_map hchild
    simp [toJson, listToJson_eq, node, Json.isExact, Json.fieldsExact, hty, hitems]
  | root origin =>
    have hkind := RootKind.isExact_toJson fun parameter hm => hp.own (List.mem_map_of_mem hm)
    simp [toJson, node, ResourceRoot.toFields, Json.isExact, Json.fieldsExact, hty, hkind]
  | input ref =>
    have htarget : ref.target < UInt32.size := hp.inputs ref (mem_inputs.2 (.inl rfl))
    have hlt : (ref.target : Int) < UInt32.size := Int.ofNat_lt.2 htarget
    have hmin : Int64.minValue.toInt ≤ 0 := by decide
    have hmax : (UInt32.size : Int) ≤ Int64.maxValue.toInt := by decide
    have hinteger : (Json.integer ref.target).isExact = true :=
      Json.isExact_integer (by omega) (by omega)
    rw [toJson, node, Json.isExact, Json.fieldsExact, Json.fieldsExact, hinteger]
    simp [Json.isExact, Json.fieldsExact, hty]
  | member source name ty | unary op source ty =>
    have hsource := hchild source List.mem_cons_self
    simp [toJson, node, Json.isExact, Json.fieldsExact, hty, hsource]
  | binary op left right =>
    have hleft := hchild left List.mem_cons_self
    have hright := hchild right (by simp [children])
    simp [toJson, node, Json.isExact, Json.fieldsExact, hleft, hright]
  | conditional test whenTrue whenFalse =>
    have htest := hchild test List.mem_cons_self
    have htrue := hchild whenTrue (by simp [children])
    have hfalse := hchild whenFalse (by simp [children])
    simp [toJson, node, Json.isExact, Json.fieldsExact, htest, htrue, hfalse]

namespace Sample

/-- Minus one and a half, with two decimal places. -/
def loss : Decimal := ⟨true, 150, 2, by decide, by decide⟩

/-- An expression with a node of every kind. -/
def everyNode : Expr :=
  let product : Expr := .parameter ⟨"p", .entity "Product"⟩
  let name : Expr := .member product "Name" .string
  .call "Where"
    [.root ⟨"Top", .entity "Product", .function [("limit", .decimal loss)] true⟩,
      .lambda [⟨"p", .entity "Product"⟩]
        (.conditional
          (.unary .not (.invoke name "Contains" [.constant (.string "\"\n")] .bool) .bool)
          (.binary .equal (.newRecord (.record [("Id", .int64)]) [("Id", .constant (.int64 (-1)))])
            (.newObject (.complex "Size") [("Unit", .constant .null)]))
          (.newArray (.nullable .int32)
            [.constant (.array .int32 [.int32 1]),
              .constant (.record [("Open", .bool true)]),
              .input ⟨7, .grouping .string (.collection .object)⟩]))]
    (.collection (.entity "Product"))

theorem isPortable_everyNode : everyNode.IsPortable where
  values := List.all_eq_true.1 rfl
  inputs := by
    have hinputs : everyNode.inputs = [⟨7, .grouping .string (.collection .object)⟩] := rfl
    rw [hinputs, List.forall_mem_singleton]
    decide

end Sample

/-- An expression is read back from its JSON form, and the form from its document if that is not
nested too deeply. -/
theorem read_written {expr : Expr} (h : expr.IsPortable) :
    ofJson? expr.toJson = some expr ∧
      (expr.toJson.depth ≤ Json.maxDepth → Json.parse expr.toJson.compact = .ok expr.toJson) :=
  ⟨decode_toJson h (Nat.le_refl _), Json.parse_compact (isExact_toJson h)⟩

theorem read_written_everyNode :
    Sample.everyNode.IsPortable ∧ Sample.everyNode.toJson.depth ≤ Json.maxDepth ∧
      ofJson? Sample.everyNode.toJson = some Sample.everyNode ∧
      Json.parse Sample.everyNode.toJson.compact = .ok Sample.everyNode.toJson := by
  have hdepth : Sample.everyNode.toJson.depth ≤ Json.maxDepth := by decide
  have hread := read_written Sample.isPortable_everyNode
  exact ⟨Sample.isPortable_everyNode, hdepth, hread.1, hread.2 hdepth⟩

end Expr

end ServiceQuery
