import ServiceQuery.Proofs.Aggregation
import ServiceQuery.Proofs.Denotation
import ServiceQuery.Proofs.Lookup

/-!
# The keys of a grouping

A key selector records each of its keys twice: under the name of the member that it is, and among the
expressions that are grouped by, where no expression stands twice. A key is a chain of members of the
element, so once it is bound it is compared by its members and types alone.
-/

namespace ServiceQuery

/-! ### First mentions -/

/-- A list has the elements of another one, each once and in the order in which they are first
mentioned there. -/
structure FirstMentions {α : Type} (all distinct : List α) : Prop where
  nodup : distinct.Nodup
  mem_iff : ∀ a, a ∈ distinct ↔ a ∈ all
  /-- What is mentioned up to some place is a beginning of the list. -/
  order : ∀ before, before <+: all → ∃ seen, seen <+: distinct ∧ ∀ a, a ∈ seen ↔ a ∈ before

namespace FirstMentions

variable {α : Type} {all distinct : List α} {a : α}

theorem nil : FirstMentions ([] : List α) [] where
  nodup := .nil
  mem_iff _ := Iff.rfl
  order before hb := ⟨[], List.prefix_rfl, by simp [List.prefix_nil.1 hb]⟩

/-- An element that has been mentioned adds nothing. -/
theorem again (h : FirstMentions all distinct) (ha : a ∈ distinct) :
    FirstMentions (all ++ [a]) distinct := by
  have hmem (b : α) : b ∈ distinct ↔ b ∈ all ++ [a] := by
    rw [List.mem_append, List.mem_singleton, ← h.mem_iff, or_iff_left_of_imp]
    rintro rfl
    exact ha
  refine ⟨h.nodup, hmem, fun before hb => ?_⟩
  obtain rfl | hb := List.prefix_concat_iff.1 hb
  · exact ⟨distinct, List.prefix_rfl, hmem⟩
  · exact h.order before hb

/-- A new element comes last. -/
theorem fresh (h : FirstMentions all distinct) (ha : a ∉ distinct) :
    FirstMentions (all ++ [a]) (distinct ++ [a]) := by
  have hmem (b : α) : b ∈ distinct ++ [a] ↔ b ∈ all ++ [a] := by
    rw [List.mem_append, List.mem_append, h.mem_iff]
  have hnodup : (distinct ++ [a]).Nodup := by
    rw [← List.concat_eq_append]
    exact h.nodup.concat ha
  refine ⟨hnodup, hmem, fun before hb => ?_⟩
  obtain rfl | hb := List.prefix_concat_iff.1 hb
  · exact ⟨_, List.prefix_rfl, hmem⟩
  · obtain ⟨seen, hs, hseen⟩ := h.order before hb
    exact ⟨seen, hs.trans (List.prefix_append _ _), hseen⟩

end FirstMentions

/-! ### Paths -/

namespace Expr

/-- Members and conversions over the element of a resource. -/
inductive IsPath : Expr → Prop where
  | input (ref : InputRef) : IsPath (input ref)
  | member {source : Expr} (inner : IsPath source) (name : String) (ty : Ty) :
      IsPath (member source name ty)
  | convert {operand : Expr} (inner : IsPath operand) (ty : Ty) :
      IsPath (unary .convert operand ty)

/-- Paths hold no constants, so they are the same only if they are equal. -/
theorem IsPath.same_iff {a b : Expr} (h : a.IsPath) : a.same b = true ↔ a = b := by
  induction h generalizing b with
  | input ref => cases b <;> simp [same]
  | member inner name ty ih =>
    cases b with
    | member other field s => simp [same, ih, and_assoc]
    | _ => simp [same]
  | convert inner ty ih =>
    cases b with
    | unary op operand s => simp [same, ih, and_assoc]
    | _ => simp [same]

/-- A chain of members of a parameter refers to no resource. -/
theorem Reads.inputs_eq_nil {name : String} {names : List String} {expr : Expr}
    (h : Reads name names expr) : expr.inputs = [] := by
  induction h with
  | parameter same => rfl
  | member inner ih => exact ih
  | convert inner ih => exact ih

/-- A bound chain of members is a path, if its parameter has been replaced. -/
theorem Reads.isPath_bindInput {chain : Chain} {name : String} {names : List String} {expr : Expr}
    (h : Reads name names expr) (hi : (chain.bindInput name expr).inputs ≠ []) :
    (chain.bindInput name expr).IsPath := by
  induction h with
  | @parameter param same =>
    cases hr : chain.resolve? name (.parameter param) with
    | some resource =>
      rw [Chain.bindInput_of_some hr]
      exact .input _
    | none =>
      rw [Chain.bindInput_of_none hr] at hi
      exact absurd rfl hi
  | @member names source field ty inner ih =>
    cases hr : chain.resolve? name (.member source field ty) with
    | some resource =>
      rw [Chain.bindInput_of_some hr]
      exact .input _
    | none =>
      rw [Chain.bindInput_of_none hr] at hi ⊢
      exact .member (ih hi) field ty
  | @convert names operand ty inner ih => exact .convert (ih hi) ty

end Expr

/-! ### Keys and members -/

namespace Grouping

variable {chain : Chain} {name : String}

/-- What a grouped element may have as a member: a chain of members of the element, or the element
itself, that reads the leaf and no other resource. -/
structure IsMember (chain : Chain) (name : String) (expr : Expr) : Prop where
  isChain : ∃ names, Expr.Reads name names expr
  /-- Its parameter stands for an element. -/
  isBound : (chain.bindInput name expr).inputs ≠ []
  readsLeaf : (chain.bindInput name expr).ReadsOnly chain.leaf.id

/-- What a grouping may be keyed by: a member other than the element itself that is no entity and no
collection. -/
structure IsKey (chain : Chain) (name : String) (expr : Expr) : Prop
    extends IsMember chain name expr where
  notElement : ¬Expr.Reads name [] expr
  notEntity : ∀ entity, expr.ty ≠ .entity entity
  notCollection : ∀ element, expr.ty ≠ .collection element
  notGrouping : ∀ key element, expr.ty ≠ .grouping key element

namespace IsMember

variable {expr : Expr}

theorem isPath (h : IsMember chain name expr) : (chain.bindInput name expr).IsPath := by
  obtain ⟨names, hreads⟩ := h.isChain
  exact hreads.isPath_bindInput h.isBound

/-- A chain of members is accepted if the leaf is all that it reads. -/
theorem iff_readsOnlyLeaf {names : List String} (h : Expr.Reads name names expr) :
    IsMember chain name expr ↔ chain.readsOnlyLeaf name expr = true := by
  rw [Chain.readsOnlyLeaf_iff, Chain.mentions_eq h.inputs_eq_nil, ne_eq, List.map_eq_nil_iff,
    List.forall_mem_map]
  exact ⟨fun hm => ⟨hm.isBound, hm.readsLeaf⟩, fun hm => ⟨⟨names, h⟩, hm.1, hm.2⟩⟩

theorem boundToLeaf_eq_ok {names : List String} {bound : Expr} (h : Expr.Reads name names expr) :
    boundToLeaf chain name expr = .ok bound ↔
      IsMember chain name expr ∧ bound = chain.bindInput name expr := by
  rw [boundToLeaf, iff_readsOnlyLeaf h]
  split
  · next hleaf => simp [hleaf, eq_comm]
  · next hleaf => simp [hleaf]

end IsMember

/-- The members that are accepted, and what they are bound to. -/
theorem memberExpr_eq_ok {expr bound : Expr} :
    memberExpr chain name expr = .ok bound ↔
      IsMember chain name expr ∧ bound = chain.bindInput name expr := by
  rw [memberExpr]
  cases hchain : expr.chainFrom? name with
  | some names => exact IsMember.boundToLeaf_eq_ok (Expr.chainFrom?_eq_some.1 hchain)
  | none =>
    refine iff_of_false (by simp) fun h => ?_
    obtain ⟨names, hreads⟩ := h.1.isChain
    exact Expr.chainFrom?_eq_none.1 hchain names hreads

theorem isEntity_or_elementType? {ty : Ty} :
    (ty.isEntity || ty.elementType?.isSome) = false ↔
      (∀ entity, ty ≠ .entity entity) ∧ (∀ element, ty ≠ .collection element) ∧
        ∀ key element, ty ≠ .grouping key element := by
  cases ty <;> simp [Ty.isEntity, Ty.elementType?]

/-- The keys that are accepted, and what they are bound to. -/
theorem keyExpr_eq_ok {expr bound : Expr} :
    keyExpr chain name expr = .ok bound ↔
      IsKey chain name expr ∧ bound = chain.bindInput name expr := by
  constructor
  · intro h
    unfold keyExpr at h
    split at h
    · next first rest hchain =>
      have hreads := Expr.chainFrom?_eq_some.1 hchain
      split at h
      · cases h
      · next hty =>
        obtain ⟨he, hc, hg⟩ := isEntity_or_elementType?.1 (Bool.eq_false_iff.2 hty)
        obtain ⟨hmember, rfl⟩ := (IsMember.boundToLeaf_eq_ok hreads).1 h
        refine ⟨⟨hmember, fun helement => ?_, he, hc, hg⟩, rfl⟩
        -- the members along a chain are determined by it
        cases hchain.symm.trans (Expr.chainFrom?_eq_some.2 helement)
    · cases h
  · rintro ⟨⟨hmember, helement, he, hc, hg⟩, rfl⟩
    obtain ⟨names, hreads⟩ := hmember.isChain
    have hty := isEntity_or_elementType?.2 ⟨he, hc, hg⟩
    cases names with
    | nil => exact absurd hreads helement
    | cons first rest =>
      simp only [keyExpr, Expr.chainFrom?_eq_some.2 hreads, hty, Bool.false_eq_true, if_false]
      exact (IsMember.boundToLeaf_eq_ok hreads).2 ⟨hmember, rfl⟩

/-! ### Records -/

theorem mem_of_lookup {members : List (String × Expr)} {key : String} {expr : Expr}
    (h : members.lookup key = some expr) : expr ∈ members.map Prod.snd :=
  List.mem_map_of_mem (mem_of_lookup_eq_some h)

/-- The keys of a selector: the members that its body constructs, or else the body itself. -/
def keyExprs (body : Expr) : List Expr :=
  match body.members? with
  | some members => members.map Prod.snd
  | none => [body]

/-- A grouping with one more key, which is a member of a construction. -/
def withKey (chain : Chain) (name : String) (apply : Apply) (member : String × Expr) : Apply :=
  (apply.addKey member.1 (chain.bindInput name member.2)).addGrouping
    (chain.bindInput name member.2)

section Records

variable {apply added : Apply} {bounds : List Expr}

/-- An expression is recorded as what it is bound to, if it is accepted. -/
theorem run_record {x : Except CompileError Expr} {accepted : Prop} {value : Expr}
    (hx : ∀ bound, x = .ok bound ↔ accepted ∧ bound = value) {record : Expr → Apply → Apply} :
    (liftM x >>= fun bound => modify (record bound) : ApplyM Unit).run.run apply =
        (.ok (), added) ↔
      accepted ∧ added = record value apply := by
  rw [run_bind_eq_ok]
  constructor
  · rintro ⟨bound, between, hlift, hmodify⟩
    obtain ⟨hbound, rfl⟩ := run_lift_eq_ok.1 hlift
    obtain ⟨haccepted, rfl⟩ := (hx bound).1 hbound
    exact ⟨haccepted, (run_modify_eq_ok.1 hmodify).symm⟩
  · rintro ⟨haccepted, rfl⟩
    have hbound := (hx value).2 ⟨haccepted, rfl⟩
    exact ⟨value, apply, run_lift_eq_ok.2 ⟨hbound, rfl⟩, run_modify_eq_ok.2 rfl⟩

theorem addGrouping_frame (apply : Apply) (bound : Expr) :
    apply.addGrouping bound = { apply with grouping := (apply.addGrouping bound).grouping } := by
  rw [Apply.addGrouping]
  split <;> rfl

/-- A bound key is grouped by once. -/
theorem firstMentions_addGrouping (h : FirstMentions bounds apply.grouping)
    (hpaths : ∀ expr ∈ bounds, expr.IsPath) (bound : Expr) :
    FirstMentions (bounds ++ [bound]) (apply.addGrouping bound).grouping := by
  have hany : (apply.grouping.any fun existing => existing.same bound) = true ↔
      bound ∈ apply.grouping := by
    rw [List.any_eq_true]
    constructor
    · rintro ⟨existing, hm, hsame⟩
      have hpath := hpaths existing ((h.mem_iff existing).1 hm)
      rwa [← hpath.same_iff.1 hsame]
    · intro hm
      have hpath := hpaths bound ((h.mem_iff bound).1 hm)
      exact ⟨bound, hm, hpath.same_iff.2 rfl⟩
  rw [Apply.addGrouping]
  split
  · next hseen => exact h.again (hany.1 hseen)
  · next hnew => exact h.fresh fun hm => hnew (hany.2 hm)

/-- The members of a construction are recorded one after the other, by name and among what is
grouped by. -/
theorem foldl_withKey {members : List (String × Expr)} (h : FirstMentions bounds apply.grouping)
    (hpaths : ∀ expr ∈ bounds, expr.IsPath)
    (hkeys : ∀ member ∈ members, IsKey chain name member.2) :
    FirstMentions (bounds ++ (members.map Prod.snd).map (chain.bindInput name))
        (members.foldl (withKey chain name) apply).grouping ∧
      (members.foldl (withKey chain name) apply).keys =
        apply.keys ++ Expr.mapMembers (chain.bindInput name) members := by
  induction members generalizing apply bounds with
  | nil => exact ⟨by simpa using h, (List.append_nil _).symm⟩
  | cons member members ih =>
    rw [List.forall_mem_cons] at hkeys
    have hnamed : FirstMentions bounds
        (apply.addKey member.1 (chain.bindInput name member.2)).grouping := h
    have hfirst : FirstMentions (bounds ++ [chain.bindInput name member.2])
        (withKey chain name apply member).grouping := firstMentions_addGrouping hnamed hpaths _
    have hpaths' : ∀ expr ∈ bounds ++ [chain.bindInput name member.2], expr.IsPath := by
      intro expr hm
      obtain hm | hm := List.mem_append.1 hm
      · exact hpaths expr hm
      · rw [List.mem_singleton.1 hm]
        exact hkeys.1.isPath
    have hkeep : (withKey chain name apply member).keys =
        apply.keys ++ [(member.1, chain.bindInput name member.2)] := by
      rw [withKey, addGrouping_frame]
      rfl
    obtain ⟨hgrouping, hrest⟩ := ih hfirst hpaths' hkeys.2
    refine ⟨?_, ?_⟩
    · simpa [List.append_assoc] using hgrouping
    · rw [List.foldl_cons, hrest, hkeep, List.append_assoc]
      rfl

section Selector

variable {selector : Lambda} {param : Param}

/-- A construction is accepted if all of its members are keys. -/
theorem run_addKeys_members (hp : selector.param? = some param) {members : List (String × Expr)}
    (hm : selector.body.members? = some members) :
    (addKeys chain selector).run.run apply = (.ok (), added) ↔
      (∀ member ∈ members, IsKey chain param.name member.2) ∧
        added = members.foldl (withKey chain param.name) apply := by
  have hsingle : selector.single = .ok param := by rw [Lambda.single, hp]
  rw [addKeys, hsingle, hm]
  exact run_forM_iff fun member apply added => run_record fun bound => keyExpr_eq_ok

/-- Any other body is accepted if it is a key itself. -/
theorem run_addKeys_single (hp : selector.param? = some param)
    (hm : selector.body.members? = none) :
    (addKeys chain selector).run.run apply = (.ok (), added) ↔
      IsKey chain param.name selector.body ∧
        added = apply.addGrouping (chain.bindInput param.name selector.body) := by
  have hsingle : selector.single = .ok param := by rw [Lambda.single, hp]
  rw [addKeys, hsingle, hm]
  exact run_record fun bound => keyExpr_eq_ok

end Selector

end Records

/-- A key selector is accepted if its keys are chains of members of the element, of no entity or
collection type, that read the leaf alone. It is then grouped by its bound keys in the order of
their first mention, each member of a construction is recorded under its name, and the key under any
name is one of those that are grouped by. -/
theorem addKeys_exact (chain : Chain) {selector : Lambda} {param : Param}
    (hp : selector.param? = some param) {apply : Apply} (hgrouping : apply.grouping = [])
    (hkeys : apply.keys = []) :
    ((∃ added, (addKeys chain selector).run.run apply = (.ok (), added)) ↔
        ∀ expr ∈ keyExprs selector.body, IsKey chain param.name expr) ∧
      ∀ added, (addKeys chain selector).run.run apply = (.ok (), added) →
        FirstMentions ((keyExprs selector.body).map (chain.bindInput param.name)) added.grouping ∧
          added.keys =
            Expr.mapMembers (chain.bindInput param.name) (selector.body.members?.getD []) ∧
          ∀ key bound, added.key? key = some bound → bound ∈ added.grouping := by
  have hnil : FirstMentions [] apply.grouping := by
    rw [hgrouping]
    exact .nil
  cases hm : selector.body.members? with
  | some members =>
    have hexprs : keyExprs selector.body = members.map Prod.snd := by rw [keyExprs, hm]
    rw [hexprs, List.forall_mem_map]
    refine ⟨⟨?_, fun h => ⟨_, (run_addKeys_members hp hm).2 ⟨h, rfl⟩⟩⟩, fun added hadd => ?_⟩
    · rintro ⟨added, hadd⟩
      exact ((run_addKeys_members hp hm).1 hadd).1
    · obtain ⟨hall, rfl⟩ := (run_addKeys_members hp hm).1 hadd
      obtain ⟨hfirst, hnamed⟩ := foldl_withKey hnil (List.forall_mem_nil _) hall
      rw [hkeys, List.nil_append] at hnamed
      refine ⟨hfirst, hnamed, fun key bound hkey => ?_⟩
      rw [Apply.key?, hnamed] at hkey
      obtain ⟨expr, hexpr, rfl⟩ := Option.map_eq_some_iff.1
        ((Expr.lookup_mapMembers _ members key).symm.trans hkey)
      exact (hfirst.mem_iff _).2 (List.mem_map_of_mem (mem_of_lookup hexpr))
  | none =>
    have hexprs : keyExprs selector.body = [selector.body] := by rw [keyExprs, hm]
    rw [hexprs, List.forall_mem_singleton]
    refine ⟨⟨?_, fun h => ⟨_, (run_addKeys_single hp hm).2 ⟨h, rfl⟩⟩⟩, fun added hadd => ?_⟩
    · rintro ⟨added, hadd⟩
      exact ((run_addKeys_single hp hm).1 hadd).1
    · obtain ⟨hkey, rfl⟩ := (run_addKeys_single hp hm).1 hadd
      have hnamed : (apply.addGrouping (chain.bindInput param.name selector.body)).keys = [] := by
        rw [addGrouping_frame]
        exact hkeys
      refine ⟨firstMentions_addGrouping hnil (List.forall_mem_nil _) _, hnamed, ?_⟩
      intro key bound hfound
      rw [Apply.key?, hnamed] at hfound
      cases hfound

namespace Sample

def city : Expr := .member (.member s.toExpr "Ship" (.complex "Address")) "City" .string

def year : Expr := .unary .convert (.member s.toExpr "Year" .int32) .int64

def customer : Expr := .member s.toExpr "Customer" (.entity "Customer")

/-- The town that an order is sent to, its year, and the town again under another name. -/
def places : Lambda := ⟨[s], .newRecord .object [("Town", city), ("Year", year), ("Place", city)]⟩

/-- What a key selector records. -/
def keyed (selector : Lambda) : Apply := ((addKeys orders selector).run.run {}).2

end Sample

theorem addKeys_exact_places :
    (addKeys Sample.orders Sample.places).run.run {} = (.ok (), Sample.keyed Sample.places) ∧
      FirstMentions ((keyExprs Sample.places.body).map (Sample.orders.bindInput "s"))
        (Sample.keyed Sample.places).grouping ∧
      (Sample.keyed Sample.places).grouping =
        [Sample.orders.bindInput "s" Sample.city, Sample.orders.bindInput "s" Sample.year] ∧
      (Sample.keyed Sample.places).keys.map Prod.fst = ["Town", "Year", "Place"] ∧
      Sample.orders.bindInput "s" Sample.city ∈ (Sample.keyed Sample.places).grouping ∧
      ¬∃ added, (addKeys Sample.orders ⟨[Sample.s], Sample.customer⟩).run.run {} =
        (.ok (), added) := by
  have hadds : (addKeys Sample.orders Sample.places).run.run {} =
      (.ok (), Sample.keyed Sample.places) := rfl
  have hplaces := @addKeys_exact Sample.orders Sample.places Sample.s rfl {} rfl rfl
  have hcustomer :=
    @addKeys_exact Sample.orders ⟨[Sample.s], Sample.customer⟩ Sample.s rfl {} rfl rfl
  obtain ⟨hfirst, hnamed, hfound⟩ := hplaces.2 _ hadds
  refine ⟨hadds, hfirst, rfl, ?_, hfound "Place" _ rfl, fun hadded => ?_⟩
  · rw [hnamed]
    rfl
  · -- an entity is no key
    exact (hcustomer.1.1 hadded _ List.mem_cons_self).notEntity "Customer" rfl

end Grouping

end ServiceQuery
