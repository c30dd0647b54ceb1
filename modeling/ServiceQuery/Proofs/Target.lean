import ServiceQuery.Proofs.Input

/-!
# Expressions up to resource numbers

The number of a resource changes while a query is bound, and what an expression says about the
element of that resource does not.
-/

namespace ServiceQuery

namespace Expr

/-- The expression with the numbers of the resources it refers to forgotten. -/
def withoutTargets (expr : Expr) : Expr :=
  expr.replace fun
    | input ref => some (input { ref with target := 0 })
    | _ => none

@[simp]
theorem withoutTargets_input (ref : InputRef) :
    (input ref).withoutTargets = input { ref with target := 0 } := by
  rw [withoutTargets, replace_eq]
  rfl

/-- At any node but a reference the subexpressions forget their numbers. -/
theorem withoutTargets_eq {expr : Expr} (h : ∀ ref, expr ≠ input ref) :
    expr.withoutTargets = expr.mapChildren withoutTargets := by
  rw [withoutTargets, replace_eq]
  cases expr with
  | input ref => exact absurd rfl (h ref)
  | _ => rfl

theorem withoutTargets_mapChildren (f : Expr → Expr) {expr : Expr} (h : ∀ ref, expr ≠ input ref) :
    (expr.mapChildren f).withoutTargets =
      expr.mapChildren fun child => (f child).withoutTargets := by
  have hf : ∀ ref, expr.mapChildren f ≠ input ref := by
    intro ref he
    cases expr with
    | input other => exact h other rfl
    | _ => cases he
  rw [withoutTargets_eq hf, mapChildren_mapChildren]

/-- Replacements that agree up to numbers lead to the same expression up to numbers. -/
theorem withoutTargets_replace_congr {r s : Expr → Option Expr}
    (h : ∀ node, (r node).map withoutTargets = (s node).map withoutTargets) (expr : Expr) :
    (expr.replace r).withoutTargets = (expr.replace s).withoutTargets := by
  induction expr using induction_children with | node expr ih =>
  have hn := h expr
  rw [replace_eq r, replace_eq s]
  cases hr : r expr with
  | some x =>
    obtain ⟨y, hs, hy⟩ : ∃ y, s expr = some y ∧ y.withoutTargets = x.withoutTargets := by
      rw [hr, Option.map_some] at hn
      exact Option.map_eq_some_iff.1 hn.symm
    rw [hs, Option.getD_some, Option.getD_some, hy]
  | none =>
    have hs : s expr = none := by
      rw [hr, Option.map_none] at hn
      exact Option.map_eq_none_iff.1 hn.symm
    rw [hs, Option.getD_none, Option.getD_none]
    cases expr with
    | input ref => rfl
    | _ =>
      rw [withoutTargets_mapChildren _ (by simp), withoutTargets_mapChildren _ (by simp)]
      exact mapChildren_congr ih

/-- A replacement that changes numbers only changes numbers only. -/
theorem withoutTargets_replace {r : Expr → Option Expr}
    (h : ∀ node x, r node = some x → x.withoutTargets = node.withoutTargets) (expr : Expr) :
    (expr.replace r).withoutTargets = expr.withoutTargets := by
  induction expr using induction_children with | node expr ih =>
  rw [replace_eq r]
  cases hr : r expr with
  | some x => exact h expr x hr
  | none =>
    rw [Option.getD_none]
    cases expr with
    | input ref => rfl
    | _ =>
      rw [withoutTargets_mapChildren _ (by simp), withoutTargets_eq (by simp)]
      exact mapChildren_congr ih

/-- References that follow a resource to another number are the same up to numbers. -/
@[simp]
theorem withoutTargets_retarget (old new : ResourceId) (expr : Expr) :
    (expr.retarget old new).withoutTargets = expr.withoutTargets := by
  refine withoutTargets_replace (fun node x hx => ?_) expr
  cases node with
  | input ref =>
    dsimp only at hx
    split at hx
    · obtain rfl := Option.some.inj hx
      rw [withoutTargets_input, withoutTargets_input]
    · cases hx
  | _ => cases hx

end Expr

/-- What lambdas over the elements of a resource depend on: its number, the type of its elements and
its scope. -/
def Resource.face (resource : Resource) : ResourceId × Ty × Option TransparentScope :=
  (resource.id, resource.elementType, resource.scope)

theorem Resource.face_eq {a b : Resource} :
    a.face = b.face ↔ a.id = b.id ∧ a.elementType = b.elementType ∧ a.scope = b.scope := by
  simp [face]

/-- The faces of the resources of a chain, root first. -/
def Chain.faces (chain : Chain) : List (ResourceId × Ty × Option TransparentScope) :=
  chain.resources.map Resource.face

namespace Chain

variable {c d : Chain}

theorem faces_eq (chain : Chain) :
    chain.faces = (chain.ancestors.reverse.map Resource.face) ++ [chain.leaf.face] := by
  simp [faces, resources]

/-- Chains with equal faces have leaves with equal faces. -/
theorem face_leaf (h : c.faces = d.faces) : c.leaf.face = d.leaf.face := by
  rw [faces_eq, faces_eq] at h
  exact List.singleton_inj.1 (List.append_inj' h rfl).2

/-- A change of the leaf that keeps its face keeps all faces. -/
theorem faces_mapLeaf {chain : Chain} {f : Resource → Resource}
    (h : (f chain.leaf).face = chain.leaf.face) : (chain.mapLeaf f).faces = chain.faces := by
  rw [faces_eq, faces_eq, mapLeaf, h]

/-- Resources that are found in two chains with equal faces have equal faces. -/
theorem rel_find? (h : c.faces = d.faces) (id : ResourceId) :
    Option.Rel (fun a b => a.face = b.face) (c.find? id) (d.find? id) := by
  have hface (chain : Chain) :
      (chain.find? id).map Resource.face = chain.faces.find? fun face => face.1 == id := by
    rw [faces, List.find?_map]
    rfl
  have hfound : (c.find? id).map Resource.face = (d.find? id).map Resource.face := by
    rw [hface, hface, h]
  cases hc : c.find? id with
  | none =>
    have hd : d.find? id = none := by simpa [hc] using hfound.symm
    rw [hd]
    exact .none
  | some a =>
    obtain ⟨b, hd, hb⟩ : ∃ b, d.find? id = some b ∧ b.face = a.face := by
      simpa [hc] using hfound.symm
    rw [hd]
    exact .some hb.symm

theorem rel_cases {R : Resource → Resource → Prop} {x y : Option Resource}
    (h : Option.Rel R x y) : x = none ∧ y = none ∨ ∃ a b, x = some a ∧ y = some b ∧ R a b := by
  cases h with
  | none => exact .inl ⟨rfl, rfl⟩
  | some hab => exact .inr ⟨_, _, rfl, rfl, hab⟩

/-- Searches that go on alike from related resources end in related ones. -/
theorem rel_bind {R : Resource → Resource → Prop} {x y : Option Resource}
    {f g : Resource → Option Resource} (h : Option.Rel R x y)
    (hfg : ∀ a b, R a b → Option.Rel R (f a) (g b)) : Option.Rel R (x.bind f) (y.bind g) := by
  cases h with
  | none => exact .none
  | some hab => exact hfg _ _ hab

/-- A relation between the resources of two chains under which lambdas over their leaves read related
resources. -/
structure Matches (R : Resource → Resource → Prop) (c d : Chain) : Prop where
  leaf : R c.leaf d.leaf
  elementType : ∀ a b, R a b → a.elementType = b.elementType
  scope : ∀ a b, R a b → a.scope = b.scope
  outer : ∀ a b, R a b → ∀ scope, b.scope = some scope → ∀ outer, scope.outer = some outer →
    Option.Rel R (c.find? outer.2) (d.find? outer.2)

theorem matches_of_faces (h : c.faces = d.faces) : Matches (fun a b => a.face = b.face) c d where
  leaf := face_leaf h
  elementType _ _ hab := (Resource.face_eq.1 hab).2.1
  scope _ _ hab := (Resource.face_eq.1 hab).2.2
  outer _ _ _ _ _ _ _ := rel_find? h _

/-- Without scopes the types of the elements decide. -/
theorem matches_of_scope_eq_none (hc : c.leaf.scope = none) (hd : d.leaf.scope = none)
    (ht : c.leaf.elementType = d.leaf.elementType) :
    Matches (fun a b => a = c.leaf ∧ b = d.leaf) c d where
  leaf := ⟨rfl, rfl⟩
  elementType := by
    rintro _ _ ⟨rfl, rfl⟩
    exact ht
  scope := by
    rintro _ _ ⟨rfl, rfl⟩
    rw [hc, hd]
  outer := by
    rintro _ _ ⟨rfl, rfl⟩ scope hs
    rw [hd] at hs
    cases hs

namespace Matches

variable {R : Resource → Resource → Prop} (h : Matches R c d) (name : String)
include h

theorem scopeOf? (expr : Expr) : Option.Rel R (c.scopeOf? name expr) (d.scopeOf? name expr) := by
  induction expr using Expr.induction_children with | node expr ih =>
  cases expr with
  | parameter param =>
    rw [Chain.scopeOf?, Chain.scopeOf?, h.scope _ _ h.leaf]
    split
    · exact .some h.leaf
    · exact .none
  | member source member ty =>
    rw [Chain.scopeOf?, Chain.scopeOf?]
    refine rel_bind (ih source List.mem_cons_self) fun a b hab => ?_
    rw [h.scope a b hab]
    cases hs : b.scope with
    | none => exact .none
    | some scope =>
      cases ho : scope.outer with
      | none =>
        simp only [ho, Option.bind_eq_bind, Option.bind_some, Option.bind_none]
        exact .none
      | some outer =>
        simp only [ho, Option.bind_eq_bind, Option.bind_some]
        split
        · refine rel_bind (h.outer a b hab scope hs outer ho) fun a b hab => ?_
          rw [h.scope a b hab]
          split
          · exact .some hab
          · exact .none
        · exact .none
  | _ => exact .none

/-- An expression denotes the elements of related resources. -/
theorem resolve? (expr : Expr) : Option.Rel R (c.resolve? name expr) (d.resolve? name expr) := by
  cases expr with
  | parameter param =>
    rw [Chain.resolve?, Chain.resolve?, h.elementType _ _ h.leaf]
    split
    · exact .some h.leaf
    · exact .none
  | member source member ty =>
    rw [Chain.resolve?, Chain.resolve?]
    refine rel_bind (h.scopeOf? name source) fun a b hab => ?_
    rw [h.scope a b hab]
    cases hs : b.scope with
    | none => exact .none
    | some scope =>
      simp only [Option.bind_eq_bind, Option.bind_some]
      split
      · exact .some hab
      · cases ho : scope.outer with
        | none => exact .none
        | some outer =>
          simp only [Option.bind_some]
          split
          · refine rel_bind (h.outer a b hab scope hs outer ho) fun a b hab => ?_
            rw [h.scope a b hab]
            split
            · exact .some hab
            · exact .none
          · exact .none
  | _ => exact .none

/-- If related resources have the same numbers, bodies are bound alike. -/
theorem bindInput_eq (hid : ∀ a b, R a b → a.id = b.id) (expr : Expr) :
    c.bindInput name expr = d.bindInput name expr := by
  rw [bindInput, bindInput]
  congr 1
  funext node
  obtain ⟨hc, hd⟩ | ⟨a, b, hc, hd, hab⟩ := rel_cases (h.resolve? name node)
  · rw [hc, hd]
  · simp only [hc, hd, Resource.inputRef, hid a b hab, h.elementType a b hab]

/-- Bodies are bound alike up to numbers. -/
theorem withoutTargets_bindInput (expr : Expr) :
    (c.bindInput name expr).withoutTargets = (d.bindInput name expr).withoutTargets := by
  refine Expr.withoutTargets_replace_congr (fun node => ?_) expr
  obtain ⟨hc, hd⟩ | ⟨a, b, hc, hd, hab⟩ := rel_cases (h.resolve? name node)
  · rw [hc, hd]
  · simp [hc, hd, Resource.inputRef, h.elementType a b hab]

/-- A body reads no resource but the leaf of one chain exactly if it is so for the other one, unless
references of its own tell the leaves apart. -/
theorem forall_referenced
    (hleaf : ∀ a b, R a b → (a.id = c.leaf.id ↔ b.id = d.leaf.id)) {expr : Expr}
    (hi : ∀ ref ∈ expr.inputs, (ref.target = c.leaf.id ↔ ref.target = d.leaf.id)) :
    (∀ id ∈ c.referenced name expr, id = c.leaf.id) ↔
      ∀ id ∈ d.referenced name expr, id = d.leaf.id := by
  simp only [referenced, List.mem_eraseDups]
  induction expr using Expr.induction_children with | node expr ih =>
  rw [Expr.gather_eq, Expr.gather_eq]
  obtain ⟨hc, hd⟩ | ⟨a, b, hc, hd, hab⟩ := rel_cases (h.resolve? name expr)
  · rw [hc, hd]
    have hchild := fun child hm => ih child hm fun ref hr => hi ref (Expr.inputs_subset hm hr)
    cases expr with
    | input ref => simpa using hi ref (Expr.mem_inputs.2 (.inl rfl))
    | lambda params body =>
      by_cases hdeclares : Param.declares params name = true
      · simp [hdeclares]
      · simpa [hdeclares, Expr.children] using hchild body List.mem_cons_self
    | _ =>
      simp only [Option.getD_none, List.forall_mem_flatMap]
      exact forall_congr' fun child => forall_congr' fun hm => hchild child hm
  · simpa [hc, hd] using hleaf a b hab

end Matches

/-- Binding a body depends on the faces of the chain only. -/
theorem bindInput_congr (h : c.faces = d.faces) (name : String) (expr : Expr) :
    c.bindInput name expr = d.bindInput name expr :=
  (matches_of_faces h).bindInput_eq name (fun _ _ hab => (Resource.face_eq.1 hab).1) expr

end Chain

end ServiceQuery
