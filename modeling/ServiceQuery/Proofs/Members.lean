import ServiceQuery.Path.Parser
import ServiceQuery.Proofs.Element
import ServiceQuery.Proofs.NormalForm
import ServiceQuery.Proofs.Occurrence

/-!
# The members that a query names

A query names members of the elements that it is about: those that it reads, and those of the paths
that it expands by a text. What becomes of the query on the way to a request names no others.
-/

namespace ServiceQuery

/-- The names of the properties in the text of a path. Reserved segments name none. -/
def Path.namesIn (text : String) : List String :=
  ((segmentTexts text.toList).filter fun segment => segment.head? != some '$').map
    fun segment => (splitValues segment).1

namespace Expr

/-- The member that a node reads. -/
def ownMember : Expr → List String
  | member _ name _ => [name]
  | _ => []

/-- The members that an expression reads. -/
def memberNames (expr : Expr) : List String := expr.nodes.flatMap ownMember

/-- The string that a node is. -/
def ownString : Expr → List String
  | constant (.string text) => [text]
  | _ => []

/-- The strings in an expression. -/
def strings (expr : Expr) : List String := expr.nodes.flatMap ownString

/-- The members in the text of a path that a node expands. -/
def ownExpanded : Expr → List String
  | call method [_, path] _ => if method = "Expand" then path.strings.flatMap Path.namesIn else []
  | _ => []

/-- The members in the texts of paths that an expression expands. -/
def expandedNames (expr : Expr) : List String := expr.nodes.flatMap ownExpanded

/-- The members that an expression reads, or expands by a text. -/
def namedMembers (expr : Expr) : List String := expr.memberNames ++ expr.expandedNames

section Nodes

variable {α : Type} {own : Expr → List α} {expr : Expr} {a : α}

theorem mem_flatMap_nodes :
    a ∈ expr.nodes.flatMap own ↔
      a ∈ own expr ∨ ∃ child ∈ expr.children, a ∈ child.nodes.flatMap own := by
  rw [nodes_eq, List.flatMap_cons, List.mem_append, List.flatMap_assoc, List.mem_flatMap]

/-- What the subexpressions of a node become does not add to what the node has itself. -/
theorem mem_flatMap_nodes_mapChildren {f : Expr → Expr}
    (hown : own (expr.mapChildren f) ⊆ own expr) (h : a ∈ (expr.mapChildren f).nodes.flatMap own) :
    a ∈ own expr ∨ ∃ child ∈ expr.children, a ∈ (f child).nodes.flatMap own := by
  obtain h | ⟨child, hc, h⟩ := mem_flatMap_nodes.1 h
  · exact .inl (hown h)
  · rw [children_mapChildren] at hc
    obtain ⟨before, hb, rfl⟩ := List.mem_map.1 hc
    exact .inr ⟨before, hb, h⟩

theorem ownMember_mapChildren (f : Expr → Expr) (expr : Expr) :
    ownMember (expr.mapChildren f) ⊆ ownMember expr := by
  cases expr <;> exact List.Subset.refl _

theorem ownString_mapChildren (f : Expr → Expr) (expr : Expr) :
    ownString (expr.mapChildren f) ⊆ ownString expr := by
  cases expr <;> exact List.Subset.refl _

theorem memberNames_subset {child : Expr} (h : child ∈ expr.children) :
    child.memberNames ⊆ expr.memberNames :=
  flatMap_nodes_subset ownMember h

theorem namedMembers_subset {child : Expr} (h : child ∈ expr.children) :
    child.namedMembers ⊆ expr.namedMembers := by
  rw [namedMembers, namedMembers, List.append_subset]
  exact ⟨fun name hm => List.mem_append_left _ (memberNames_subset h hm),
    fun name hm => List.mem_append_right _ (flatMap_nodes_subset ownExpanded h hm)⟩

end Nodes

/-! ### Normal forms -/

section Normalize

variable {α : Type} {own : Expr → List α}

/-- A step leaves out nodes of operators and adds such nodes, and no others. -/
theorem Step.flatMap_nodes_subset {expr generated : Expr} (h : Step expr generated)
    (hunary : ∀ op operand ty, own (unary op operand ty) = [])
    (hbinary : ∀ op left right, own (binary op left right) = []) :
    generated.nodes.flatMap own ⊆ expr.nodes.flatMap own := by
  cases h with
  | notNot operand ty ty' =>
    intro a hm
    refine mem_flatMap_nodes.2 (.inr ⟨_, List.mem_cons_self, ?_⟩)
    exact mem_flatMap_nodes.2 (.inr ⟨_, List.mem_cons_self, hm⟩)
  | @compare op left right a b _ _ operands =>
    intro x hm
    obtain hm | ⟨child, hc, hm⟩ := mem_flatMap_nodes.1 hm
    · rw [hbinary] at hm
      cases hm
    · refine mem_flatMap_nodes.2 (.inr ⟨left, List.mem_cons_self, ?_⟩)
      refine mem_flatMap_nodes.2 (.inr ⟨child, ?_, hm⟩)
      rwa [children_of_comparedOperands? operands]
  | @literal op left right operand literal _ compared =>
    have hoperand : operand.nodes.flatMap own ⊆ (binary op left right).nodes.flatMap own :=
      Expr.flatMap_nodes_subset own (mem_children_of_comparedLiteral? compared)
    split
    · exact hoperand
    · intro x hm
      obtain hm | ⟨child, hc, hm⟩ := mem_flatMap_nodes.1 hm
      · rw [logicalNot, hunary] at hm
        cases hm
      · rw [List.mem_singleton.1 hc] at hm
        exact hoperand hm

/-- A normal form has what the expression has, if operators have nothing of it and the normal forms
of subexpressions add nothing to a node. -/
theorem flatMap_nodes_normalize
    (hown : ∀ expr, own (expr.mapChildren fun child => child.normalize.1) ⊆ own expr)
    (hunary : ∀ op operand ty, own (unary op operand ty) = [])
    (hbinary : ∀ op left right, own (binary op left right) = []) (expr : Expr) :
    expr.normalize.1.nodes.flatMap own ⊆ expr.nodes.flatMap own := by
  have hadvance (expr : Expr) : expr.advance.nodes.flatMap own ⊆ expr.nodes.flatMap own := by
    cases hs : expr.simpler? with
    | none =>
      rw [advance_of_none hs]
      exact List.Subset.refl _
    | some generated =>
      rw [advance_of_some hs]
      exact (Step.of_simpler? hs).flatMap_nodes_subset hunary hbinary
  induction expr using induction_children with
  | node expr ih =>
    rw [normalize_eq]
    intro a hm
    obtain hm | ⟨child, hc, hm⟩ :=
      mem_flatMap_nodes_mapChildren (hown expr) (hadvance _ (hadvance _ hm))
    · exact mem_flatMap_nodes.2 (.inl hm)
    · exact mem_flatMap_nodes.2 (.inr ⟨child, hc, ih child hc hm⟩)

theorem strings_normalize (expr : Expr) : expr.normalize.1.strings ⊆ expr.strings :=
  flatMap_nodes_normalize (ownString_mapChildren _) (fun _ _ _ => rfl) (fun _ _ _ => rfl) expr

theorem memberNames_normalize (expr : Expr) : expr.normalize.1.memberNames ⊆ expr.memberNames :=
  flatMap_nodes_normalize (ownMember_mapChildren _) (fun _ _ _ => rfl) (fun _ _ _ => rfl) expr

theorem ownExpanded_normalize (expr : Expr) :
    ownExpanded (expr.mapChildren fun child => child.normalize.1) ⊆ ownExpanded expr := by
  cases expr with
  | call method args ty =>
    intro name hm
    -- only a call with two arguments expands a path
    match args with
    | [source, path] =>
      rw [mapChildren, List.map_cons, List.map_cons, List.map_nil, ownExpanded] at hm
      rw [ownExpanded]
      split at hm
      · next he =>
        rw [if_pos he]
        obtain ⟨text, ht, hm⟩ := List.mem_flatMap.1 hm
        exact List.mem_flatMap.2 ⟨text, strings_normalize path ht, hm⟩
      · cases hm
    | [] | [_] | _ :: _ :: _ :: _ => cases hm
  | _ => exact List.nil_subset _

theorem expandedNames_normalize (expr : Expr) :
    expr.normalize.1.expandedNames ⊆ expr.expandedNames :=
  flatMap_nodes_normalize ownExpanded_normalize (fun _ _ _ => rfl) (fun _ _ _ => rfl) expr

/-- A normal form names no other members. -/
theorem namedMembers_normalize (expr : Expr) :
    expr.normalize.1.namedMembers ⊆ expr.namedMembers := by
  rw [namedMembers, namedMembers, List.append_subset]
  exact ⟨fun name hm => List.mem_append_left _ (memberNames_normalize expr hm),
    fun name hm => List.mem_append_right _ (expandedNames_normalize expr hm)⟩

end Normalize

/-! ### Projections -/

theorem memberNames_replaceAccessor? {old accessor : String} {new : Param} {expr result : Expr}
    (h : expr.replaceAccessor? old accessor new = some result) :
    result.memberNames ⊆ expr.memberNames := by
  induction expr using induction_accesses old accessor generalizing result with
  | access expr ha =>
    rw [replaceAccessor?_of_accesses ha] at h
    cases h
    exact List.nil_subset _
  | self param hp =>
    subst hp
    rw [replaceAccessor?_parameter_self] at h
    cases h
  | other param hp =>
    rw [replaceAccessor?_parameter_of_ne hp] at h
    cases h
    exact List.Subset.refl _
  | shadow params body hp =>
    rw [replaceAccessor?_lambda_of_mem hp] at h
    cases h
    exact List.Subset.refl _
  | scope params body hp ih =>
    rw [replaceAccessor?_lambda_of_notMem hp] at h
    obtain ⟨inner, hi, rfl⟩ := Option.map_eq_some_iff.1 h
    have hinner : inner.memberNames ⊆ body.memberNames := ih hi
    exact hinner
  | node expr ha hn ih =>
    rw [replaceAccessor?_of_isNameless hn ha] at h
    obtain ⟨g, rfl, hg⟩ := mapChildrenM_gives .option h
    intro name hm
    obtain hm | ⟨child, hc, hm⟩ := mem_flatMap_nodes_mapChildren (ownMember_mapChildren g expr) hm
    · exact mem_flatMap_nodes.2 (.inl hm)
    · exact memberNames_subset hc (ih child hc (hg child hc) hm)

theorem memberNames_constructed? {name : String} {expr found : Expr}
    (h : expr.constructed? name = some found) : found.memberNames ⊆ expr.memberNames := by
  obtain ⟨members, hm, hl⟩ := Option.bind_eq_some_iff.1 h
  obtain ⟨before, after, he, -⟩ := List.lookup_eq_some_iff.1 hl
  refine memberNames_subset ?_
  rw [children_of_members? hm, he]
  exact List.mem_map_of_mem (List.mem_append_right before List.mem_cons_self)

theorem memberNames_shorten (expr : Expr) : expr.shorten.memberNames ⊆ expr.memberNames := by
  cases expr with
  | member source field ty =>
    rw [shorten]
    cases hc : source.constructed? field with
    | none => exact List.Subset.refl _
    | some found =>
      intro name hm
      exact memberNames_subset List.mem_cons_self (memberNames_constructed? hc hm)
  | _ => exact List.Subset.refl _

theorem memberNames_substitute (expr : Expr) (name : String) (replacement : Expr) :
    (expr.substitute name replacement).memberNames ⊆
      expr.memberNames ++ replacement.memberNames := by
  induction expr using induction_children with
  | node expr ih =>
    rw [substitute_eq]
    cases hs : expr.substituted? name replacement with
    | some result =>
      rw [Option.getD_some]
      cases expr with
      | parameter param =>
        rw [substituted?] at hs
        split at hs
        · cases hs
          exact List.subset_append_right _ _
        · cases hs
      | lambda params body =>
        rw [substituted?] at hs
        split at hs
        · cases hs
          exact List.subset_append_left _ _
        · cases hs
      | _ => cases hs
    | none =>
      rw [Option.getD_none]
      intro field hm
      obtain hm | ⟨child, hc, hm⟩ :=
        mem_flatMap_nodes_mapChildren (ownMember_mapChildren _ expr) (memberNames_shorten _ hm)
      · exact List.mem_append_left _ (mem_flatMap_nodes.2 (.inl hm))
      · obtain hm | hm := List.mem_append.1 (ih child hc hm)
        · exact List.mem_append_left _ (memberNames_subset hc hm)
        · exact List.mem_append_right _ hm

/-! ### Chains of members -/

theorem Reads.subset {name : String} {names : List String} {expr : Expr}
    (h : Reads name names expr) : names ⊆ expr.memberNames := by
  induction h with
  | parameter same => exact List.nil_subset _
  | @member names source field ty inner ih =>
    rw [List.append_subset]
    refine ⟨fun other hm => memberNames_subset List.mem_cons_self (ih hm), ?_⟩
    intro other hm
    exact mem_flatMap_nodes.2 (.inl hm)
  | convert inner ih => exact fun other hm => memberNames_subset List.mem_cons_self (ih hm)

theorem InScope.memberNames_subset {name : String} {node expr : Expr} (h : InScope name node expr) :
    node.memberNames ⊆ expr.memberNames := by
  induction h with
  | here => exact List.Subset.refl _
  | inside passes mem inner ih => exact fun other hm => Expr.memberNames_subset mem (ih hm)

theorem ReadsLongest.subset {name : String} {names : List String} {expr : Expr}
    (h : ReadsLongest name names expr) : names ⊆ expr.memberNames := by
  obtain h | ⟨outer, hs, -, -, node, hm, h⟩ := h
  · exact h.subset
  · intro field hf
    exact hs.memberNames_subset (memberNames_subset hm (h.subset hf))

end Expr

end ServiceQuery
