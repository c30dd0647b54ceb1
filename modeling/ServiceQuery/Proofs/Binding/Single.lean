import ServiceQuery.Proofs.Binding.Moves

/-!
# Queries of single elements

Options that filter, order, cut, group or count are for collections. A leaf may become a single
element after options were put on it, when a predicate turns out to be a key; this is so only for a
leaf without sequence options and grouping, but one that was asked for its number of elements keeps
that.
-/

namespace ServiceQuery

/-- The resource has a sequence option or a grouping only if it is a collection, and its elements are
addressed. -/
structure Resource.Bare (resource : Resource) : Prop where
  options : resource.isSingle = true → resource.sequence = [] ∧ resource.apply = none
  segment : resource.countSegment = false

/-- A collection may carry any option. -/
theorem Resource.Bare.of_collection {resource : Resource} (h : resource.isSingle = false)
    (hc : resource.countSegment = false) : resource.Bare :=
  ⟨fun hs => absurd hs (by simp [h]), hc⟩

namespace Binding

variable {metadata : Metadata} {chain chain' : Chain} {n m : ResourceId} {asks : Bool}

/-- What one operator leaves on a single element. -/
theorem Moves.bare (h : Moves metadata chain n asks chain' m) (hb : chain.leaf.Bare) :
    chain'.leaf.Bare := by
  have hsegment : chain.demoted.leaf.countSegment = false :=
    chain.leaf.demoteKey_frame.2.1.trans hb.segment
  cases h with
  | restrict sequence apply collection => exact .of_collection collection hsegment
  | count count asked collection => exact .of_collection collection hsegment
  | key key bound found =>
    obtain ⟨hs, -, ha⟩ := keyIn_some found
    rw [Chain.mapLeaf, Resource.renumber_withKeyFilter hs ha]
    exact ⟨fun _ => ⟨hs, ha⟩, hsegment⟩
  | describe projection expand custom => exact ⟨hb.options, hb.segment⟩
  | aggregate apply grouped =>
    -- a grouped leaf is a collection
    refine .of_collection (Bool.eq_false_iff.2 fun hs => ?_) hb.segment
    have hnone : chain.leaf.apply = none := (hb.options hs).2
    rw [hnone] at grouped
    cases grouped
  | navigate properties target scope m single bare followed opened =>
    obtain ⟨-, rfl⟩ | ⟨-, id, name, ty, collection, hleaf⟩ := followed_leaf followed
    · exact ⟨hb.options, hb.segment⟩
    · rw [Chain.mapLeaf, hleaf]
      exact ⟨fun _ => ⟨rfl, rfl⟩, rfl⟩

/-- What one operator does to the question for the number of elements. -/
theorem Moves.count_eq_none (h : Moves metadata chain n asks chain' m) :
    chain'.leaf.count = .none ↔ chain.leaf.count = .none ∧ asks = false := by
  have hdemoted : chain.demoted.leaf.count = chain.leaf.count := chain.leaf.demoteKey_frame.2.2
  cases h with
  | restrict sequence apply collection => simp [Chain.mapLeaf, hdemoted]
  | count count asked collection => simp [Chain.mapLeaf, asked]
  | key key bound found =>
    obtain ⟨hs, -, ha⟩ := keyIn_some found
    simp [Chain.mapLeaf, Resource.renumber_withKeyFilter hs ha, hdemoted]
  | describe projection expand custom => simp [Chain.mapLeaf]
  | aggregate apply grouped => simp [Chain.mapLeaf]
  | navigate properties target scope m single bare followed opened =>
    -- a leaf that was asked for its number of elements is not navigated from
    have hnone : chain.leaf.count = .none := (Resource.applied_eq_nil.1 bare).2.2.2.2.1
    obtain ⟨-, rfl⟩ | ⟨-, id, name, ty, collection, hleaf⟩ := followed_leaf followed
    · simp [Chain.mapLeaf]
    · simp [Chain.mapLeaf, hleaf, hnone, Resource.ofNavigation]

theorem bind_bare {expr : Expr} (h : (bind metadata expr).run n = .ok (chain, m)) :
    chain.leaf.Bare := by
  refine bind_induction (motive := fun _ chain _ => chain.leaf.Bare) ?_ ?_ h
  · intro origin
    exact ⟨fun _ => ⟨rfl, rfl⟩, rfl⟩
  · intro method source args ty chain operator chain' k m _ _ _ hstep hb
    exact (step_moves hstep).bare hb

/-- Whether a call of a query asks for the number of elements, or not to be told it. -/
def asksCount : Expr → Bool
  | .call method (source :: _) _ => method == "IncludeCount" || asksCount source
  | _ => false

theorem asksCount_ofCall? {method : String} {args : List Expr} {operator : Operator}
    (h : Operator.ofCall? method args = some operator) :
    operator.asksCount = (method == "IncludeCount") := by
  obtain ⟨rfl, -⟩ := Operator.ofCall?_some h
  cases operator with
  | orderBy key descending | thenBy key descending => cases descending <;> rfl
  | _ => rfl

/-- The number of elements is asked for by a call, and no later operator forgets it. -/
theorem bind_count {expr : Expr} (h : (bind metadata expr).run n = .ok (chain, m)) :
    chain.leaf.count = .none ↔ asksCount expr = false := by
  refine bind_induction (motive := fun expr chain _ =>
    chain.leaf.count = .none ↔ asksCount expr = false) ?_ ?_ h
  · intro origin
    simp [Resource.ofRoot, asksCount]
  · intro method source args ty chain operator chain' k m _ _ hcall hstep ih
    have hasks := asksCount_ofCall? hcall
    rw [(step_moves hstep).count_eq_none, ih, asksCount, Bool.or_eq_false_iff, hasks, and_comm]

/-- A call that may only come last does not ask for the number of elements beside them. -/
theorem asksCount_terminal {method : String} {terminal : Terminal}
    (h : Terminal.ofMethod? method = some terminal) (source : Expr) (args : List Expr) (ty : Ty) :
    asksCount (.call method (source :: args) ty) = asksCount source := by
  have hne : method ≠ "IncludeCount" := by
    rintro rfl
    cases h
  simp [asksCount, hne]

/-- A query of a single element has no sequence option, no grouping and no count segment. It carries
the question for the number of elements exactly if one of its calls asks it. -/
theorem bindQuery_single {expr : Expr} {query : BoundQuery}
    (h : (bindQuery metadata expr).run n = .ok (query, m))
    (hs : query.chain.leaf.isSingle = true) :
    query.chain.leaf.sequence = [] ∧ query.chain.leaf.apply = none ∧
      query.chain.leaf.countSegment = false ∧
      (query.chain.leaf.count = .none ↔ asksCount expr = false) := by
  have hbare {chain : Chain} (hb : chain.leaf.Bare) (hs : chain.leaf.isSingle = true)
      (hc : chain.leaf.count = .none ↔ asksCount expr = false) :
      chain.leaf.sequence = [] ∧ chain.leaf.apply = none ∧ chain.leaf.countSegment = false ∧
        (chain.leaf.count = .none ↔ asksCount expr = false) :=
    ⟨(hb.options hs).1, (hb.options hs).2, hb.segment, hc⟩
  obtain ⟨chain, hc, rfl⟩ | ⟨method, args, ty, rfl, ⟨-, h⟩ | ⟨limit, ht, h⟩ | ⟨-, h⟩⟩ :=
    bindQuery_ok h
  · exact hbare (bind_bare hc) hs (bind_count hc)
  · -- a count is of a collection
    obtain ⟨source, chain, k, target, -, -, ⟨hcollection, -⟩, rfl⟩ := bindCount_ok.1 h
    exact absurd hs (Bool.eq_false_iff.1 hcollection)
  · obtain ⟨source, chain, k, target, hsource, htarget, rfl⟩ := bindElement_ok.1 h
    have htarget : target.leaf.Bare ∧
        (target.leaf.count = .none ↔ asksCount (.call method args ty) = false) := by
      obtain ⟨rfl, rfl, -⟩ | ⟨predicate, rfl, hw⟩ := htarget
      · rw [asksCount_terminal ht]
        exact ⟨bind_bare hsource, bind_count hsource⟩
      · have hmove := moves_where hw
        rw [asksCount_terminal ht, hmove.count_eq_none, bind_count hsource]
        exact ⟨hmove.bare (bind_bare hsource), by simp⟩
    dsimp only [finish] at hs ⊢
    split at hs
    · next hsingle =>
      rw [if_pos hsingle]
      exact hbare htarget.1 hsingle htarget.2
    · next hsingle => exact absurd hs hsingle
  · -- an aggregation is of a collection
    obtain ⟨source, selector, chain, k, -, -, ⟨hcollection, -⟩, f, aggregation, -, -, hq⟩ :=
      bindAggregate_ok h
    rw [hq] at hs
    exact absurd hs (Bool.eq_false_iff.1 hcollection)

/-- A service with products. -/
def products : Metadata :=
  ({ entitySets := [("Products", "Product")]
     types := [("Product", ⟨["Id"], [⟨"Id", .int32, false⟩, ⟨"Price", .int32, false⟩]⟩)] } :
    Model).metadata

/-- A comparison of a property of a product. -/
def compared (op : BinaryOp) (name : String) (bound : Int32) : Expr :=
  .binary op (.member (.parameter ⟨"p", .entity "Product"⟩) name .int32) (.constant (.int32 bound))

/-- The elements of a source of products that meet a condition. -/
def selected (source condition : Expr) : Expr :=
  .call "Where" [source, .lambda [⟨"p", .entity "Product"⟩] condition]
    (.collection (.entity "Product"))

/-- The element of a source of products that a key selects. -/
def keyed (source : Expr) : Expr := selected source (compared .equal "Id" 5)

/-- All products. -/
def allProducts : Expr := .root ⟨"Products", .entity "Product", .entitySet⟩

theorem bindQuery_single_keyed : ∃ query m,
    (bindQuery products (.call "First" [keyed allProducts] (.entity "Product"))).run 0 =
        .ok (query, m) ∧
      query.chain.leaf.isSingle = true ∧ query.chain.leaf.sequence = [] ∧
      query.chain.leaf.apply = none ∧ query.chain.leaf.countSegment = false ∧
      (query.chain.leaf.count = .none ↔
        asksCount (.call "First" [keyed allProducts] (.entity "Product")) = false) :=
  ⟨_, _, rfl, rfl, bindQuery_single (show
    (bindQuery products (.call "First" [keyed allProducts] (.entity "Product"))).run 0 = _ from rfl)
    rfl⟩

/-- A product that a key selects after the number of products was asked for is addressed as a single
element that is asked for its number. -/
theorem bindQuery_single_counted : ∃ query m,
    (bindQuery products (keyed
      (.call "IncludeCount" [allProducts] (.collection (.entity "Product"))))).run 0 =
        .ok (query, m) ∧
      query.chain.leaf.isSingle = true ∧ query.chain.leaf.count = .true :=
  ⟨_, _, rfl, rfl, rfl⟩

end Binding

end ServiceQuery
