import ServiceQuery.Proofs.Binding.Single
import ServiceQuery.Proofs.Uri.Request

/-!
# Predicates one after the other

A predicate that is a key gives the leaf another number, and the next predicate turns the key back
into a filter. What is asked of the service is the same as if the two had been given as one.
-/

namespace ServiceQuery

namespace Chain

variable {c d : Chain} {n : ResourceId}

/-- The leaf of one chain and the leaf of the other, or a resource that both are reached through. -/
def Follows (c d : Chain) (a b : Resource) : Prop :=
  a = c.leaf ∧ b = d.leaf ∨ a = b ∧ a ∈ c.ancestors

/-- The number of a resource before the leaf is looked up before the leaf. -/
theorem find?_of_mem_ancestors (c d : Chain) (ha : c.ancestors = d.ancestors) {id : ResourceId}
    (h : ∃ ancestor ∈ c.ancestors, ancestor.id = id) :
    ∃ found ∈ c.ancestors, c.find? id = some found ∧ d.find? id = some found := by
  obtain ⟨ancestor, hm, hid⟩ := h
  have hsome : (c.ancestors.reverse.find? fun resource => resource.id == id).isSome = true := by
    rw [List.find?_isSome]
    exact ⟨ancestor, List.mem_reverse.2 hm, by simpa using hid⟩
  obtain ⟨found, hf⟩ := Option.isSome_iff_exists.1 hsome
  have hfind (chain : Chain) (hc : chain.ancestors = c.ancestors) : chain.find? id = some found := by
    rw [find?, resources, List.reverse_cons, List.find?_append, hc, hf]
    rfl
  exact ⟨found, List.mem_reverse.1 (List.mem_of_find?_eq_some hf), hfind c rfl, hfind d ha.symm⟩

theorem withLeaf_addFilter (chain : Chain) (id : ResourceId) (sequence : List SequenceOption)
    (first second : List Expr) :
    (chain.withLeaf id (SequenceOption.insert (.filter first) sequence)).mapLeaf
        (·.addOption (.filter second)) =
      chain.withLeaf id (SequenceOption.insert (.filter (first ++ second)) sequence) := by
  rw [← SequenceOption.insert_filter_insert_filter]
  rfl

theorem binds_lambda {param : Param} {body bound : Expr} :
    c.Binds (.lambda [param] body) bound ↔
      (∀ id ∈ c.referenced param.name body, id = c.leaf.id) ∧
        bound = c.bindInput param.name body := by
  constructor
  · rintro ⟨param', body', he, hr, rfl⟩
    simp only [Expr.lambda.injEq, List.cons.injEq, and_true] at he
    obtain ⟨rfl, rfl⟩ := he
    exact ⟨hr, rfl⟩
  · rintro ⟨hr, rfl⟩
    exact ⟨param, body, rfl, hr, rfl⟩

theorem Binds.unique {predicate first second : Expr} (hf : c.Binds predicate first)
    (hs : c.Binds predicate second) : first = second := by
  obtain ⟨param, body, rfl, -, rfl⟩ := hf
  exact (binds_lambda.1 hs).2.symm

theorem bindInput_andAlso (name : String) (left right : Expr) :
    c.bindInput name (.binary .andAlso left right) =
      .binary .andAlso (c.bindInput name left) (c.bindInput name right) := by
  rw [bindInput, Expr.replace_eq]
  rfl

theorem mem_referenced_andAlso {name : String} {left right : Expr} {id : ResourceId} :
    id ∈ c.referenced name (.binary .andAlso left right) ↔
      id ∈ c.referenced name left ∨ id ∈ c.referenced name right := by
  simp only [referenced, List.mem_eraseDups]
  rw [Expr.gather_eq]
  simp [resolve?, Expr.children]

/-- A conjunction is bound if both predicates are. -/
theorem binds_andAlso {param : Param} {left right bound : Expr} :
    c.Binds (.lambda [param] (.binary .andAlso left right)) bound ↔
      ∃ first second, c.Binds (.lambda [param] left) first ∧
        c.Binds (.lambda [param] right) second ∧ bound = .binary .andAlso first second := by
  simp only [binds_lambda, mem_referenced_andAlso, bindInput_andAlso]
  constructor
  · rintro ⟨hr, rfl⟩
    exact ⟨_, _, ⟨fun id h => hr id (.inl h), rfl⟩, ⟨fun id h => hr id (.inr h), rfl⟩, rfl⟩
  · rintro ⟨_, _, ⟨hl, rfl⟩, ⟨hr, rfl⟩, rfl⟩
    exact ⟨fun id h => h.elim (hl id) (hr id), rfl⟩

namespace Numbered

/-- Lambdas over a chain read the same resources whatever the number of the leaf. -/
theorem matches_withLeaf (h : c.Numbered n) (id : ResourceId) (sequence : List SequenceOption) :
    Matches (Follows c (c.withLeaf id sequence)) c (c.withLeaf id sequence) where
  leaf := .inl ⟨rfl, rfl⟩
  elementType := by
    rintro a b (⟨rfl, rfl⟩ | ⟨rfl, -⟩) <;> rfl
  scope := by
    rintro a b (⟨rfl, rfl⟩ | ⟨rfl, -⟩) <;> rfl
  outer := by
    intro a b hab scope hs outer ho
    -- a scope refers to a resource that the leaf is reached through
    have hm : ∃ ancestor ∈ c.ancestors, ancestor.id = outer.2 := by
      obtain ⟨rfl, rfl⟩ | ⟨rfl, hm⟩ := hab
      · exact h.placed.outer_mem_tail c.leaf List.mem_cons_self scope hs outer ho
      · exact h.placed.outer_mem_tail a (List.mem_cons_of_mem _ hm) scope hs outer ho
    obtain ⟨found, hf, hc, hd⟩ := find?_of_mem_ancestors c (c.withLeaf id sequence) rfl hm
    rw [hc, hd]
    exact .some (.inr ⟨rfl, hf⟩)

/-- A body without references of its own is bound alike under a number that no other resource of the
chain has. -/
theorem binds_withLeaf (h : c.Numbered n) {id : ResourceId} (hid : id = c.leaf.id ∨ id = n)
    (sequence : List SequenceOption) {param : Param} {body : Expr} (hi : body.inputs = [])
    {expr : Expr} :
    (∃ bound, (c.withLeaf id sequence).Binds (.lambda [param] body) bound ∧
        bound.withoutTargets = expr) ↔
      ∃ bound, c.Binds (.lambda [param] body) bound ∧ bound.withoutTargets = expr := by
  have hmatches := h.matches_withLeaf id sequence
  have hbody := hmatches.withoutTargets_bindInput param.name body
  have hbefore : ∀ ancestor ∈ c.ancestors, ancestor.id ≠ c.leaf.id ∧ ancestor.id ≠ id := by
    intro ancestor hm
    have hlt := h.lt_leaf ancestor hm
    refine ⟨Nat.ne_of_lt hlt, ?_⟩
    obtain rfl | rfl := hid
    · exact Nat.ne_of_lt hlt
    · exact Nat.ne_of_lt (Nat.lt_trans hlt h.below)
  -- a body that reads the leaf alone under one number does so under the other
  have hleaf : ∀ a b, Follows c (c.withLeaf id sequence) a b →
      (a.id = c.leaf.id ↔ b.id = (c.withLeaf id sequence).leaf.id) := by
    rintro a b (⟨rfl, rfl⟩ | ⟨rfl, hm⟩)
    · simp
    · exact iff_of_false (hbefore a hm).1 (hbefore a hm).2
  have hrefs : ∀ ref ∈ body.inputs,
      (ref.target = c.leaf.id ↔ ref.target = (c.withLeaf id sequence).leaf.id) := by simp [hi]
  have hreads := hmatches.forall_referenced param.name hleaf hrefs
  constructor
  · rintro ⟨_, hb, rfl⟩
    obtain ⟨hr, rfl⟩ := binds_lambda.1 hb
    exact ⟨_, binds_lambda.2 ⟨hreads.2 hr, rfl⟩, hbody⟩
  · rintro ⟨_, hb, rfl⟩
    obtain ⟨hr, rfl⟩ := binds_lambda.1 hb
    exact ⟨_, binds_lambda.2 ⟨hreads.1 hr, rfl⟩, hbody.symm⟩

end Numbered

end Chain

namespace Resource

/-- A further filter is not in the way of operators that may follow filters. -/
theorem Admits.addFilter {leaf : Resource} {blocked : List String} (h : leaf.Admits blocked)
    (hw : "Where" ∉ blocked) (id : ResourceId) (predicates : List Expr) :
    { leaf with
      id := id
      sequence := SequenceOption.insert (.filter predicates) leaf.sequence }.Admits blocked := by
  refine ⟨h.1, fun name hn hm => h.2 name hn ?_⟩
  have hne : name ≠ "Where" := fun he => hw (he ▸ hn)
  have hname : name ∈ (SequenceOption.insert (.filter predicates) leaf.sequence).map
      SequenceOption.methodName → name ∈ leaf.sequence.map SequenceOption.methodName := by
    rw [SequenceOption.map_methodName_insert]
    split <;> simp [hne]
  simp only [applied, List.mem_append] at hm ⊢
  grind

theorem keyIn_of_sequence_ne_nil {resource : Resource} (h : resource.sequence ≠ [])
    (metadata : Metadata) (predicate : Expr) : resource.keyIn metadata predicate = .ok none := by
  have haccepts : resource.acceptsKey = false := by
    simp [acceptsKey, List.isEmpty_iff, h]
  unfold keyIn
  split
  · rw [haccepts]
    rfl
  · rfl

/-- The search for a key fails only for want of the keys of the elements, whatever the predicate. -/
theorem exists_keyIn_ok_iff {resource : Resource} {metadata : Metadata} {predicate : Expr} :
    (∃ found, resource.keyIn metadata predicate = .ok found) ↔
      ∀ entity, resource.elementType = .entity entity → resource.acceptsKey = true →
        ∃ keys, metadata.keyProperties entity = .ok keys := by
  constructor
  · rintro ⟨found, h⟩ entity he ha
    simp only [keyIn, he, ha, if_true, Except.bind_eq_ok] at h
    obtain ⟨keys, hk, -⟩ := h
    exact ⟨keys, hk⟩
  · intro h
    unfold keyIn
    split
    · next entity he =>
      split
      · next ha =>
        obtain ⟨keys, hk⟩ := h entity he ha
        rw [hk]
        exact ⟨_, rfl⟩
      · exact ⟨none, rfl⟩
    · exact ⟨none, rfl⟩

end Resource

namespace Binding

variable {metadata : Metadata} {chain chain' : Chain} {n m : ResourceId}

/-- A predicate on a source is bound after the source; an action has no filter. -/
theorem bind_where_ok {source predicate : Expr} {ty : Ty} :
    (bind metadata (.call "Where" [source, predicate] ty)).run n = .ok (chain', m) ↔
      ∃ chain k, (bind metadata source).run n = .ok (chain, k) ∧
        (bindWhere metadata chain predicate).run k = .ok (chain', m) := by
  constructor
  · intro h
    obtain ⟨chain, k, operator, hs, -, ho, h⟩ := bind_call_ok h
    obtain rfl : .filter predicate = operator := Option.some.inj ho
    exact ⟨chain, k, hs, h⟩
  · rintro ⟨chain, k, hs, h⟩
    have haction := bind_isAction hs (bindWhere_ok.1 h).1.1
    simp only [bind, BindM.run_bind]
    refine ⟨chain, k, hs, ?_⟩
    simp only [haction, Bool.false_eq_true, if_false]
    exact h

/-- What a predicate adds to a chain, once a key that it has become is turned back into a filter. -/
theorem demoted_where {predicate : Expr}
    (h : (bindWhere metadata chain predicate).run n = .ok (chain', m)) :
    ∃ bound added id, chain.demoted.Binds predicate bound ∧
      added.withoutTargets = bound.withoutTargets ∧ (id = chain.demoted.leaf.id ∨ id = n) ∧
      chain'.demoted = chain.demoted.withLeaf id
        (SequenceOption.insert (.filter [added]) chain.demoted.leaf.sequence) := by
  have hk : chain.demoted.leaf.keyFilter = none := Resource.keyFilter_demoteKey _
  obtain ⟨⟨hc, -⟩, bound, hb, ⟨key, hkey, rfl, -⟩ | ⟨-, rfl, -⟩⟩ := bindWhere_ok.1 h
  · -- the key comes back as a filter, under the number that the leaf got with it
    obtain ⟨hs, -, ha⟩ := keyIn_some hkey
    refine ⟨bound, bound.retarget chain.demoted.leaf.id n, n, hb, by simp, .inr rfl, ?_⟩
    have hleaf := Resource.demoteKey_renumber_withKeyFilter hs ha hk hc key bound n
    rw [hs, SequenceOption.insert]
    exact congrArg (Chain.mk · chain.demoted.ancestors) hleaf
  · exact ⟨bound, bound, chain.demoted.leaf.id, hb, rfl, .inl rfl,
      congrArg (Chain.mk · chain.demoted.ancestors) (Resource.demoteKey_of_none hk)⟩

theorem admits_demoted_where {predicate : Expr}
    (h : (bindWhere metadata chain predicate).run n = .ok (chain', m)) :
    chain'.demoted.leaf.Admits ["Skip", "Take", "Select", "GroupBy"] := by
  obtain ⟨ha, -⟩ := bindWhere_ok.1 h
  obtain ⟨bound, added, id, -, -, -, hd⟩ := demoted_where h
  rw [hd]
  exact ha.addFilter (by simp) id [added]

/-- A predicate is bound if its body is and the keys of the elements are known. -/
theorem bindWhere_of_binds {predicate bound : Expr}
    (ha : chain.demoted.leaf.Admits ["Skip", "Take", "Select", "GroupBy"])
    (hb : chain.demoted.Binds predicate bound) {found : Option (List (String × Value))}
    (hk : chain.demoted.leaf.keyIn metadata bound = .ok found) (n : ResourceId) :
    ∃ chain' m, (bindWhere metadata chain predicate).run n = .ok (chain', m) := by
  cases found with
  | some key => exact ⟨_, _, bindWhere_ok.2 ⟨ha, bound, hb, .inl ⟨key, hk, rfl, rfl⟩⟩⟩
  | none => exact ⟨_, _, bindWhere_ok.2 ⟨ha, bound, hb, .inr ⟨hk, rfl, rfl⟩⟩⟩

/-- Where one predicate is bound, so is any other whose body is. -/
theorem bindWhere_of_bindWhere {predicate other bound : Expr}
    (h : (bindWhere metadata chain predicate).run n = .ok (chain', m))
    (hb : chain.demoted.Binds other bound) :
    ∃ chain' m, (bindWhere metadata chain other).run n = .ok (chain', m) := by
  obtain ⟨ha, first, -, hcase⟩ := bindWhere_ok.1 h
  have hfirst : ∃ found, chain.demoted.leaf.keyIn metadata first = .ok found := by
    obtain ⟨key, hk, -, -⟩ | ⟨hk, -, -⟩ := hcase
    · exact ⟨_, hk⟩
    · exact ⟨_, hk⟩
  obtain ⟨found, hfound⟩ :=
    Resource.exists_keyIn_ok_iff.2 (Resource.exists_keyIn_ok_iff.1 hfirst)
  exact bindWhere_of_binds ha hb hfound n

/-- A predicate that has not become a key is a filter. -/
theorem filter_of_keyFilter_eq_none {predicate : Expr}
    (h : (bindWhere metadata chain predicate).run n = .ok (chain', m))
    (hk : chain'.leaf.keyFilter = none) :
    ∃ bound, chain.demoted.Binds predicate bound ∧
      chain' = chain.demoted.mapLeaf (·.addOption (.filter [bound])) := by
  obtain ⟨-, bound, hb, ⟨key, hkey, rfl, -⟩ | ⟨-, rfl, -⟩⟩ := bindWhere_ok.1 h
  · obtain ⟨hs, -, ha⟩ := keyIn_some hkey
    rw [Chain.mapLeaf, Resource.renumber_withKeyFilter hs ha] at hk
    cases hk
  · exact ⟨bound, hb, rfl⟩

/-- A predicate after another one is bound if it is bound in the place of the other one, and the
chain is written as with the conjunction of the two. -/
theorem where_after_where {config : Config} {param : Param} {left right first : Expr}
    (hn : chain.Numbered n) (hi : right.inputs = [])
    (hleft : chain.demoted.Binds (.lambda [param] left) first)
    (h : (bindWhere metadata chain (.lambda [param] left)).run n = .ok (chain', m))
    {result : String × ProtocolVersion} :
    (∃ chain'' k, (bindWhere metadata chain' (.lambda [param] right)).run m = .ok (chain'', k) ∧
        Uri.ofChain config chain'' = .ok result) ↔
      ∃ second, chain.demoted.Binds (.lambda [param] right) second ∧
        Uri.ofChain config (chain.demoted.mapLeaf
          (·.addOption (.filter [.binary .andAlso first second]))) = .ok result := by
  obtain ⟨bound, added, id, hb, hadded, hid, hd⟩ := demoted_where h
  obtain rfl := hb.unique hleft
  -- the filter of the first predicate keeps the second one from becoming a key
  have hkey {other : Expr} : chain'.demoted.leaf.keyIn metadata other = .ok none := by
    refine Resource.keyIn_of_sequence_ne_nil ?_ metadata other
    rw [hd]
    exact SequenceOption.insert_ne_nil _ _
  have haddress {second other : Expr} (hother : other.withoutTargets = second.withoutTargets) :
      Uri.ofChain config (chain'.demoted.mapLeaf (·.addOption (.filter [other]))) = .ok result ↔
        Uri.ofChain config (chain.demoted.mapLeaf
          (·.addOption (.filter [.binary .andAlso bound second]))) = .ok result := by
    rw [hd, Chain.withLeaf_addFilter]
    refine ((Uri.WrittenAlike.addFilter (by simp) (by simp) (fun before => ?_)
      chain.demoted id).ofChain_eq_ok config result).symm
    rw [Uri.conjunction_andAlso]
    exact Uri.sameText_conjunction (by simp [hadded, hother])
  constructor
  · rintro ⟨chain'', k, hw, hresult⟩
    obtain ⟨-, other, hother, hcase⟩ := bindWhere_ok.1 hw
    obtain rfl : chain'' = chain'.demoted.mapLeaf (·.addOption (.filter [other])) := by
      obtain ⟨key, hk, -, -⟩ | ⟨-, hchain, -⟩ := hcase
      · cases hkey.symm.trans hk
      · exact hchain
    rw [hd] at hother
    obtain ⟨second, hsecond, he⟩ := (hn.demoted.binds_withLeaf hid _ hi).1 ⟨other, hother, rfl⟩
    exact ⟨second, hsecond, (haddress he.symm).1 hresult⟩
  · rintro ⟨second, hsecond, hresult⟩
    obtain ⟨other, hother, he⟩ := (hn.demoted.binds_withLeaf hid
      (SequenceOption.insert (.filter [added]) chain.demoted.leaf.sequence) hi).2
        ⟨second, hsecond, rfl⟩
    rw [← hd] at hother
    exact ⟨_, m, bindWhere_ok.2 ⟨admits_demoted_where h, other, hother, .inr ⟨hkey, rfl, rfl⟩⟩,
      (haddress he).2 hresult⟩

/-- The address of a query. -/
def written (metadata : Metadata) (config : Config) (expr : Expr) :
    Except CompileError (String × ProtocolVersion) := do
  let (query, _) ← (bindQuery metadata expr).run 0
  Uri.ofChain config query.chain

theorem written_where_ok {config : Config} {source predicate : Expr} {ty : Ty}
    {result : String × ProtocolVersion} :
    written metadata config (.call "Where" [source, predicate] ty) = .ok result ↔
      ∃ chain k chain' m, (bind metadata source).run 0 = .ok (chain, k) ∧
        (bindWhere metadata chain predicate).run k = .ok (chain', m) ∧
        Uri.ofChain config chain' = .ok result := by
  have hquery : bindQuery metadata (.call "Where" [source, predicate] ty) =
      (finish · none none) <$> bind metadata (.call "Where" [source, predicate] ty) := rfl
  simp only [written, hquery, Except.bind_eq_ok]
  constructor
  · rintro ⟨⟨query, m⟩, hq, hresult⟩
    obtain ⟨chain', hb, rfl⟩ := BindM.run_map.1 hq
    obtain ⟨chain, k, hs, hw⟩ := bind_where_ok.1 hb
    exact ⟨chain, k, chain', m, hs, hw, hresult⟩
  · rintro ⟨chain, k, chain', m, hs, hw, hresult⟩
    exact ⟨(finish chain' none none, m),
      BindM.run_map.2 ⟨chain', bind_where_ok.2 ⟨chain, k, hs, hw⟩, rfl⟩, hresult⟩

/-- Two predicates that are given one after the other have the address of their conjunction, unless
the conjunction is a key. -/
theorem written_where_where {config : Config} {param : Param} {source left right : Expr}
    {ty ty' ty'' : Ty} (hi : right.inputs = [])
    (hkey : ∀ chain m,
      (bind metadata (.call "Where"
        [source, .lambda [param] (.binary .andAlso left right)] ty'')).run 0 = .ok (chain, m) →
      chain.leaf.keyFilter = none) (result : String × ProtocolVersion) :
    written metadata config (.call "Where"
        [.call "Where" [source, .lambda [param] left] ty, .lambda [param] right] ty') =
          .ok result ↔
      written metadata config (.call "Where"
        [source, .lambda [param] (.binary .andAlso left right)] ty'') = .ok result := by
  rw [written_where_ok, written_where_ok]
  constructor
  · rintro ⟨chain', m, chain'', k, hfirst, hsecond, hresult⟩
    obtain ⟨chain, n, hs, hw⟩ := bind_where_ok.1 hfirst
    obtain ⟨-, first, hleft, -⟩ := bindWhere_ok.1 hw
    obtain ⟨second, hright, hresult⟩ :=
      (where_after_where (bind_numbered hs) hi hleft hw).1 ⟨chain'', k, hsecond, hresult⟩
    have hboth := Chain.binds_andAlso.2 ⟨first, second, hleft, hright, rfl⟩
    obtain ⟨both, l, hw⟩ := bindWhere_of_bindWhere hw hboth
    have hnone := hkey both l (bind_where_ok.2 ⟨chain, n, hs, hw⟩)
    obtain ⟨bound, hb, rfl⟩ := filter_of_keyFilter_eq_none hw hnone
    obtain rfl := hb.unique hboth
    exact ⟨chain, n, _, l, hs, hw, hresult⟩
  · rintro ⟨chain, n, both, l, hs, hw, hresult⟩
    have hnone := hkey both l (bind_where_ok.2 ⟨chain, n, hs, hw⟩)
    obtain ⟨bound, hb, rfl⟩ := filter_of_keyFilter_eq_none hw hnone
    obtain ⟨first, second, hleft, hright, rfl⟩ := Chain.binds_andAlso.1 hb
    obtain ⟨chain', m, hw⟩ := bindWhere_of_bindWhere hw hleft
    obtain ⟨chain'', k, hsecond, hresult⟩ :=
      (where_after_where (bind_numbered hs) hi hleft hw).2 ⟨second, hright, hresult⟩
    exact ⟨chain', m, chain'', k, bind_where_ok.2 ⟨chain, n, hs, hw⟩, hsecond, hresult⟩

/-- The condition that a product is dear or one of the first. -/
def dearOrFirst : Expr :=
  .binary .orElse (compared .greaterThan "Price" 10) (compared .lessThan "Id" 3)

/-- The product that a key selects if it meets the condition. -/
def keyedDearOrFirst : Expr :=
  selected allProducts (.binary .andAlso (compared .equal "Id" 5) dearOrFirst)

theorem written_where_where_dearOrFirst :
    dearOrFirst.inputs = [] ∧
      (∃ chain m, (bind products keyedDearOrFirst).run 0 = .ok (chain, m) ∧
        chain.leaf.keyFilter = none) ∧
      written products {} keyedDearOrFirst =
        .ok ("Products?$filter=Id eq 5 and (Price gt 10 or Id lt 3)", .v40) ∧
      written products {} (selected (keyed allProducts) dearOrFirst) =
        .ok ("Products?$filter=Id eq 5 and (Price gt 10 or Id lt 3)", .v40) := by
  have hbind : ∃ chain m, (bind products keyedDearOrFirst).run 0 = .ok (chain, m) ∧
      chain.leaf.keyFilter = none := ⟨_, _, rfl, rfl⟩
  have hwritten : written products {} keyedDearOrFirst =
      .ok ("Products?$filter=Id eq 5 and (Price gt 10 or Id lt 3)", .v40) := rfl
  refine ⟨rfl, hbind, hwritten, (written_where_where rfl ?_ _).2 hwritten⟩
  intro chain m h
  obtain ⟨other, k, ho, hnone⟩ := hbind
  cases ho.symm.trans h
  exact hnone

end Binding

end ServiceQuery
