import ServiceQuery.Proofs.Binding.Where

/-!
# Terminal operators with a predicate

A count binds its predicate as a filter, and the count of a filtered source turns a key back into
one: the leaves have different numbers, which nothing that is sent shows. One element is asked for
after a predicate that may be a key, whether the operator or its source has it.
-/

namespace ServiceQuery

/-- The chain of one bound query is written like that of the other, and all else is the same. -/
def BoundQuery.Alike (first second : BoundQuery) : Prop :=
  ∃ chain, second = { first with chain := chain } ∧ Uri.WrittenAlike first.chain chain

theorem BoundQuery.Alike.withReplacements {first second : BoundQuery} (h : first.Alike second)
    (replacements : Replacements) :
    Alike { first with replacements := replacements }
      { second with replacements := replacements } := by
  obtain ⟨chain, rfl, hchain⟩ := h
  exact ⟨chain, rfl, hchain⟩

theorem Resource.Admits.mono {leaf : Resource} {blocked others : List String}
    (h : leaf.Admits blocked) (hs : others ⊆ blocked) : leaf.Admits others :=
  ⟨h.1, fun name hn => h.2 name (hs hn)⟩

namespace Binding

variable {metadata : Metadata} {chain chain' : Chain} {n m : ResourceId} {source predicate : Expr}

/-- A chain of operators without a terminal one is a query of its elements. -/
theorem bindQuery_of_bind {expr : Expr} (h : (bind metadata expr).run n = .ok (chain, m)) :
    (bindQuery metadata expr).run n = .ok (finish chain none none, m) := by
  have hplain : ((finish · none none) <$> bind metadata expr).run n =
      .ok (finish chain none none, m) := BindM.run_map.2 ⟨chain, h, rfl⟩
  cases expr with
  | call method args ty =>
    cases args with
    | nil =>
      rw [bind] at h
      exact (BindM.run_throw.1 h).elim
    | cons source args =>
      obtain ⟨_, _, operator, -, -, ho, -⟩ := bind_call_ok h
      have hterminal : Terminal.ofMethod? method = none := by
        obtain ⟨rfl, -⟩ := Operator.ofCall?_some ho
        cases operator with
        | orderBy key descending | thenBy key descending => cases descending <;> rfl
        | _ => rfl
      simp only [bindQuery, hterminal]
      exact hplain
  | _ => exact hplain

/-- A predicate that may become a key can be bound as a filter, and the chain is written as if the
key had been turned back. -/
theorem bindFilter_of_bindWhere
    (h : (bindWhere metadata chain predicate).run n = .ok (chain', m)) :
    ∃ target, (bindFilter chain predicate).run n = .ok (target, n) ∧
      Uri.WrittenAlike target chain'.demoted := by
  obtain ⟨ha, bound, hb, -⟩ := bindWhere_ok.1 h
  obtain ⟨other, added, id, ho, hadded, -, hd⟩ := demoted_where h
  obtain rfl := ho.unique hb
  refine ⟨_, bindFilter_ok.2 ⟨ha, other, hb, rfl, rfl⟩, ?_⟩
  rw [hd]
  refine .addFilter (by simp) (by simp) (fun before => ?_) chain.demoted id
  exact Uri.sameText_conjunction (by simp [hadded])

theorem admits_filter {target : Chain}
    (h : (bindFilter chain predicate).run n = .ok (target, m)) :
    target.leaf.Admits ["Skip", "Take", "Select", "GroupBy"] := by
  obtain ⟨ha, bound, -, rfl, -⟩ := bindFilter_ok.1 h
  exact ha.addFilter (by simp) chain.demoted.leaf.id [bound]

/-- Counted chains that are written alike are bound alike. -/
theorem alike_counted {c d : Chain} (h : Uri.WrittenAlike c d) (ty : Ty) :
    BoundQuery.Alike
      (finish (c.mapLeaf fun leaf => { leaf with countSegment := true }) (some ty) (some true))
      (finish (d.mapLeaf fun leaf => { leaf with countSegment := true }) (some ty) (some true)) := by
  obtain ⟨id, sequence, rfl, hs⟩ := h
  exact ⟨_, rfl, id, sequence, rfl, hs⟩

section Predicate

variable {method : String} {ty ty' : Ty}

/-- A count of the elements that meet a predicate, and a count of the filtered source. -/
theorem count_predicate {shown : BoundQuery → Prop}
    (hshown : ∀ first second, first.Alike second → (shown first ↔ shown second))
    (hkeys : ∀ chain k, (bind metadata source).run n = .ok (chain, k) →
      ∀ entity, chain.leaf.elementType = .entity entity →
        ∃ keys, metadata.keyProperties entity = .ok keys) :
    (∃ query m, (bindCount metadata method [source, predicate] ty).run n = .ok (query, m) ∧
        shown query) ↔
      ∃ query m, (bindCount metadata method [.call "Where" [source, predicate] ty'] ty).run n =
        .ok (query, m) ∧ shown query := by
  have hblocked : ["Skip", "Take", "GroupBy"] ⊆ ["Skip", "Take", "Select", "GroupBy"] := by simp
  constructor
  · rintro ⟨query, m, hq, hs⟩
    obtain ⟨_, chain, k, target, hsource, ⟨hargs, -⟩ | ⟨_, hargs, hf⟩, -, rfl⟩ := bindCount_ok.1 hq
    · cases hargs
    · cases hargs
      obtain ⟨ha, bound, hb, -⟩ := bindFilter_ok.1 hf
      -- a count looks for no key, so that the keys have to be known from elsewhere
      have hknown : ∃ found, chain.demoted.leaf.keyIn metadata bound = .ok found := by
        refine Resource.exists_keyIn_ok_iff.2 fun entity he _ => hkeys chain k hsource entity ?_
        rw [← he]
        exact congrArg (·.2.1) (Resource.face_demoteKey chain.leaf).symm
      obtain ⟨found, hk⟩ := hknown
      obtain ⟨chain', l, hw⟩ := bindWhere_of_binds ha hb hk k
      obtain ⟨other, ho, halike⟩ := bindFilter_of_bindWhere hw
      obtain rfl : target = other := congrArg Prod.fst (Except.ok.inj (hf.symm.trans ho))
      exact ⟨_, l, bindCount_ok.2 ⟨_, chain', l, chain'.demoted,
        bind_where_ok.2 ⟨chain, k, hsource, hw⟩, .inl ⟨rfl, rfl, rfl⟩,
        (admits_demoted_where hw).mono hblocked, rfl⟩, (hshown _ _ (alike_counted halike ty)).1 hs⟩
  · rintro ⟨query, m, hq, hs⟩
    obtain ⟨_, chain', k, target, hwhere, ⟨hargs, rfl, rfl⟩ | ⟨_, hargs, -⟩, -, rfl⟩ :=
      bindCount_ok.1 hq
    · cases hargs
      obtain ⟨chain, l, hsource, hw⟩ := bind_where_ok.1 hwhere
      obtain ⟨target, hf, halike⟩ := bindFilter_of_bindWhere hw
      exact ⟨_, l, bindCount_ok.2 ⟨source, chain, l, target, hsource, .inr ⟨predicate, rfl, hf⟩,
        (admits_filter hf).mono hblocked, rfl⟩, (hshown _ _ (alike_counted halike ty)).2 hs⟩
    · cases hargs

/-- One of the elements that meet a predicate is one element of the filtered source. -/
theorem element_predicate {limit : Nat} {query : BoundQuery} :
    (bindElement metadata method limit [source, predicate]).run n = .ok (query, m) ↔
      (bindElement metadata method limit [.call "Where" [source, predicate] ty']).run n =
        .ok (query, m) := by
  constructor
  · intro h
    obtain ⟨_, chain, k, target, hsource, ⟨hargs, -⟩ | ⟨_, hargs, hw⟩, rfl⟩ := bindElement_ok.1 h
    · cases hargs
    · cases hargs
      exact bindElement_ok.2 ⟨_, target, m, target, bind_where_ok.2 ⟨chain, k, hsource, hw⟩,
        .inl ⟨rfl, rfl, rfl⟩, rfl⟩
  · intro h
    obtain ⟨_, chain', k, target, hwhere, ⟨hargs, rfl, rfl⟩ | ⟨_, hargs, -⟩, rfl⟩ :=
      bindElement_ok.1 h
    · cases hargs
      obtain ⟨chain, l, hsource, hw⟩ := bind_where_ok.1 hwhere
      exact bindElement_ok.2 ⟨source, chain, l, _, hsource, .inr ⟨predicate, rfl, hw⟩, rfl⟩
    · cases hargs

/-- What is shown of a terminal operator with a predicate is shown of the operator on the filtered
source. -/
theorem bindQuery_predicate {terminal : Terminal} (ht : Terminal.ofMethod? method = some terminal)
    (hne : terminal ≠ .aggregate) {shown : BoundQuery → Prop}
    (hshown : ∀ first second, first.Alike second → (shown first ↔ shown second))
    (hkeys : ∀ chain k, (bind metadata source).run n = .ok (chain, k) →
      ∀ entity, chain.leaf.elementType = .entity entity →
        ∃ keys, metadata.keyProperties entity = .ok keys) :
    (∃ query m, (bindQuery metadata (.call method [source, predicate] ty)).run n =
        .ok (query, m) ∧ shown query) ↔
      ∃ query m, (bindQuery metadata
        (.call method [.call "Where" [source, predicate] ty'] ty)).run n =
          .ok (query, m) ∧ shown query := by
  cases terminal with
  | count =>
    simp only [bindQuery, ht]
    exact count_predicate hshown hkeys
  | element limit =>
    simp only [bindQuery, ht]
    exact exists_congr fun query => exists_congr fun m => and_congr_left fun _ => element_predicate
  | aggregate => exact absurd rfl hne

end Predicate

end Binding

end ServiceQuery
