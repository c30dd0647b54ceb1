import ServiceQuery.Proofs.Monad
import ServiceQuery.Proofs.Resource
import ServiceQuery.Proofs.Uri.Targets

/-!
# Chains with the same address

A predicate may reach the leaf of a chain in several ways, which leave the leaf with different
numbers and with different forms of the same filter. The address shows neither.
-/

namespace ServiceQuery

/-- The chain with another number and other sequence options of the leaf. -/
def Chain.withLeaf (chain : Chain) (id : ResourceId) (sequence : List SequenceOption) : Chain :=
  chain.mapLeaf fun leaf => { leaf with id := id, sequence := sequence }

namespace Uri

theorem optionText?_filter {predicates : List Expr} (h : predicates ≠ []) :
    optionText? (.filter predicates) = (do
      let text ← conjunction predicates
      pure (some ("$filter=" ++ text))) := by
  cases predicates with
  | nil => exact absurd rfl h
  | cons predicate rest => rfl

/-- Filters whose predicates have the same text after any others may be added for one another. -/
theorem sameText_insert_filter {first second : List Expr} (hf : first ≠ []) (hs : second ≠ [])
    (h : ∀ before, SameText (conjunction (before ++ first)) (conjunction (before ++ second)))
    (options : List SequenceOption) :
    SameText ((SequenceOption.insert (.filter first) options).mapM optionText?)
      ((SequenceOption.insert (.filter second) options).mapM optionText?) := by
  have htext (before : List Expr) : SameText (optionText? (.filter (before ++ first)))
      (optionText? (.filter (before ++ second))) := by
    rw [optionText?_filter (by simp [hf]), optionText?_filter (by simp [hs])]
    exact (h before).bind fun _ => .refl _
  induction options with
  | nil => exact (htext []).bind fun _ => .refl _
  | cons existing rest ih =>
    cases existing with
    | filter predicates =>
      simp only [SequenceOption.insert, SequenceOption.sameKind, SequenceOption.compose, if_true,
        List.mapM_cons]
      exact (htext predicates).bind fun _ => .refl _
    | _ =>
      simp only [SequenceOption.insert, SequenceOption.sameKind, Bool.false_eq_true, if_false,
        List.mapM_cons]
      exact (SameText.refl _).bind fun _ => ih.bind fun _ => .refl _

theorem sameText_options (leaf : Resource) (id : ResourceId) {sequence : List SequenceOption}
    (h : SameText (leaf.sequence.mapM optionText?) (sequence.mapM optionText?)) :
    SameText (options leaf) (options { leaf with id := id, sequence := sequence }) := by
  rw [options, options]
  -- groupings are written before the sequence options, with or without text
  cases leaf.apply with
  | none => exact (SameText.refl _).bind fun _ => h.bind fun _ => .refl _
  | some apply =>
    by_cases he : apply.isEmpty = true
    · simp only [he, if_true]
      exact (SameText.refl _).bind fun _ => h.bind fun _ => .refl _
    · simp only [he, Bool.false_eq_true, if_false]
      refine (SameText.refl _).bind fun _ => ?_
      exact (SameText.refl _).bind fun _ => h.bind fun _ => .refl _

/-- Two chains differ in the number of the leaf and in the form of its sequence options only, and the
options have the same text. -/
def WrittenAlike (c d : Chain) : Prop :=
  ∃ id sequence, d = c.withLeaf id sequence ∧
    SameText (c.leaf.sequence.mapM optionText?) (sequence.mapM optionText?)

/-- The path of a chain and the text of its options decide its address. -/
theorem ofChain_congr {config : Config} {c d : Chain} (hp : path config c = path config d)
    (ho : SameText (options c.leaf) (options d.leaf)) (address : String × ProtocolVersion) :
    ofChain config c = .ok address ↔ ofChain config d = .ok address := by
  have hresult := ho {}
  simp only [ofChain, hp, Except.bind_eq_ok]
  refine exists_congr fun path => and_congr_right fun _ => ?_
  rcases hc : (options c.leaf).run.run {} with ⟨e | first, writer⟩
  · rcases hd : (options d.leaf).run.run {} with ⟨e' | second, writer'⟩
    · simp only [Except.bind_eq_ok, reduceCtorEq, false_and, exists_false]
    · simp [result?, hc, hd] at hresult
  · rcases hd : (options d.leaf).run.run {} with ⟨e' | second, writer'⟩
    · simp [result?, hc, hd] at hresult
    · simp only [result?, hc, hd, Option.some.injEq, Prod.mk.injEq] at hresult
      rw [hresult.1, hresult.2]

namespace WrittenAlike

variable {c d : Chain}

theorem ofChain_eq_ok (h : WrittenAlike c d) (config : Config)
    (address : String × ProtocolVersion) :
    ofChain config c = .ok address ↔ ofChain config d = .ok address := by
  obtain ⟨id, sequence, rfl, hs⟩ := h
  refine ofChain_congr ?_ ?_ address
  · -- a segment shows the name and the key of its resource
    simp only [path, Chain.resources, List.reverse_cons, List.mapM_append]
    rfl
  · exact sameText_options c.leaf id hs

/-- Filters with the same conjunction leave chains that are written alike. -/
theorem addFilter {first second : List Expr} (hf : first ≠ []) (hs : second ≠ [])
    (h : ∀ before, SameText (conjunction (before ++ first)) (conjunction (before ++ second)))
    (chain : Chain) (id : ResourceId) :
    WrittenAlike (chain.mapLeaf (·.addOption (.filter first)))
      (chain.withLeaf id (SequenceOption.insert (.filter second) chain.leaf.sequence)) :=
  ⟨id, _, rfl, sameText_insert_filter hf hs h chain.leaf.sequence⟩

end WrittenAlike

end Uri

end ServiceQuery
