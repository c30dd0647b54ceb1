import ServiceQuery.Proofs.Binding.Selectors
import ServiceQuery.Proofs.Request
import ServiceQuery.Proofs.Uri.Scope

/-!
# The version of a request

The options of the leaf are written one after the other, and the version of the protocol that they
need is noted on the way. It is the later one exactly if there is a membership test in what is
written, and a configuration that does not allow it refuses such requests and no others.
-/

namespace ServiceQuery

namespace ProtocolVersion

theorem eq_v40 {version : ProtocolVersion} (h : version ≠ .v401) : version = .v40 := by
  cases version with
  | v40 => rfl
  | v401 => exact absurd rfl h

theorem atMost_v40 {version : ProtocolVersion} : version.atMost .v40 = true ↔ version = .v40 := by
  cases version <;> simp [atMost]

theorem atMost_v401 (version : ProtocolVersion) : version.atMost .v401 = true := by
  cases version <;> rfl

end ProtocolVersion

/-- The expressions that are written for a grouping. -/
def Apply.written (apply : Apply) : List Expr :=
  apply.predicates ++ (apply.aggregations.filterMap Aggregation.expr ++ apply.grouping)

/-- The expressions that are written for a resource: the predicates, selectors and keys of its
grouping, and the predicates and selectors of its options. -/
def Resource.written (resource : Resource) : List Expr :=
  resource.apply.toList.flatMap Apply.written ++ resource.sequence.flatMap SequenceOption.exprs

theorem Apply.written_of_isEmpty {apply : Apply} (h : apply.isEmpty = true) :
    apply.written = [] := by
  simp only [isEmpty, Bool.and_eq_true, List.isEmpty_iff] at h
  simp [written, h]

namespace Uri

theorem emits_conjunction (predicates : List Expr) : Emits predicates (conjunction predicates) := by
  have h : Emits (predicates.flatMap fun predicate => [predicate])
      (predicates.mapM fun predicate => operandText .conjunction false <$> writePrec predicate) :=
    .mapM fun predicate _ => (emits_writePrec predicate).map _
  rw [List.flatMap_singleton'] at h
  exact h.bind_pure

/-- A part that is left out if there is nothing to write, and what follows it. -/
theorem Emits.guarded {α β γ : Type} {exprs others : List Expr} {c : Prop} [Decidable c]
    {x : WriteM β} {a : α} {f : β → α} {k : α → WriteM γ} (hx : Emits exprs x)
    (hc : c → exprs = []) (hk : ∀ a, Emits others (k a)) :
    Emits (exprs ++ others)
      (if c then Pure.pure a >>= k else x >>= fun b => Pure.pure (f b) >>= k) := by
  split
  · next h =>
    rw [hc h]
    exact hk a
  · exact hx.bind fun b => hk (f b)

theorem emits_aggregationText {aggregation : Aggregation} (h : aggregation.Selective) :
    Emits aggregation.expr.toList (aggregationText aggregation) := by
  obtain ⟨expr, method, name⟩ := aggregation
  -- a count is the one aggregation without a selector
  cases expr with
  | none =>
    cases method with
    | count => exact .pure _
    | _ => cases h
  | some expr =>
    cases method with
    | count => cases h
    | _ => exact (emits_write expr).bind_pure

theorem emits_aggregateText? {apply : Apply} (h : apply.Selective) :
    Emits (apply.aggregations.filterMap Aggregation.expr) (aggregateText? apply) := by
  rw [aggregateText?]
  split
  · next hempty =>
    rw [List.isEmpty_iff.1 hempty]
    exact .pure none
  · rw [List.filterMap_eq_flatMap_toList]
    exact (Emits.mapM fun aggregation hm => emits_aggregationText (h aggregation hm)).bind_pure

theorem emits_applyText {apply : Apply} (h : apply.Selective) :
    Emits apply.written (applyText apply) := by
  have hkeys : Emits (apply.grouping.flatMap fun key => [key]) (apply.grouping.mapM write) :=
    .mapM fun key _ => emits_write key
  rw [List.flatMap_singleton'] at hkeys
  rw [applyText]
  refine .guarded (emits_conjunction _) List.isEmpty_iff.1 fun filters => ?_
  refine (emits_aggregateText? h).bind fun aggregate => ?_
  dsimp only
  split
  · next hempty =>
    rw [List.isEmpty_iff.1 hempty]
    exact .pure _
  · exact hkeys.bind_pure

theorem emits_optionText? (option : SequenceOption) : Emits option.exprs (optionText? option) := by
  cases option with
  | filter predicates =>
    cases predicates with
    | nil => exact .pure none
    | cons predicate rest => exact (emits_conjunction _).bind_pure
  | orderBy selectors =>
    have h : Emits (selectors.flatMap fun selector => [selector.expr])
        (selectors.mapM selectorText) :=
      .mapM fun selector _ => (emits_write selector.expr).bind_pure
    rw [← List.map_eq_flatMap] at h
    cases selectors with
    | nil => exact .pure none
    | cons selector rest => exact h.bind_pure
  | skip count | take count => exact .pure _

/-- The options of a resource write all of its expressions. -/
theorem emits_options {leaf : Resource} (h : leaf.Selective) :
    Emits leaf.written (options leaf) := by
  have hsequence : Emits (leaf.sequence.flatMap SequenceOption.exprs)
      (leaf.sequence.mapM optionText?) :=
    .mapM fun option _ => emits_optionText? option
  rw [options, Resource.written]
  cases ha : leaf.apply with
  | none => exact hsequence.bind_pure
  | some apply =>
    rw [Option.toList_some, List.flatMap_singleton]
    exact .guarded (emits_applyText (h apply ha)) Apply.written_of_isEmpty
      fun text => hsequence.bind_pure

/-- The version of an address is the later one if there is a membership test in it. -/
theorem version_ofChain {config : Config} {chain : Chain} (h : chain.leaf.Selective) {uri : String}
    {version : ProtocolVersion} (hu : ofChain config chain = .ok (uri, version)) :
    version = .v401 ↔ TestedIn chain.leaf.written := by
  have hemits := emits_options h {}
  simp only [ofChain, Except.bind_eq_ok] at hu
  obtain ⟨path, -, hu⟩ := hu
  rcases ho : (options chain.leaf).run.run {} with ⟨outcome, writer⟩
  rw [ho] at hu hemits
  simp only [Except.bind_eq_ok, Except.pure_eq_ok, Prod.mk.injEq] at hu
  obtain ⟨texts, rfl, -, rfl⟩ := hu
  -- writing starts with the earlier version
  exact (hemits.version texts rfl).trans (or_iff_right (by decide))

end Uri

namespace Compiler

variable {compiler : Compiler} {expr : Expr} {request : Request} {bound : BoundQuery}

/-- The compiler with another latest version. -/
def withMaxVersion (compiler : Compiler) (version : ProtocolVersion) : Compiler :=
  { compiler with config := { compiler.config with maxVersion := version } }

/-- A check of a request leaves it as it is. -/
theorem eq_requestOf_of_checked {uri : String} {version : ProtocolVersion}
    (h : (requestOf bound uri version).checked = .ok request) :
    request = requestOf bound uri version := by
  rw [Request.checked] at h
  split at h
  · cases h
  · split at h
    · cases h
    · cases h
      rfl

theorem version_of_checked {uri : String} {version : ProtocolVersion}
    (h : (requestOf bound uri version).checked = .ok request) : request.version = version := by
  rw [eq_requestOf_of_checked h, requestOf]
  split <;> rfl

theorem uri_of_checked {uri : String} {version : ProtocolVersion}
    (h : (requestOf bound uri version).checked = .ok request) : request.uri = uri := by
  rw [eq_requestOf_of_checked h, requestOf]
  split <;> rfl

theorem compile_eq_ok :
    compiler.compile expr = .ok request ↔
      ∃ bound uri, compiler.bind expr = .ok bound ∧
        Uri.ofChain compiler.config bound.chain = .ok (uri, request.version) ∧
        request.version.atMost compiler.config.maxVersion = true ∧
        (requestOf bound uri request.version).checked = .ok request := by
  simp only [compile, Except.bind_eq_ok, Prod.exists]
  constructor
  · rintro ⟨bound, hb, uri, version, hu, h⟩
    split at h
    · next hmax =>
      obtain rfl := version_of_checked h
      exact ⟨bound, uri, hb, hu, hmax, h⟩
    · cases h
  · rintro ⟨bound, uri, hb, hu, hmax, h⟩
    refine ⟨bound, hb, uri, request.version, hu, ?_⟩
    rw [if_pos hmax]
    exact h

theorem bind_selective (h : compiler.bind expr = .ok bound) : bound.chain.leaf.Selective := by
  obtain ⟨reduced, query, m, -, hq, rfl⟩ := bind_ok.1 h
  have hleaf := Binding.bindQuery_selective hq
  exact hleaf

/-- The latest version decides about a request when everything else is done. -/
theorem compile_withMaxVersion {version : ProtocolVersion} :
    (compiler.withMaxVersion version).compile expr = .ok request ↔
      request.version.atMost version = true ∧
        ∃ bound uri, compiler.bind expr = .ok bound ∧
          Uri.ofChain compiler.config bound.chain = .ok (uri, request.version) ∧
          (requestOf bound uri request.version).checked = .ok request := by
  -- neither binding nor writing looks at the latest version
  have hbind : (compiler.withMaxVersion version).bind expr = compiler.bind expr := rfl
  have hchain (chain : Chain) : Uri.ofChain (compiler.withMaxVersion version).config chain =
    Uri.ofChain compiler.config chain := rfl
  rw [compile_eq_ok, hbind]
  simp only [hchain]
  constructor
  · rintro ⟨bound, uri, hb, hu, hmax, hr⟩
    exact ⟨hmax, bound, uri, hb, hu, hr⟩
  · rintro ⟨hmax, bound, uri, hb, hu, hr⟩
    exact ⟨bound, uri, hb, hu, hmax, hr⟩

/-- The version of a request is the later one if there is a membership test in what is written for
the leaf, and the earlier one if there is none; it is always allowed. A request is allowed by the
earlier version if the later one allows it and it does not need that. -/
theorem compile_version (compiler : Compiler) (expr : Expr) :
    (∀ request, compiler.compile expr = .ok request →
      request.version.atMost compiler.config.maxVersion = true ∧
        ∃ bound, compiler.bind expr = .ok bound ∧
          request.version =
            if bound.chain.leaf.written.any Expr.testsMembership then .v401 else .v40) ∧
      ∀ request, (compiler.withMaxVersion .v40).compile expr = .ok request ↔
        (compiler.withMaxVersion .v401).compile expr = .ok request ∧ request.version = .v40 := by
  refine ⟨fun request h => ?_, fun request => ?_⟩
  · obtain ⟨bound, uri, hb, hu, hmax, -⟩ := compile_eq_ok.1 h
    refine ⟨hmax, bound, hb, ?_⟩
    have hversion := Uri.version_ofChain (bind_selective hb) hu
    rw [Uri.TestedIn, ← List.any_eq_true] at hversion
    split
    · next htests => exact hversion.2 htests
    · next hnone => exact ProtocolVersion.eq_v40 (mt hversion.1 hnone)
  · rw [compile_withMaxVersion, compile_withMaxVersion, ProtocolVersion.atMost_v40]
    constructor
    · rintro ⟨hv, h⟩
      exact ⟨⟨request.version.atMost_v401, h⟩, hv⟩
    · rintro ⟨⟨-, h⟩, hv⟩
      exact ⟨hv, h⟩

/-- The products with one of two prices. -/
def pricedProducts : Expr :=
  Binding.selected Binding.allProducts
    (.invoke (.constant (.array .int32 [.int32 5, .int32 7])) "Contains"
      [.member (.parameter ⟨"p", .entity "Product"⟩) "Price" .int32] .bool)

/-- A membership test is allowed by the later version only. -/
theorem compile_version_pricedProducts :
    ∃ request bound, compile ⟨{}, Binding.products⟩ pricedProducts = .ok request ∧
      request.uri = "Products?$filter=Price in (5,7)" ∧ request.version = .v401 ∧
      bind ⟨{}, Binding.products⟩ pricedProducts = .ok bound ∧
      bound.chain.leaf.written.any Expr.testsMembership = true ∧
      ∀ other, (withMaxVersion ⟨{}, Binding.products⟩ .v40).compile pricedProducts ≠ .ok other := by
  have huri : Request.uri <$> compile ⟨{}, Binding.products⟩ pricedProducts =
      .ok "Products?$filter=Price in (5,7)" := rfl
  have hversion : Request.version <$> compile ⟨{}, Binding.products⟩ pricedProducts = .ok .v401 :=
    rfl
  obtain ⟨request, hrequest, huri⟩ := Except.map_eq_ok.1 huri
  rw [hrequest] at hversion
  have hversion : request.version = .v401 := Except.ok.inj hversion
  obtain ⟨hall, hmax⟩ := compile_version ⟨{}, Binding.products⟩ pricedProducts
  obtain ⟨-, bound, hbound, hneeded⟩ := hall request hrequest
  refine ⟨request, bound, hrequest, huri, hversion, hbound, ?_, fun other hother => ?_⟩
  · by_contra hnone
    rw [hversion, if_neg hnone] at hneeded
    cases hneeded
  · obtain ⟨hlater, hearlier⟩ := (hmax other).1 hother
    have hsame : request = other := Except.ok.inj (hrequest.symm.trans hlater)
    rw [← hsame, hversion] at hearlier
    cases hearlier

end Compiler

end ServiceQuery
