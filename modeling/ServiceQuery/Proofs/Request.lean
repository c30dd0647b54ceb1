import ServiceQuery.Proofs.Binding.Terminal
import ServiceQuery.Proofs.Fold
import ServiceQuery.Request

/-!
# Requests of equivalent queries

A query is folded, put into normal form, bound and written. The first two go through calls of
operators argument by argument, so that what holds of bound queries holds of requests.
-/

namespace ServiceQuery

namespace Expr

theorem not_isClosed_of_mem {child expr : Expr} (hm : child ∈ expr.children)
    (h : child.isClosed isEvaluable = false) : expr.isClosed isEvaluable = false := by
  refine Bool.eq_false_iff.2 fun hc => ?_
  rw [(isClosed_iff.1 hc).2 child hm] at h
  cases h

theorem not_isClosed_lambda (params : List Param) (body : Expr) :
    (lambda params body).isClosed isEvaluable = false :=
  Bool.eq_false_iff.2 fun hc => Bool.false_ne_true (isClosed_iff.1 hc).1

/-- Calls are normal if their arguments are. -/
theorem transformM_simplify_call (method : String) (args : List Expr) (ty : Ty) :
    (call method args ty).transformM (fun _ => none) simplify =
      (call method · ty) <$> args.mapM (transformM (fun _ => none) simplify) := by
  rw [transformM_eq, map_eq_pure_bind]
  simp only [visit, mapChildrenM, bind_assoc, pure_bind]
  rfl

/-- The normal forms of a source and a predicate do not depend on the operator. -/
theorem normalize_predicate (method : String) (source predicate : Expr) (ty ty' : Ty) :
    ∃ normal replacements,
      (call method [source, predicate] ty).normalize =
          (call method [source.normalize.1, normal] ty, replacements) ∧
        (call method [call "Where" [source, predicate] ty'] ty).normalize =
          (call method [call "Where" [source.normalize.1, normal] ty'] ty, replacements) := by
  -- the predicate is visited right after the source, with the replacements found there
  let visited := (predicate.transformM (fun _ => none) simplify).run source.normalize.2
  refine ⟨visited.1, visited.2, ?_, ?_⟩
  · simp only [normalize, transformM_simplify_call, List.mapM_cons, List.mapM_nil]
    rfl
  · simp only [normalize, transformM_simplify_call, List.mapM_cons, List.mapM_nil]
    rfl

end Expr

/-- What the root of a chain is does not depend on the number and the options of the leaf. -/
theorem Chain.origin_withLeaf (chain : Chain) (id : ResourceId) (sequence : List SequenceOption) :
    (chain.withLeaf id sequence).resources.head?.bind Resource.origin =
      chain.resources.head?.bind Resource.origin := by
  obtain ⟨leaf, ancestors⟩ := chain
  simp only [resources, List.head?_reverse]
  cases ancestors <;> rfl

namespace Compiler

variable {compiler : Compiler} {request : Request}

/-- An open call is reduced argument by argument. -/
theorem reduce_call_ok {method : String} {args : List Expr} {ty : Ty} {reduced : Expr}
    (h : (Expr.call method args ty).isClosed Expr.isEvaluable = false) :
    compiler.reduce (.call method args ty) = .ok reduced ↔
      ∃ results, args.mapM compiler.reduce = .ok results ∧ .call method results ty = reduced := by
  cases hp : compiler.config.partialEvaluation with
  | false =>
    have hreduce : compiler.reduce = pure := by
      funext expr
      rw [reduce, hp]
      rfl
    rw [hreduce, List.mapM_pure, List.map_id']
    simp only [Except.pure_eq_ok, exists_eq_left']
  | true =>
    have hreduce (expr result : Expr) :
        compiler.reduce expr = .ok result ↔ expr.fold = .ok result := by
      rw [reduce, hp, if_pos rfl]
      split <;> simp_all
    rw [hreduce, Expr.fold_of_not_isClosed h]
    simp only [Expr.mapChildrenM, Except.bind_eq_ok, Except.pure_eq_ok,
      Except.mapM_eq_ok_congr hreduce]

/-- The request of a bound query, if its version is allowed. -/
def send (compiler : Compiler) (bound : BoundQuery) : Except CompileError Request := do
  let (uri, version) ← Uri.ofChain compiler.config bound.chain
  if version.atMost compiler.config.maxVersion then (requestOf bound uri version).checked
  else throw (.protocolVersionTooLow version compiler.config.maxVersion)

theorem compile_eq (expr : Expr) :
    compiler.compile expr = compiler.bind expr >>= compiler.send := rfl

/-- What the method and the parameters of a request do not show decides nothing of its check. -/
theorem checked_map (f : Request → Request) (hm : (f request).method = request.method)
    (hb : (f request).bodyParameters = request.bodyParameters)
    (hu : (f request).uriParameters = request.uriParameters) :
    (f request).checked = f <$> request.checked := by
  simp only [Request.checked, hm, hb, hu]
  split
  · rfl
  · split <;> rfl

theorem bind_ok {expr : Expr} {bound : BoundQuery} :
    compiler.bind expr = .ok bound ↔
      ∃ reduced query m, compiler.reduce expr = .ok reduced ∧
        (Binding.bindQuery compiler.metadata reduced.normalize.1).run 0 = .ok (query, m) ∧
        { query with replacements := reduced.normalize.2 } = bound := by
  simp only [bind, Except.bind_eq_ok, Except.pure_eq_ok, Prod.exists, exists_and_left]

/-- The normal form of a reduced query is bound to one that is sent as the request. -/
def Sends (compiler : Compiler) (reduced : Expr) (request : Request) : Prop :=
  ∃ query m, (Binding.bindQuery compiler.metadata reduced.normalize.1).run 0 = .ok (query, m) ∧
    compiler.send { query with replacements := reduced.normalize.2 } = .ok request

theorem compile_ok {expr : Expr} :
    compiler.compile expr = .ok request ↔
      ∃ reduced, compiler.reduce expr = .ok reduced ∧ compiler.Sends reduced request := by
  rw [compile_eq, Except.bind_eq_ok]
  constructor
  · rintro ⟨bound, hb, hsend⟩
    obtain ⟨reduced, query, m, hr, hq, rfl⟩ := bind_ok.1 hb
    exact ⟨reduced, hr, query, m, hq, hsend⟩
  · rintro ⟨reduced, hr, query, m, hq, hsend⟩
    exact ⟨_, bind_ok.2 ⟨reduced, query, m, hr, hq, rfl⟩, hsend⟩

theorem requestOf_congr {first second : BoundQuery} (h : first.Alike second) (uri : String)
    (version : ProtocolVersion) : requestOf first uri version = requestOf second uri version := by
  obtain ⟨_, rfl, id, sequence, rfl, -⟩ := h
  simp only [requestOf, Chain.origin_withLeaf]

theorem send_congr {first second : BoundQuery} (h : first.Alike second) :
    compiler.send first = .ok request ↔ compiler.send second = .ok request := by
  obtain ⟨chain, hsecond, hchain⟩ := id h
  simp only [send, Except.bind_eq_ok, requestOf_congr h]
  refine exists_congr fun address => and_congr_left fun _ => ?_
  rw [hsecond]
  exact hchain.ofChain_eq_ok compiler.config address

section Predicate

variable {method : String} {source body reduced : Expr} {params : List Param} {ty ty' : Ty}

theorem reduce_predicate_ok :
    compiler.reduce (.call method [source, .lambda params body] ty) = .ok reduced ↔
      ∃ s p, compiler.reduce source = .ok s ∧ compiler.reduce (.lambda params body) = .ok p ∧
        .call method [s, p] ty = reduced := by
  have hopen : (Expr.call method [source, .lambda params body] ty).isClosed Expr.isEvaluable =
      false := by
    refine Expr.not_isClosed_of_mem ?_ (Expr.not_isClosed_lambda params body)
    simp [Expr.children]
  rw [reduce_call_ok hopen]
  simp only [List.mapM_cons, List.mapM_nil, Except.bind_eq_ok, Except.pure_eq_ok]
  constructor
  · rintro ⟨_, ⟨s, hs, _, ⟨p, hp, _, rfl, rfl⟩, rfl⟩, rfl⟩
    exact ⟨s, p, hs, hp, rfl⟩
  · rintro ⟨s, p, hs, hp, rfl⟩
    exact ⟨_, ⟨s, hs, _, ⟨p, hp, _, rfl, rfl⟩, rfl⟩, rfl⟩

theorem reduce_where_ok :
    compiler.reduce (.call method [.call "Where" [source, .lambda params body] ty'] ty) =
        .ok reduced ↔
      ∃ s p, compiler.reduce source = .ok s ∧ compiler.reduce (.lambda params body) = .ok p ∧
        .call method [.call "Where" [s, p] ty'] ty = reduced := by
  have hopen : (Expr.call method [.call "Where" [source, .lambda params body] ty'] ty).isClosed
      Expr.isEvaluable = false := by
    refine Expr.not_isClosed_of_mem List.mem_cons_self (Expr.not_isClosed_of_mem ?_
      (Expr.not_isClosed_lambda params body))
    simp [Expr.children]
  rw [reduce_call_ok hopen]
  simp only [List.mapM_cons, List.mapM_nil, Except.bind_eq_ok, Except.pure_eq_ok,
    reduce_predicate_ok]
  constructor
  · rintro ⟨_, ⟨_, ⟨s, p, hs, hp, rfl⟩, _, rfl, rfl⟩, rfl⟩
    exact ⟨s, p, hs, hp, rfl⟩
  · rintro ⟨s, p, hs, hp, rfl⟩
    exact ⟨_, ⟨_, ⟨s, p, hs, hp, rfl⟩, _, rfl, rfl⟩, rfl⟩

/-- Once it is reduced, a terminal operator with a predicate is sent like the operator on the filtered
source. -/
theorem sends_predicate {terminal : Terminal} (ht : Terminal.ofMethod? method = some terminal)
    (hne : terminal ≠ .aggregate) {s : Expr} (hs : compiler.reduce source = .ok s) (p : Expr)
    (hdeclared : ∀ bound entity, compiler.bind source = .ok bound →
      bound.elementType = .entity entity →
        ∃ keys, compiler.metadata.keyProperties entity = .ok keys) :
    compiler.Sends (.call method [s, p] ty) request ↔
      compiler.Sends (.call method [.call "Where" [s, p] ty'] ty) request := by
  obtain ⟨normal, replacements, hcall, hwhere⟩ := Expr.normalize_predicate method s p ty ty'
  rw [Sends, Sends, hcall, hwhere]
  refine Binding.bindQuery_predicate ht hne
    (fun first second h => send_congr (h.withReplacements replacements)) ?_
  intro chain k hchain entity he
  have hsource := bind_ok.2 ⟨s, _, k, hs, Binding.bindQuery_of_bind hchain, rfl⟩
  exact hdeclared _ entity hsource he

/-- A terminal operator with a predicate has the request of the operator on the filtered source, if
the keys of the elements are known. -/
theorem compile_predicate
    (hm : method ∈ ["Count", "LongCount", "First", "FirstOrDefault", "Single", "SingleOrDefault"])
    (hdeclared : ∀ bound entity, compiler.bind source = .ok bound →
      bound.elementType = .entity entity →
        ∃ keys, compiler.metadata.keyProperties entity = .ok keys) (request : Request) :
    compiler.compile (.call method [source, .lambda params body] ty) = .ok request ↔
      compiler.compile (.call method [.call "Where" [source, .lambda params body] ty'] ty) =
        .ok request := by
  have hterminal : ∃ terminal, Terminal.ofMethod? method = some terminal ∧
      terminal ≠ .aggregate := by
    simp only [List.mem_cons, List.not_mem_nil, or_false] at hm
    obtain rfl | rfl | rfl | rfl | rfl | rfl := hm
    all_goals exact ⟨_, rfl, by simp⟩
  obtain ⟨terminal, ht, hne⟩ := hterminal
  rw [compile_ok, compile_ok]
  constructor
  · rintro ⟨_, hr, hsends⟩
    obtain ⟨s, p, hs, hp, rfl⟩ := reduce_predicate_ok.1 hr
    exact ⟨_, reduce_where_ok.2 ⟨s, p, hs, hp, rfl⟩,
      (sends_predicate ht hne hs p hdeclared).1 hsends⟩
  · rintro ⟨_, hr, hsends⟩
    obtain ⟨s, p, hs, hp, rfl⟩ := reduce_where_ok.1 hr
    exact ⟨_, reduce_predicate_ok.2 ⟨s, p, hs, hp, rfl⟩,
      (sends_predicate ht hne hs p hdeclared).2 hsends⟩

end Predicate

theorem compile_predicate_dearOrFirst : ∃ request,
    request.uri = "Products/$count?$filter=Id eq 5 and (Price gt 10 or Id lt 3)" ∧
      Binding.products.keyProperties "Product" = .ok ["Id"] ∧
      compile ⟨{}, Binding.products⟩ (.call "Count" [Binding.keyed Binding.allProducts,
        .lambda [⟨"p", .entity "Product"⟩] Binding.dearOrFirst] .int32) = .ok request ∧
      compile ⟨{}, Binding.products⟩ (.call "Count"
        [Binding.selected (Binding.keyed Binding.allProducts) Binding.dearOrFirst] .int32) =
          .ok request := by
  have hcount : ∃ request, compile ⟨{}, Binding.products⟩ (.call "Count"
      [Binding.keyed Binding.allProducts,
        .lambda [⟨"p", .entity "Product"⟩] Binding.dearOrFirst] .int32) = .ok request ∧
      request.uri = "Products/$count?$filter=Id eq 5 and (Price gt 10 or Id lt 3)" :=
    ⟨_, rfl, rfl⟩
  obtain ⟨request, hrequest, huri⟩ := hcount
  refine ⟨request, huri, rfl, hrequest, (compile_predicate (by simp) ?_ request).1 hrequest⟩
  intro bound entity hbound he
  cases (show bind ⟨{}, Binding.products⟩ (Binding.keyed Binding.allProducts) = .ok _
    from rfl).symm.trans hbound
  obtain rfl : "Product" = entity := Ty.entity.inj he
  exact ⟨["Id"], rfl⟩

end Compiler

end ServiceQuery
