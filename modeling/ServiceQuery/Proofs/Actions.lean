import ServiceQuery.Proofs.Binding.Moves
import ServiceQuery.Proofs.Normal
import ServiceQuery.Proofs.Request

/-!
# Operators over an action

Nothing follows an action, whatever the operators, their arguments and their number are. The one
exception is an operator that asks for one element of the action itself: an action is a single
element already, so there is nothing to add, and the action is sent as it is.
-/

namespace ServiceQuery

/-- Calls of operators, at least one, whose innermost source is an action. -/
inductive Expr.OverAction : Expr → Prop where
  | first {origin : ResourceRoot} {parameters : List (String × Value)}
      (action : origin.kind = .action parameters) (method : String) (args : List Expr) (ty : Ty) :
      OverAction (.call method (.root origin :: args) ty)
  | next {source : Expr} (inner : OverAction source) (method : String) (args : List Expr) (ty : Ty) :
      OverAction (.call method (source :: args) ty)

theorem Expr.not_isClosed_root (origin : ResourceRoot) :
    (root origin).isClosed isEvaluable = false :=
  Bool.eq_false_iff.2 fun hc => Bool.false_ne_true (isClosed_iff.1 hc).1

theorem Expr.OverAction.not_isClosed {expr : Expr} (h : expr.OverAction) :
    expr.isClosed isEvaluable = false := by
  induction h with
  | first action method args ty =>
    exact not_isClosed_of_mem List.mem_cons_self (not_isClosed_root _)
  | next inner method args ty ih => exact not_isClosed_of_mem List.mem_cons_self ih

namespace Binding

variable {metadata : Metadata} {chain : Chain} {n m : ResourceId}

theorem isAction_of_bind_root {origin : ResourceRoot} {parameters : List (String × Value)}
    (action : origin.kind = .action parameters)
    (h : (bind metadata (.root origin)).run n = .ok (chain, m)) : chain.leaf.isAction = true := by
  rw [bind] at h
  obtain ⟨rfl, -⟩ := bindRoot_ok h
  simp [Resource.isAction, Resource.ofRoot, action]

/-- Operators over an action are bound to no chain. -/
theorem not_bind_of_overAction {expr : Expr} (h : expr.OverAction) :
    (bind metadata expr).run n ≠ .ok (chain, m) := by
  intro hb
  induction h generalizing chain m with
  | first action method args ty =>
    obtain ⟨source, k, -, hs, hnone, -, -⟩ := bind_call_ok hb
    rw [isAction_of_bind_root action hs] at hnone
    cases hnone
  | next inner method args ty ih =>
    obtain ⟨source, k, -, hs, -, -, -⟩ := bind_call_ok hb
    exact ih hs

/-- A source that is bound under an operator over an action is the action, a single element. -/
theorem bind_source_of_overAction {method : String} {source : Expr} {args : List Expr} {ty : Ty}
    (h : (Expr.call method (source :: args) ty).OverAction)
    (hb : (bind metadata source).run n = .ok (chain, m)) :
    (∃ origin, source = .root origin) ∧ chain.demoted.leaf.isSingle = true := by
  cases h with
  | @first origin parameters action =>
    refine ⟨⟨origin, rfl⟩, ?_⟩
    cases hc : chain.demoted.leaf.isSingle with
    | true => rfl
    | false =>
      have hnone := bind_isAction hb hc
      rw [isAction_of_bind_root action hb] at hnone
      cases hnone
  | next inner => exact (not_bind_of_overAction inner hb).elim

/-- Operators that ask for a collection are not bound on an action. -/
theorem not_admits_of_overAction {method : String} {source : Expr} {args : List Expr} {ty : Ty}
    {blocked : List String} (h : (Expr.call method (source :: args) ty).OverAction)
    (hb : (bind metadata source).run n = .ok (chain, m)) :
    ¬ chain.demoted.leaf.Admits blocked := by
  rintro ⟨hcollection, -⟩
  rw [(bind_source_of_overAction h hb).2] at hcollection
  cases hcollection

/-- Of the queries over an action, at most those for one element of the action itself are bound. -/
theorem bindQuery_overAction {expr : Expr} {query : BoundQuery} (h : expr.OverAction)
    (hq : (bindQuery metadata expr).run n = .ok (query, m)) :
    ∃ method limit origin ty, Terminal.ofMethod? method = some (.element limit) ∧
      expr = .call method [.root origin] ty := by
  obtain ⟨chain, hb, -⟩ | ⟨method, args, ty, rfl, hterminal⟩ := bindQuery_ok hq
  · exact (not_bind_of_overAction h hb).elim
  obtain ⟨-, hcount⟩ | ⟨limit, ht, helement⟩ | ⟨-, haggregate⟩ := hterminal
  · obtain ⟨source, chain, k, target, hb, hargs, hadmits, -⟩ := bindCount_ok.1 hcount
    obtain ⟨rfl, rfl, -⟩ | ⟨predicate, rfl, hf⟩ := hargs
    · exact (not_admits_of_overAction h hb hadmits).elim
    · exact (not_admits_of_overAction h hb (bindFilter_ok.1 hf).1).elim
  · obtain ⟨source, chain, k, target, hb, hargs, -⟩ := bindElement_ok.1 helement
    obtain ⟨rfl, -, -⟩ | ⟨predicate, rfl, hw⟩ := hargs
    · obtain ⟨⟨origin, rfl⟩, -⟩ := bind_source_of_overAction h hb
      exact ⟨method, limit, origin, ty, ht, rfl⟩
    · exact (not_admits_of_overAction h hb (bindWhere_ok.1 hw).1).elim
  · obtain ⟨source, selector, chain, k, rfl, hb, hadmits, -⟩ := bindAggregate_ok haggregate
    exact (not_admits_of_overAction h hb hadmits).elim

end Binding

namespace Compiler

variable {compiler : Compiler}

/-- The query is bound in the given form. -/
def Prepares (compiler : Compiler) (expr normal : Expr) : Prop :=
  ∃ reduced, compiler.reduce expr = .ok reduced ∧ reduced.normalize.1 = normal

theorem reduce_root (origin : ResourceRoot) :
    compiler.reduce (.root origin) = .ok (.root origin) := by
  rw [reduce, Expr.fold_of_not_isClosed (Expr.not_isClosed_root origin)]
  split <;> rfl

theorem Prepares.eq_root {origin : ResourceRoot} {normal : Expr}
    (h : compiler.Prepares (.root origin) normal) : normal = .root origin := by
  obtain ⟨reduced, hr, rfl⟩ := h
  rw [reduce_root] at hr
  cases hr
  rfl

/-- An open call is bound as a call of the same method with as many arguments. -/
theorem Prepares.eq_call {method : String} {source : Expr} {args : List Expr} {ty : Ty}
    {normal : Expr} (hopen : source.isClosed Expr.isEvaluable = false)
    (h : compiler.Prepares (.call method (source :: args) ty) normal) :
    ∃ source' args', compiler.Prepares source source' ∧ args'.length = args.length ∧
      normal = .call method (source' :: args') ty := by
  obtain ⟨reduced, hr, rfl⟩ := h
  obtain ⟨results, hm, rfl⟩ :=
    (reduce_call_ok (Expr.not_isClosed_of_mem List.mem_cons_self hopen)).1 hr
  simp only [List.mapM_cons, Except.bind_eq_ok, Except.pure_eq_ok] at hm
  obtain ⟨s, hs, rest, hrest, rfl⟩ := hm
  refine ⟨s.normalize.1, rest.map fun arg => arg.normalize.1, ⟨s, hs, rfl⟩, ?_, ?_⟩
  · rw [List.length_map, Except.length_of_mapM_eq_ok hrest]
  · rw [Expr.normalize_eq]
    rfl

/-- What is over an action is bound over it. -/
theorem Prepares.overAction {expr normal : Expr} (h : expr.OverAction)
    (hp : compiler.Prepares expr normal) : normal.OverAction := by
  induction h generalizing normal with
  | first action method args ty =>
    obtain ⟨source, args', hs, -, rfl⟩ := hp.eq_call (Expr.not_isClosed_root _)
    rw [hs.eq_root]
    exact .first action method args' ty
  | next inner method args ty ih =>
    obtain ⟨source, args', hs, -, rfl⟩ := hp.eq_call inner.not_isClosed
    exact .next (ih hs) method args' ty

/-- Of the queries over an action, at most those for one element of the action itself have a
request. -/
theorem element_of_compile {expr : Expr} {request : Request} (h : expr.OverAction)
    (hc : compiler.compile expr = .ok request) :
    ∃ method limit origin ty, Terminal.ofMethod? method = some (.element limit) ∧
      expr = .call method [.root origin] ty := by
  obtain ⟨reduced, hr, query, m, hq, -⟩ := compile_ok.1 hc
  have hp : compiler.Prepares expr reduced.normalize.1 := ⟨reduced, hr, rfl⟩
  obtain ⟨method, limit, origin, ty, ht, hnormal⟩ :=
    Binding.bindQuery_overAction (hp.overAction h) hq
  rw [hnormal] at hp
  cases h with
  | @first root parameters action =>
    obtain ⟨source, args, hs, hlength, hcall⟩ := hp.eq_call (Expr.not_isClosed_root root)
    cases hcall
    obtain rfl := List.length_eq_zero_iff.1 hlength.symm
    exact ⟨_, limit, root, _, ht, rfl⟩
  | next inner =>
    -- the source is not the action itself, and is not bound as if it were
    obtain ⟨source, args, hs, -, hcall⟩ := hp.eq_call inner.not_isClosed
    cases hcall
    cases hs.overAction inner

section Element

variable {origin : ResourceRoot} {parameters : List (String × Value)}

theorem run_bind_action (metadata : Metadata) (action : origin.kind = .action parameters) :
    (Binding.bind metadata (.root origin)).run 0 = .ok (⟨.ofRoot 0 origin, []⟩, 1) := by
  rw [Binding.bind, Binding.bindRoot, action]
  rfl

theorem bind_action (action : origin.kind = .action parameters) :
    compiler.bind (.root origin) = .ok (Binding.finish ⟨.ofRoot 0 origin, []⟩ none none) := by
  have hquery := Binding.bindQuery_of_bind (run_bind_action compiler.metadata action)
  exact bind_ok.2 ⟨_, _, 1, reduce_root origin, hquery, rfl⟩

/-- No limit is set on an action, which is a single element. -/
theorem bind_element {method : String} {limit : Nat}
    (ht : Terminal.ofMethod? method = some (.element limit))
    (action : origin.kind = .action parameters) (ty : Ty) :
    compiler.bind (.call method [.root origin] ty) =
      .ok (Binding.finish ⟨.ofRoot 0 origin, []⟩ none (some true)) := by
  have hopen : (Expr.call method [.root origin] ty).isClosed Expr.isEvaluable = false :=
    Expr.not_isClosed_of_mem List.mem_cons_self (Expr.not_isClosed_root origin)
  have hreduce : compiler.reduce (.call method [.root origin] ty) =
      .ok (.call method [.root origin] ty) := by
    refine (reduce_call_ok hopen).2 ⟨[.root origin], ?_, rfl⟩
    rw [List.mapM_cons, reduce_root]
    rfl
  have hsingle : (Resource.ofRoot 0 origin).isSingle = true := by
    simp [Resource.isSingle, Resource.ofRoot, ResourceRoot.isCollection, action]
  have hquery : (Binding.bindQuery compiler.metadata (.call method [.root origin] ty)).run 0 =
      .ok (Binding.finish ⟨.ofRoot 0 origin, []⟩ none (some true), 1) := by
    simp only [Binding.bindQuery, ht]
    refine Binding.bindElement_ok.2 ⟨.root origin, _, 1, _,
      run_bind_action compiler.metadata action, .inl ⟨rfl, rfl, rfl⟩, ?_⟩
    rw [if_pos hsingle]
  exact bind_ok.2 ⟨_, _, 1, hreduce, hquery, rfl⟩

theorem requestOf_finish (chain : Chain) (singleResult : Option Bool) (uri : String)
    (version : ProtocolVersion) :
    requestOf (Binding.finish chain none singleResult) uri version =
      { requestOf (Binding.finish chain none none) uri version with
        singleResult := singleResult } := by
  simp only [requestOf, Binding.finish]
  split <;> rfl

/-- Whether one result is asked for shows in the request and nowhere else. -/
theorem send_finish (chain : Chain) (singleResult : Option Bool) :
    compiler.send (Binding.finish chain none singleResult) =
      (fun request => { request with singleResult := singleResult }) <$>
        compiler.send (Binding.finish chain none none) := by
  have hchain : (Binding.finish chain none singleResult).chain = chain := rfl
  have hplain : (Binding.finish chain none none).chain = chain := rfl
  rw [send, send, hchain, hplain]
  cases Uri.ofChain compiler.config chain with
  | error error => rfl
  | ok address =>
    simp only [Bind.bind, Except.bind, requestOf_finish chain singleResult]
    split
    · exact checked_map (fun request => { request with singleResult := singleResult }) rfl rfl rfl
    · rfl

theorem compile_element {method : String} {limit : Nat}
    (ht : Terminal.ofMethod? method = some (.element limit))
    (action : origin.kind = .action parameters) (ty : Ty) :
    compiler.compile (.call method [.root origin] ty) =
      (fun request => { request with singleResult := some true }) <$>
        compiler.compile (.root origin) := by
  rw [compile_eq, compile_eq, bind_element ht action, bind_action action]
  exact send_finish _ _

end Element

/-- Operators over an action have no request, except that asking for one element of the action
itself sends the action. -/
theorem compile_overAction {expr : Expr} (h : expr.OverAction) :
    ((∀ method limit origin ty, Terminal.ofMethod? method = some (.element limit) →
        expr ≠ .call method [.root origin] ty) →
      ∃ error, compiler.compile expr = .error error) ∧
    ∀ method limit origin ty, Terminal.ofMethod? method = some (.element limit) →
      expr = .call method [.root origin] ty →
        compiler.compile expr = (fun request => { request with singleResult := some true }) <$>
          compiler.compile (.root origin) := by
  constructor
  · intro hne
    cases hc : compiler.compile expr with
    | error error => exact ⟨error, rfl⟩
    | ok request =>
      obtain ⟨method, limit, origin, ty, ht, he⟩ := element_of_compile h hc
      exact (hne method limit origin ty ht he).elim
  · rintro method limit origin ty ht rfl
    cases h with
    | first action => exact compile_element ht action ty
    | next inner => cases inner

namespace Sample

/-- An action that sets the products back and gives one of them. -/
def reset : Expr := .root ⟨"Reset", .entity "Product", .action [("hard", .bool true)]⟩

/-- An element of a source of products. -/
def firstOf (source : Expr) : Expr := .call "First" [source] (.entity "Product")

end Sample

open Sample

theorem compile_overAction_reset :
    (firstOf (firstOf reset)).OverAction ∧
      (∃ error, compile ⟨{}, Binding.products⟩ (firstOf (firstOf reset)) = .error error) ∧
      compile ⟨{}, Binding.products⟩ (firstOf reset) =
        (fun request => { request with singleResult := some true }) <$>
          compile ⟨{}, Binding.products⟩ reset := by
  have hfirst : (firstOf reset).OverAction := .first rfl _ _ _
  have htwice : (firstOf (firstOf reset)).OverAction := .next hfirst _ _ _
  refine ⟨htwice, (compile_overAction htwice).1 ?_, (compile_overAction hfirst).2 _ 1 _ _ rfl rfl⟩
  rintro method limit origin ty - ⟨⟩

/-- The first element of an action has a request. -/
theorem compile_firstOf_reset :
    (firstOf reset).OverAction ∧
      compile ⟨{}, Binding.products⟩ (firstOf reset) = .ok
        { uri := "Reset"
          version := .v40
          elementType := .entity "Product"
          method := .post
          singleResult := some true
          bodyParameters := [("hard", .bool true)] } :=
  ⟨.first rfl _ _ _, rfl⟩

end Compiler

end ServiceQuery
