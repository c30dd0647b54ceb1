import ServiceQuery.Binding.Basic
import ServiceQuery.Proofs.Monad
import ServiceQuery.Proofs.Resource
import ServiceQuery.Proofs.Traverse

/-!
# What binding an operator does

For every operator, the conditions under which it is bound and the chain that comes of it. Facts
about bound queries are derived from these and from one induction over the calls of a query.

## Main definitions

* `Resource.Admits`: a collection that carries none of some operators.
* `Operator.method`, `Operator.args`: the call that an operator stands for.
* `Chain.Binds`: an argument is a lambda over the leaf with the given bound body.

## Main statements

* `Binding.bindWhere_ok` and the like: when an operator is bound, and to what.
* `Binding.bind_induction`: induction over the calls of a bound query.
-/

namespace ServiceQuery

/-- The resource is a collection that carries none of the blocked operators. -/
def Resource.Admits (resource : Resource) (blocked : List String) : Prop :=
  resource.isSingle = false ∧ ∀ name ∈ blocked, name ∉ resource.applied

/-- The chain with a key of its leaf turned back into a filter. -/
def Chain.demoted (chain : Chain) : Chain := chain.mapLeaf Resource.demoteKey

namespace Operator

/-- The method that an operator is called by. -/
def method : Operator → String
  | filter _ => "Where"
  | orderBy _ descending => if descending then "OrderByDescending" else "OrderBy"
  | thenBy _ descending => if descending then "ThenByDescending" else "ThenBy"
  | skip _ => "Skip"
  | take _ => "Take"
  | select _ => "Select"
  | selectMany _ _ => "SelectMany"
  | groupBy _ => "GroupBy"
  | expand _ => "Expand"
  | addOption _ _ => "AddQueryOption"
  | includeCount _ => "IncludeCount"

/-- The arguments of an operator after the source. -/
def args : Operator → List Expr
  | filter predicate => [predicate]
  | orderBy key _ | thenBy key _ => [key]
  | skip count | take count => [count]
  | select selector => [selector]
  | selectMany selector result => selector :: result.toList
  | groupBy selectors => selectors
  | expand path => [path]
  | addOption name value => [name, value]
  | includeCount flag => flag.toList

/-- An operator stands for a call of its method with its arguments. -/
theorem ofCall?_some {name : String} {arguments : List Expr} {operator : Operator}
    (h : ofCall? name arguments = some operator) :
    name = operator.method ∧ arguments = operator.args := by
  unfold ofCall? at h
  split at h <;> cases h <;> exact ⟨rfl, rfl⟩

end Operator

/-- The argument is a lambda with one parameter whose body reads no resource but the leaf, and
`bound` is its body with the parameter replaced. -/
def Chain.Binds (chain : Chain) (argument bound : Expr) : Prop :=
  ∃ param body, argument = .lambda [param] body ∧
    (∀ id ∈ chain.referenced param.name body, id = chain.leaf.id) ∧
    bound = chain.bindInput param.name body

namespace Resource

variable {resource : Resource} {method : String} {u : Unit}

theorem requireCollection_ok :
    resource.requireCollection method = .ok u ↔ resource.isSingle = false := by
  rw [requireCollection]
  cases resource.isSingle <;> simp

theorem requireNotAfter_ok {blocked : List String} :
    resource.requireNotAfter method blocked = .ok u ↔
      ∀ name ∈ blocked, name ∉ resource.applied := by
  rw [requireNotAfter]
  cases hf : blocked.find? fun name => resource.applied.contains name with
  | some after =>
    have hm := List.find?_some hf
    have hb := List.mem_of_find?_eq_some hf
    simp only [reduceCtorEq, false_iff]
    exact fun h => h after hb (by simpa using hm)
  | none =>
    simp only [true_iff]
    intro name hn
    simpa using List.find?_eq_none.1 hf name hn

end Resource

theorem Expr.requireLambda_ok {expr : Expr} {f : Lambda} :
    expr.requireLambda = .ok f ↔ expr = f.toExpr := by
  cases expr with
  | lambda params body =>
    simp only [requireLambda, lambda?, Lambda.toExpr, Except.ok.injEq, Expr.lambda.injEq]
    exact ⟨fun h => h ▸ ⟨rfl, rfl⟩, fun h => by cases f; simp_all⟩
  | _ => simp [requireLambda, lambda?, Lambda.toExpr]

theorem Lambda.single_ok {f : Lambda} {param : Param} :
    f.single = .ok param ↔ f.params = [param] := by
  obtain ⟨params, body⟩ := f
  match params with
  | [] => simp [single, param?]
  | [other] => simp [single, param?]
  | first :: second :: rest => simp [single, param?]

theorem Expr.requireCount_ok {expr : Expr} {method : String} {count : Nat} :
    expr.requireCount method = .ok count ↔
      expr.constant?.bind Value.integer? = some (count : Int) := by
  rw [requireCount]
  cases hv : expr.constant?.bind Value.integer? with
  | none => simp
  | some k =>
    cases k with
    | ofNat k =>
      constructor
      · rintro ⟨⟩
        rfl
      · rintro ⟨⟩
        rfl
    | negSucc k => simp

namespace Chain

variable {chain : Chain}

theorem boundBody_ok {clause : String} {f : Lambda} {bound : Expr} :
    chain.boundBody clause f = .ok bound ↔ chain.Binds f.toExpr bound := by
  simp only [boundBody, Except.bind_eq_ok, Lambda.single_ok]
  constructor
  · rintro ⟨param, hp, hb⟩
    split at hb
    · next hr =>
      rw [Except.pure_eq_ok] at hb
      rw [List.all_eq_true] at hr
      refine ⟨param, f.body, ?_, fun id hid => by simpa using hr id hid, hb.symm⟩
      rw [Lambda.toExpr, hp]
    · exact absurd hb (by rw [Except.throw_eq_ok]; exact id)
  · rintro ⟨param, body, hf, hr, rfl⟩
    simp only [Lambda.toExpr, Expr.lambda.injEq] at hf
    obtain ⟨hp, rfl⟩ := hf
    refine ⟨param, hp, ?_⟩
    have ha : ((chain.referenced param.name f.body).all fun id => id == chain.leaf.id) = true := by
      rw [List.all_eq_true]
      exact fun id hid => by simpa using hr id hid
    rw [if_pos ha]
    rfl

/-- Taking the argument as a lambda first changes nothing. -/
theorem exists_toExpr_binds {argument bound : Expr} :
    (∃ f : Lambda, argument = f.toExpr ∧ chain.Binds f.toExpr bound) ↔
      chain.Binds argument bound := by
  constructor
  · rintro ⟨f, rfl, h⟩
    exact h
  · rintro ⟨param, body, rfl, h⟩
    exact ⟨⟨[param], body⟩, rfl, param, body, rfl, h⟩

end Chain

namespace Binding

variable {metadata : Metadata} {chain chain' : Chain} {n m : ResourceId}

theorem predicateOn_ok {predicate bound : Expr} :
    predicateOn chain predicate = .ok bound ↔
      chain.leaf.Admits ["Skip", "Take", "Select", "GroupBy"] ∧ chain.Binds predicate bound := by
  simp only [predicateOn, Except.bind_eq_ok, Resource.requireCollection_ok,
    Resource.requireNotAfter_ok, Expr.requireLambda_ok, Chain.boundBody_ok,
    Chain.exists_toExpr_binds, exists_const, Resource.Admits, and_assoc]

theorem selectorOn_ok {method : String} {key : Expr} {descending : Bool}
    {selector : OrderSelector} :
    selectorOn chain method key descending = .ok selector ↔
      chain.leaf.Admits ["Skip", "Take", "Select", "GroupBy"] ∧
        chain.Binds key selector.expr ∧ selector.descending = descending := by
  simp only [selectorOn, Except.bind_eq_ok, Resource.requireCollection_ok,
    Resource.requireNotAfter_ok, Expr.requireLambda_ok, Chain.boundBody_ok, exists_const,
    Except.pure_eq_ok, Resource.Admits, and_assoc]
  refine and_congr_right fun _ => and_congr_right fun _ => ?_
  constructor
  · rintro ⟨f, hf, expr, hb, rfl⟩
    exact ⟨Chain.exists_toExpr_binds.1 ⟨f, hf, hb⟩, rfl⟩
  · rintro ⟨hb, rfl⟩
    obtain ⟨f, hf, hb⟩ := Chain.exists_toExpr_binds.2 hb
    exact ⟨f, hf, selector.expr, hb, rfl⟩

theorem bindFilter_ok {predicate : Expr} :
    (bindFilter chain predicate).run n = .ok (chain', m) ↔
      chain.demoted.leaf.Admits ["Skip", "Take", "Select", "GroupBy"] ∧
        ∃ bound, chain.demoted.Binds predicate bound ∧
          chain' = chain.demoted.mapLeaf (·.addOption (.filter [bound])) ∧ m = n := by
  simp only [bindFilter, BindM.run_bind, BindM.run_lift, BindM.run_pure, predicateOn_ok]
  constructor
  · rintro ⟨bound, _, ⟨⟨ha, hb⟩, rfl⟩, rfl, rfl⟩
    exact ⟨ha, bound, hb, rfl, rfl⟩
  · rintro ⟨ha, bound, hb, rfl, rfl⟩
    exact ⟨bound, _, ⟨⟨ha, hb⟩, rfl⟩, rfl, rfl⟩

/-- A filter becomes a key where its predicate gives one, under a fresh number. -/
theorem bindWhere_ok {predicate : Expr} :
    (bindWhere metadata chain predicate).run n = .ok (chain', m) ↔
      chain.demoted.leaf.Admits ["Skip", "Take", "Select", "GroupBy"] ∧
        ∃ bound, chain.demoted.Binds predicate bound ∧
          ((∃ key, chain.demoted.leaf.keyIn metadata bound = .ok (some key) ∧
              chain' = chain.demoted.mapLeaf
                (fun leaf => (leaf.withKeyFilter key bound).renumber n) ∧ m = n + 1) ∨
            chain.demoted.leaf.keyIn metadata bound = .ok none ∧
              chain' = chain.demoted.mapLeaf (·.addOption (.filter [bound])) ∧ m = n) := by
  simp only [bindWhere, BindM.run_bind, BindM.run_lift, predicateOn_ok]
  constructor
  · rintro ⟨bound, _, ⟨⟨ha, hb⟩, rfl⟩, found, _, ⟨hk, rfl⟩, hrun⟩
    refine ⟨ha, bound, hb, ?_⟩
    cases found with
    | some key =>
      simp only [BindM.run_bind, BindM.run_freshId, BindM.run_pure] at hrun
      obtain ⟨_, _, ⟨rfl, rfl⟩, rfl, rfl⟩ := hrun
      exact .inl ⟨key, hk, rfl, rfl⟩
    | none =>
      obtain ⟨rfl, rfl⟩ := BindM.run_pure.1 hrun
      exact .inr ⟨hk, rfl, rfl⟩
  · rintro ⟨ha, bound, hb, ⟨key, hk, rfl, rfl⟩ | ⟨hk, rfl, rfl⟩⟩
    · exact ⟨bound, n, ⟨⟨ha, hb⟩, rfl⟩, some key, n, ⟨hk, rfl⟩, rfl⟩
    · exact ⟨bound, _, ⟨⟨ha, hb⟩, rfl⟩, none, _, ⟨hk, rfl⟩, rfl⟩

theorem bindOrderBy_ok {key : Expr} {descending : Bool} :
    (bindOrderBy chain key descending).run n = .ok (chain', m) ↔
      chain.demoted.leaf.Admits ["Skip", "Take", "Select", "GroupBy"] ∧
        ∃ bound, chain.demoted.Binds key bound ∧
          chain' = chain.demoted.mapLeaf (·.addOption (.orderBy [⟨bound, descending⟩])) ∧
          m = n := by
  simp only [bindOrderBy, BindM.run_bind, BindM.run_lift, BindM.run_pure, selectorOn_ok]
  constructor
  · rintro ⟨⟨bound, _⟩, _, ⟨⟨ha, hb, rfl⟩, rfl⟩, rfl, rfl⟩
    exact ⟨ha, bound, hb, rfl, rfl⟩
  · rintro ⟨ha, bound, hb, rfl, rfl⟩
    exact ⟨⟨bound, descending⟩, _, ⟨⟨ha, hb, rfl⟩, rfl⟩, rfl, rfl⟩

/-- A further key follows the keys of the ordering that is there. -/
theorem bindThenBy_ok {key : Expr} {descending : Bool} :
    (bindThenBy chain key descending).run n = .ok (chain', m) ↔
      chain.demoted.leaf.Admits ["Skip", "Take", "Select", "GroupBy"] ∧
        ∃ bound selectors, chain.demoted.Binds key bound ∧
          chain.demoted.leaf.orderBy? = some selectors ∧
          chain' = chain.demoted.mapLeaf
            (·.addOption (.orderBy (selectors ++ [⟨bound, descending⟩]))) ∧ m = n := by
  simp only [bindThenBy, BindM.run_bind, BindM.run_lift, selectorOn_ok]
  constructor
  · rintro ⟨⟨bound, _⟩, _, ⟨⟨ha, hb, rfl⟩, rfl⟩, hrun⟩
    refine ⟨ha, bound, ?_⟩
    split at hrun
    · next selectors hs =>
      obtain ⟨rfl, rfl⟩ := BindM.run_pure.1 hrun
      exact ⟨selectors, hb, hs, rfl, rfl⟩
    · exact (BindM.run_throw.1 hrun).elim
  · rintro ⟨ha, bound, selectors, hb, hs, rfl, rfl⟩
    refine ⟨⟨bound, descending⟩, _, ⟨⟨ha, hb, rfl⟩, rfl⟩, ?_⟩
    rw [Chain.demoted] at hs
    rw [hs]
    rfl

theorem bindSkip_ok {count : Expr} :
    (bindSkip chain count).run n = .ok (chain', m) ↔
      chain.demoted.leaf.Admits ["Take"] ∧
        ∃ k : Nat, count.constant?.bind Value.integer? = some (k : Int) ∧
          chain' = chain.demoted.mapLeaf (·.addOption (.skip k)) ∧ m = n := by
  simp only [bindSkip, BindM.run_bind, BindM.run_lift, BindM.run_pure,
    Resource.requireCollection_ok, Resource.requireNotAfter_ok, Expr.requireCount_ok]
  constructor
  · rintro ⟨_, _, ⟨hs, rfl⟩, _, _, ⟨ha, rfl⟩, k, _, ⟨hk, rfl⟩, rfl, rfl⟩
    exact ⟨⟨hs, ha⟩, k, hk, rfl, rfl⟩
  · rintro ⟨⟨hs, ha⟩, k, hk, rfl, rfl⟩
    exact ⟨(), _, ⟨hs, rfl⟩, (), _, ⟨ha, rfl⟩, k, _, ⟨hk, rfl⟩, rfl, rfl⟩

theorem bindTake_ok {count : Expr} :
    (bindTake chain count).run n = .ok (chain', m) ↔
      chain.demoted.leaf.isSingle = false ∧
        ∃ k : Nat, count.constant?.bind Value.integer? = some (k : Int) ∧
          chain' = chain.demoted.mapLeaf (·.addOption (.take k)) ∧ m = n := by
  simp only [bindTake, BindM.run_bind, BindM.run_lift, BindM.run_pure,
    Resource.requireCollection_ok, Expr.requireCount_ok]
  constructor
  · rintro ⟨_, _, ⟨hs, rfl⟩, k, _, ⟨hk, rfl⟩, rfl, rfl⟩
    exact ⟨hs, k, hk, rfl, rfl⟩
  · rintro ⟨hs, k, hk, rfl, rfl⟩
    exact ⟨(), _, ⟨hs, rfl⟩, k, _, ⟨hk, rfl⟩, rfl, rfl⟩

/-- The leaf takes the grouping with the aggregations of a result selector. -/
theorem withResult_ok {apply : Apply} {result : Lambda} {group : Param}
    (h : withResult chain apply result group = .ok chain') :
    chain' = chain.mapLeaf fun leaf =>
      { leaf with apply := ((Grouping.addResult chain result group.name).run.run apply).2 } := by
  cases hr : (Grouping.addResult chain result group.name).run.run apply with
  | mk outcome added =>
    simp only [withResult, hr, Except.bind_eq_ok, Except.pure_eq_ok] at h
    obtain ⟨_, -, rfl⟩ := h
    rfl

/-- A projection is one of the element, comes after the one that the leaf has, and expands what its
paths reach. -/
theorem project_paths {selector : Lambda} (h : project metadata chain selector = .ok chain') :
    ∃ (f g : Lambda) (paths : ProjectionPaths), selector.overElement chain.leaf = .ok f ∧
      (g = f ∨ ∃ previous, chain.leaf.projection = some previous ∧
        f.after previous.selector = .ok g) ∧
      g.paths chain.leaf.elementType metadata = .ok paths ∧
      chain' = chain.mapLeaf fun leaf =>
        paths.expand.foldl Resource.addExpand
          { leaf with projection := some ⟨g, paths.select⟩ } := by
  simp only [project, Except.bind_eq_ok] at h
  obtain ⟨f, hf, h⟩ := h
  split at h <;> simp only [Except.bind_eq_ok, Except.pure_eq_ok] at h
  · next previous hprevious =>
    obtain ⟨g, hg, paths, hpaths, rfl⟩ := h
    exact ⟨f, g, paths, hf, .inr ⟨previous, hprevious, hg⟩, hpaths, rfl⟩
  · obtain ⟨g, rfl, paths, hpaths, rfl⟩ := h
    exact ⟨f, f, paths, hf, .inl rfl, hpaths, rfl⟩

theorem project_ok {selector : Lambda} (h : project metadata chain selector = .ok chain') :
    ∃ (projection : Projection) (expand : List String), chain' = chain.mapLeaf fun leaf =>
      expand.foldl Resource.addExpand { leaf with projection := some projection } := by
  obtain ⟨-, g, paths, -, -, -, rfl⟩ := project_paths h
  exact ⟨⟨g, paths.select⟩, paths.expand, rfl⟩

theorem follow_ok {property : PropertyDef} :
    (follow chain property).run n = .ok (chain', m) ↔
      chain' = chain.push (.ofNavigation n property.name
        (property.ty.elementType?.getD property.ty).nonNullable (isCollection property)) ∧
        m = n + 1 := by
  simp only [follow, BindM.run_bind, BindM.run_freshId, BindM.run_pure]
  constructor
  · rintro ⟨_, _, ⟨rfl, rfl⟩, rfl, rfl⟩
    exact ⟨rfl, rfl⟩
  · rintro ⟨rfl, rfl⟩
    exact ⟨n, n + 1, ⟨rfl, rfl⟩, rfl, rfl⟩

/-- Navigations start at a single element that carries no option. -/
theorem navigate_ok {method : String} {properties : List PropertyDef}
    (h : (navigate method chain properties).run n = .ok (chain', m)) :
    chain.leaf.isSingle = true ∧ chain.leaf.applied = [] ∧
      (properties.foldlM follow chain).run n = .ok (chain', m) := by
  rw [navigate] at h
  cases hs : chain.leaf.isSingle with
  | false =>
    simp only [hs, Bool.not_false, if_true, BindM.run_bind, BindM.run_throw, false_and,
      exists_false] at h
  | true =>
    cases ha : chain.leaf.applied with
    | nil =>
      simp only [hs, ha, Bool.not_true, Bool.false_eq_true, if_false] at h
      exact ⟨rfl, rfl, h⟩
    | cons after rest =>
      simp only [hs, ha, Bool.not_true, Bool.false_eq_true, if_false] at h
      exact (BindM.run_throw.1 h).elim

theorem toOneNavigations?_some {f : Lambda} {properties : List PropertyDef}
    (h : toOneNavigations? metadata chain f = .ok (some properties)) :
    ∀ property ∈ properties, isCollection property = false := by
  rw [toOneNavigations?] at h
  split at h
  · simp only [Except.bind_eq_ok, Except.pure_eq_ok, Option.filter_eq_some_iff] at h
    obtain ⟨_, -, -, hall⟩ := h
    simpa using hall
  · cases h

/-- A selector aggregates over groups, returns the elements, navigates or projects. -/
theorem bindSelect_ok {selector : Expr}
    (h : (bindSelect metadata chain selector).run n = .ok (chain', m)) :
    (∃ apply f group, selector = f.toExpr ∧ chain.leaf.apply = some apply ∧
        withResult chain apply f group = .ok chain' ∧ m = n) ∨
      (chain' = chain ∧ m = n) ∨
      (∃ properties, (∀ property ∈ properties, isCollection property = false) ∧
        (navigate "Select" chain properties).run n = .ok (chain', m)) ∨
      ∃ f, selector = f.toExpr ∧ project metadata chain f = .ok chain' ∧ m = n := by
  simp only [bindSelect, BindM.run_bind, BindM.run_lift, Expr.requireLambda_ok] at h
  obtain ⟨f, _, ⟨hf, rfl⟩, h⟩ := h
  split at h
  · next apply ha =>
    split at h
    · exact (BindM.run_throw.1 h).elim
    · simp only [BindM.run_bind, BindM.run_lift] at h
      obtain ⟨group, _, ⟨-, rfl⟩, hr, rfl⟩ := h
      exact .inl ⟨apply, f, group, hf, ha, hr, rfl⟩
  · split at h
    · obtain ⟨rfl, rfl⟩ := BindM.run_pure.1 h
      exact .inr (.inl ⟨rfl, rfl⟩)
    · simp only [BindM.run_bind, BindM.run_lift] at h
      obtain ⟨found, _, ⟨hn, rfl⟩, h⟩ := h
      cases found with
      | some properties =>
        exact .inr (.inr (.inl ⟨properties, toOneNavigations?_some hn, h⟩))
      | none =>
        obtain ⟨hp, rfl⟩ := BindM.run_lift.1 h
        exact .inr (.inr (.inr ⟨f, hf, hp, rfl⟩))

/-- A scope that is opened is the one of the result selector. -/
theorem scopeOf_some {result : Expr} {source : ResourceId} {scope : TransparentScope}
    (h : scopeOf result source = .ok (some scope)) :
    ∃ f, transparentScope? f source = some scope := by
  simp only [scopeOf, Except.bind_eq_ok] at h
  obtain ⟨f, -, h⟩ := h
  refine ⟨f, ?_⟩
  cases hs : transparentScope? f source with
  | some opened =>
    rw [hs] at h
    split at h <;> split at h <;> cases Except.pure_eq_ok.1 h
    all_goals rfl
  | none =>
    rw [hs] at h
    split at h <;> split at h
    · cases Except.pure_eq_ok.1 h
    · exact (Except.throw_eq_ok.1 h).elim
    · cases Except.pure_eq_ok.1 h
    · exact (Except.throw_eq_ok.1 h).elim

/-- A navigation to a collection may open a scope on its leaf. -/
theorem bindSelectMany_ok {selector : Expr} {result : Option Expr}
    (h : (bindSelectMany metadata chain selector result).run n = .ok (chain', m)) :
    ∃ properties target, endsInCollection properties = true ∧
      (navigate "SelectMany" chain properties).run n = .ok (target, m) ∧
      ∃ scope, (scope = target.leaf.scope ∨ ∃ f, scope = transparentScope? f chain.leaf.id) ∧
        chain' = target.mapLeaf fun leaf => { leaf with scope := scope } := by
  simp only [bindSelectMany, BindM.run_bind, BindM.run_lift] at h
  obtain ⟨f, _, ⟨-, rfl⟩, found, _, ⟨-, rfl⟩, h⟩ := h
  split at h
  · exact (BindM.run_throw.1 h).elim
  · next properties hp =>
    have hc : endsInCollection properties = true := (Option.filter_eq_some_iff.1 hp).2
    simp only [BindM.run_bind] at h
    obtain ⟨target, k, ht, h⟩ := h
    cases result with
    | none =>
      obtain ⟨rfl, rfl⟩ := BindM.run_pure.1 h
      exact ⟨properties, target, hc, ht, target.leaf.scope, .inl rfl, rfl⟩
    | some result =>
      simp only [BindM.run_bind, BindM.run_lift] at h
      obtain ⟨opened, _, ⟨hs, rfl⟩, h⟩ := h
      cases opened with
      | some scope =>
        obtain ⟨rfl, rfl⟩ := BindM.run_pure.1 h
        obtain ⟨f, hf⟩ := scopeOf_some hs
        exact ⟨properties, target, hc, ht, some scope, .inr ⟨f, hf.symm⟩, rfl⟩
      | none =>
        obtain ⟨rfl, rfl⟩ := BindM.run_pure.1 h
        exact ⟨properties, target, hc, ht, target.leaf.scope, .inl rfl, rfl⟩

theorem mapM_requireLambda_ok {selectors : List Expr} {lambdas : List Lambda}
    (h : selectors.mapM Expr.requireLambda = .ok lambdas) :
    selectors = lambdas.map Lambda.toExpr := by
  induction selectors generalizing lambdas with
  | nil =>
    rw [List.mapM_nil, Except.pure_eq_ok] at h
    rw [← h, List.map_nil]
  | cons selector rest ih =>
    simp only [List.mapM_cons, Except.bind_eq_ok, Except.pure_eq_ok, Expr.requireLambda_ok] at h
    obtain ⟨f, hf, lambdas, hrest, rfl⟩ := h
    rw [List.map_cons, hf, ih hrest]

/-- The selectors of a grouping are among its arguments. -/
theorem groupSelectors_mem {lambdas : List Lambda} {key : Lambda} {element result : Option Lambda}
    (h : groupSelectors lambdas = some (key, element, result)) :
    key ∈ lambdas ∧ (∀ f ∈ element, f ∈ lambdas) ∧ ∀ f ∈ result, f ∈ lambdas := by
  unfold groupSelectors at h
  split at h
  · cases h
    simp
  · split at h <;> cases h <;> simp
  · cases h
    simp
  · cases h

/-- A grouping takes over the predicates of the filter. -/
theorem bindGroupBy_ok {selectors : List Expr}
    (h : (bindGroupBy chain selectors).run n = .ok (chain', m)) :
    chain.demoted.leaf.Admits ["Skip", "Take", "OrderBy", "Select", "GroupBy"] ∧
      ∃ key element result, (key.toExpr ∈ selectors ∧ (∀ f ∈ element, f.toExpr ∈ selectors) ∧
        ∀ f ∈ result, f.toExpr ∈ selectors) ∧ chain' = chain.demoted.mapLeaf (fun leaf =>
        { leaf.withoutFilter with
          apply := ((addGroups (chain.demoted.mapLeaf Resource.withoutFilter) key element
            result).run.run { predicates := chain.demoted.leaf.filter?.getD [] }).2 }) ∧ m = n := by
  simp only [bindGroupBy, BindM.run_bind, BindM.run_lift, Resource.requireCollection_ok,
    Resource.requireNotAfter_ok] at h
  obtain ⟨_, _, ⟨hs, rfl⟩, _, _, ⟨ha, rfl⟩, lambdas, k, hl, h⟩ := h
  obtain ⟨hm, rfl⟩ := BindM.run_mapM_lift hl
  obtain rfl := mapM_requireLambda_ok hm
  refine ⟨⟨hs, ha⟩, ?_⟩
  split at h
  · exact (BindM.run_throw.1 h).elim
  · next key element result hg =>
    obtain ⟨hk, he, hr⟩ := groupSelectors_mem hg
    refine ⟨key, element, result, ⟨List.mem_map_of_mem hk,
      fun f hf => List.mem_map_of_mem (he f hf), fun f hf => List.mem_map_of_mem (hr f hf)⟩, ?_⟩
    simp only [Chain.demoted]
    split at h
    next outcome added hr =>
    simp only [BindM.run_bind, BindM.run_lift, BindM.run_pure] at h
    obtain ⟨_, _, ⟨-, rfl⟩, rfl, rfl⟩ := h
    simp only [hr, and_true]
    rfl

/-- A custom option is set on the leaf. -/
theorem bindOption_ok {name value : Expr}
    (h : (bindOption chain name value).run n = .ok (chain', m)) :
    ∃ name text, chain' = chain.mapLeaf (·.withCustom name text) ∧ m = n := by
  simp only [bindOption] at h
  split at h
  · next text =>
    simp only [BindM.run_bind, BindM.run_pure] at h
    obtain ⟨_, _, ⟨rfl, rfl⟩, h⟩ := h
    split at h
    · simp only [BindM.run_bind, BindM.run_throw, false_and, exists_false] at h
    · split at h
      · obtain ⟨rfl, rfl⟩ := BindM.run_pure.1 h
        exact ⟨_, _, rfl, rfl⟩
      · obtain ⟨rfl, rfl⟩ := BindM.run_pure.1 h
        exact ⟨_, _, rfl, rfl⟩
      · exact (BindM.run_throw.1 h).elim
  · simp only [BindM.run_bind, BindM.run_throw, false_and, exists_false] at h

theorem bindIncludeCount_ok {flag : Option Expr}
    (h : (bindIncludeCount chain flag).run n = .ok (chain', m)) :
    chain.demoted.leaf.isSingle = false ∧
      ∃ count, count ≠ .none ∧
        chain' = chain.demoted.mapLeaf (fun leaf => { leaf with count := count }) ∧ m = n := by
  simp only [bindIncludeCount, BindM.run_bind, BindM.run_lift, Resource.requireCollection_ok] at h
  obtain ⟨_, _, ⟨hs, rfl⟩, h⟩ := h
  refine ⟨hs, ?_⟩
  split at h <;> simp only [BindM.run_bind, BindM.run_pure, BindM.run_throw, false_and,
    exists_false] at h
  all_goals
    obtain ⟨count, _, ⟨rfl, rfl⟩, rfl, rfl⟩ := h
    exact ⟨_, by decide, rfl, rfl⟩

/-- A root is bound to a resource of its own under a fresh number. -/
theorem bindRoot_ok {root : ResourceRoot}
    (h : (bindRoot metadata root).run n = .ok (chain', m)) :
    chain' = ⟨.ofRoot n root, []⟩ ∧ m = n + 1 := by
  have hfresh {k : ResourceId} (h : (do
      let id ← freshId
      pure (⟨.ofRoot id root, []⟩ : Chain)).run k = .ok (chain', m)) :
      chain' = ⟨.ofRoot k root, []⟩ ∧ m = k + 1 := by
    simp only [BindM.run_bind, BindM.run_freshId, BindM.run_pure] at h
    obtain ⟨_, _, ⟨rfl, rfl⟩, rfl, rfl⟩ := h
    exact ⟨rfl, rfl⟩
  rw [bindRoot] at h
  split at h
  · obtain ⟨_, k, hd, h⟩ := BindM.run_bind.1 h
    obtain ⟨_, hd⟩ := BindM.run_discard.1 hd
    obtain ⟨-, rfl⟩ := BindM.run_lift.1 hd
    exact hfresh h
  · obtain ⟨_, k, hd, h⟩ := BindM.run_bind.1 h
    obtain ⟨_, hd⟩ := BindM.run_discard.1 hd
    obtain ⟨-, rfl⟩ := BindM.run_lift.1 hd
    exact hfresh h
  · exact hfresh h
  · exact hfresh h

/-- A call binds its source and then its operator. -/
theorem bind_call_ok {method : String} {source : Expr} {args : List Expr} {ty : Ty}
    (h : (bind metadata (.call method (source :: args) ty)).run n = .ok (chain', m)) :
    ∃ chain k operator, (bind metadata source).run n = .ok (chain, k) ∧
      chain.leaf.isAction = false ∧ Operator.ofCall? method args = some operator ∧
      (step metadata chain operator).run k = .ok (chain', m) := by
  simp only [bind, BindM.run_bind] at h
  obtain ⟨chain, k, hs, h⟩ := h
  split at h
  · simp only [BindM.run_bind, BindM.run_throw, false_and, exists_false] at h
  · next ha =>
    split at h
    · next operator ho => exact ⟨chain, k, operator, hs, Bool.eq_false_iff.2 ha, ho, h⟩
    · exact (BindM.run_throw.1 h).elim

/-- What holds of every root and is kept by every operator holds of every bound chain and of the
next number after it. -/
theorem bind_induction {motive : Expr → Chain → ResourceId → Prop}
    (root : ∀ origin, motive (.root origin) ⟨.ofRoot n origin, []⟩ (n + 1))
    (call : ∀ method source args ty chain operator chain' k m,
      (bind metadata source).run n = .ok (chain, k) → chain.leaf.isAction = false →
      Operator.ofCall? method args = some operator →
      (step metadata chain operator).run k = .ok (chain', m) → motive source chain k →
      motive (.call method (source :: args) ty) chain' m)
    {expr : Expr} (h : (bind metadata expr).run n = .ok (chain, m)) : motive expr chain m := by
  induction expr using Expr.induction_children generalizing chain m with | node expr ih =>
  cases expr with
  | root origin =>
    rw [bind] at h
    obtain ⟨rfl, rfl⟩ := bindRoot_ok h
    exact root origin
  | call method args ty =>
    cases args with
    | nil =>
      rw [bind] at h
      exact (BindM.run_throw.1 h).elim
    | cons source args =>
      obtain ⟨before, k, operator, hs, ha, ho, h⟩ := bind_call_ok h
      exact call _ _ _ _ _ _ _ _ _ hs ha ho h (ih source List.mem_cons_self hs)
  | _ =>
    rw [bind] at h
    · exact (BindM.run_throw.1 h).elim
    all_goals simp

section Terminal

variable {method : String} {args : List Expr} {ty : Ty} {query : BoundQuery}

/-- A count addresses the elements of its source, or those that its predicate leaves. -/
theorem bindCount_ok :
    (bindCount metadata method args ty).run n = .ok (query, m) ↔
      ∃ source chain k target, (bind metadata source).run n = .ok (chain, k) ∧
        (args = [source] ∧ target = chain.demoted ∧ m = k ∨
          ∃ predicate, args = [source, predicate] ∧
            (bindFilter chain predicate).run k = .ok (target, m)) ∧
        target.leaf.Admits ["Skip", "Take", "GroupBy"] ∧
        query = finish (target.mapLeaf fun leaf => { leaf with countSegment := true })
          (some ty) (some true) := by
  constructor
  · intro h
    simp only [bindCount] at h
    split at h <;> simp only [BindM.run_bind, BindM.run_lift, BindM.run_pure, BindM.run_throw,
      Resource.requireCollection_ok, Resource.requireNotAfter_ok, false_and, exists_false] at h
    · next source =>
      obtain ⟨chain, k, hs, _, _, ⟨rfl, rfl⟩, _, _, ⟨hc, rfl⟩, _, _, ⟨ha, rfl⟩, rfl, rfl⟩ := h
      exact ⟨source, chain, _, chain.demoted, hs, .inl ⟨rfl, rfl, rfl⟩, ⟨hc, ha⟩, rfl⟩
    · next source predicate =>
      obtain ⟨chain, k, hs, target, _, hf, _, _, ⟨hc, rfl⟩, _, _, ⟨ha, rfl⟩, rfl, rfl⟩ := h
      exact ⟨source, chain, k, target, hs, .inr ⟨predicate, rfl, hf⟩, ⟨hc, ha⟩, rfl⟩
  · rintro ⟨source, chain, k, target, hs, htarget, ⟨hc, ha⟩, rfl⟩
    obtain ⟨rfl, rfl, rfl⟩ | ⟨predicate, rfl, hf⟩ := htarget
    all_goals
      simp only [bindCount, BindM.run_bind, BindM.run_lift, BindM.run_pure,
        Resource.requireCollection_ok, Resource.requireNotAfter_ok]
    · exact ⟨chain, _, hs, _, _, ⟨rfl, rfl⟩, (), _, ⟨hc, rfl⟩, (), _, ⟨ha, rfl⟩, rfl, rfl⟩
    · exact ⟨chain, k, hs, target, m, hf, (), m, ⟨hc, rfl⟩, (), m, ⟨ha, rfl⟩, rfl, rfl⟩

/-- One element is asked for by a limit unless there is no more than one. -/
theorem bindElement_ok {limit : Nat} :
    (bindElement metadata method limit args).run n = .ok (query, m) ↔
      ∃ source chain k target, (bind metadata source).run n = .ok (chain, k) ∧
        (args = [source] ∧ target = chain ∧ m = k ∨
          ∃ predicate, args = [source, predicate] ∧
            (bindWhere metadata chain predicate).run k = .ok (target, m)) ∧
        query = finish
          (if target.leaf.isSingle then target else target.mapLeaf (·.addOption (.take limit)))
          none (some true) := by
  constructor
  · intro h
    simp only [bindElement] at h
    split at h <;> simp only [BindM.run_bind, BindM.run_pure, BindM.run_throw, false_and,
      exists_false] at h
    · next source =>
      obtain ⟨chain, k, hs, rfl, rfl⟩ := h
      exact ⟨source, chain, _, chain, hs, .inl ⟨rfl, rfl, rfl⟩, rfl⟩
    · next source predicate =>
      obtain ⟨chain, k, hs, target, _, hw, rfl, rfl⟩ := h
      exact ⟨source, chain, k, target, hs, .inr ⟨predicate, rfl, hw⟩, rfl⟩
  · rintro ⟨source, chain, k, target, hs, htarget, rfl⟩
    obtain ⟨rfl, rfl, rfl⟩ | ⟨predicate, rfl, hw⟩ := htarget
    all_goals simp only [bindElement, BindM.run_bind, BindM.run_pure]
    · exact ⟨_, _, hs, rfl, rfl⟩
    · exact ⟨chain, k, hs, target, m, hw, rfl, rfl⟩

/-- An aggregation of all elements takes over the predicates of the filter. -/
theorem bindAggregate_ok (h : (bindAggregate metadata method args ty).run n = .ok (query, m)) :
    ∃ source selector chain k, args = [source, selector] ∧
      (bind metadata source).run n = .ok (chain, k) ∧
      chain.demoted.leaf.Admits ["Skip", "Take", "OrderBy", "Select", "GroupBy"] ∧
      ∃ f aggregation, selector = f.toExpr ∧
        Grouping.terminal chain.demoted method (some f) = .ok (some aggregation) ∧
        query.chain = chain.demoted.mapLeaf fun leaf => { leaf.withoutFilter with
          apply := some
            { predicates := chain.demoted.leaf.filter?.getD []
              aggregations := [aggregation] } } := by
  unfold bindAggregate at h
  split at h
  · next source selector =>
    simp only [BindM.run_bind, BindM.run_lift, Resource.requireCollection_ok,
      Resource.requireNotAfter_ok, Expr.requireLambda_ok] at h
    obtain ⟨chain, k, hs, _, _, ⟨hc, rfl⟩, _, _, ⟨ha, rfl⟩, h⟩ := h
    obtain ⟨f, _, ⟨hf, rfl⟩, found, _, ⟨ht, rfl⟩, h⟩ := h
    refine ⟨source, selector, chain, k, rfl, hs, ⟨hc, ha⟩, ?_⟩
    cases found with
    | none => exact (BindM.run_throw.1 h).elim
    | some aggregation =>
      obtain ⟨rfl, rfl⟩ := BindM.run_pure.1 h
      exact ⟨f, aggregation, hf, ht, rfl⟩
  · exact (BindM.run_throw.1 h).elim

/-- A query is a chain of calls, which may end in a terminal operator. -/
theorem bindQuery_ok {expr : Expr} (h : (bindQuery metadata expr).run n = .ok (query, m)) :
    (∃ chain, (bind metadata expr).run n = .ok (chain, m) ∧ query = finish chain none none) ∨
      ∃ method args ty, expr = .call method args ty ∧
        (Terminal.ofMethod? method = some .count ∧
            (bindCount metadata method args ty).run n = .ok (query, m) ∨
          (∃ limit, Terminal.ofMethod? method = some (.element limit) ∧
            (bindElement metadata method limit args).run n = .ok (query, m)) ∨
          Terminal.ofMethod? method = some .aggregate ∧
            (bindAggregate metadata method args ty).run n = .ok (query, m)) := by
  have hplain (h : ((finish · none none) <$> bind metadata expr).run n = .ok (query, m)) :
      ∃ chain, (bind metadata expr).run n = .ok (chain, m) ∧ query = finish chain none none := by
    obtain ⟨chain, hc, rfl⟩ := BindM.run_map.1 h
    exact ⟨chain, hc, rfl⟩
  simp only [bindQuery] at h
  split at h
  · next method args ty =>
    split at h
    · next ht => exact .inr ⟨method, args, ty, rfl, .inl ⟨ht, h⟩⟩
    · next limit ht => exact .inr ⟨method, args, ty, rfl, .inr (.inl ⟨limit, ht, h⟩)⟩
    · next ht => exact .inr ⟨method, args, ty, rfl, .inr (.inr ⟨ht, h⟩)⟩
    · exact .inl (hplain h)
  · exact .inl (hplain h)

end Terminal

end Binding

end ServiceQuery
