import ServiceQuery.Proofs.Binding.Moves
import ServiceQuery.Proofs.Members
import ServiceQuery.Proofs.Path.Expand

/-!
# Names in expanded paths

A path that the leaf of a bound query expands is made of members that the query names: those that a
projection reads, those that a lambda follows and those in a text.
-/

namespace ServiceQuery

namespace Path

/-- The text stands for everything, or for a path of the given names. -/
def TextOver (names : List String) (text : String) : Prop :=
  text = wildcard ∨ ∃ path : Path, path.identifiers ⊆ names ∧
    (path.expandText = .ok text ∨ path.selectExpandText = .ok text)

theorem TextOver.mono {names others : List String} {text : String} (h : TextOver names text)
    (hs : names ⊆ others) : TextOver others text := by
  obtain h | ⟨path, hp, h⟩ := h
  · exact .inl h
  · exact .inr ⟨path, fun name hm => hs (hp hm), h⟩

end Path

/-! ### Projections -/

theorem Metadata.identifiers_pathOf {metadata : Metadata} {owner : Ty} {names : List String}
    {path : Path} (h : metadata.pathOf owner names = .ok path) : path.identifiers ⊆ names := by
  induction names generalizing owner path with
  | nil =>
    cases h
    exact List.nil_subset _
  | cons name names ih =>
    rw [pathOf] at h
    split at h
    · cases h
      exact List.nil_subset _
    · obtain ⟨property, -, h⟩ := Except.bind_eq_ok.1 h
      obtain ⟨rest, hrest, h⟩ := Except.bind_eq_ok.1 h
      cases h
      exact List.cons_subset_cons name (ih hrest)

namespace ProjectionPaths

variable {names : List String} {paths grown : ProjectionPaths}

theorem textOver_add {path : Path} (hp : path.identifiers ⊆ names)
    (hs : ∀ text ∈ paths.expand, Path.TextOver names text) (h : paths.add path = .ok grown) :
    ∀ text ∈ grown.expand, Path.TextOver names text := by
  unfold add at h
  split at h
  · cases h
    exact hs
  · split at h
    · cases h
      exact hs
    · obtain ⟨added, ha, h⟩ := Except.bind_eq_ok.1 h
      cases h
      intro text ht
      rw [addDistinct] at ht
      split at ht
      · exact hs text ht
      · obtain ht | ht := List.mem_append.1 ht
        · exact hs text ht
        · rw [List.mem_singleton.1 ht]
          exact .inr ⟨_, hp, .inr ha⟩

theorem textOver_foldlM {metadata : Metadata} {elementType : Ty} {chains : List (List String)}
    (hc : ∀ chain ∈ chains, chain ⊆ names)
    (hs : ∀ text ∈ paths.expand, Path.TextOver names text)
    (h : chains.foldlM (fun paths names => do
      let path ← metadata.pathOf elementType names
      paths.add path) paths = .ok grown) :
    ∀ text ∈ grown.expand, Path.TextOver names text := by
  induction chains generalizing paths with
  | nil =>
    cases h
    exact hs
  | cons chain chains ih =>
    simp only [List.foldlM_cons, Except.bind_eq_ok] at h
    obtain ⟨added, ⟨path, hp, ha⟩, hrest⟩ := h
    rw [List.forall_mem_cons] at hc
    have hpath : path.identifiers ⊆ names := fun name hm =>
      hc.1 (Metadata.identifiers_pathOf hp hm)
    exact ih hc.2 (textOver_add hpath hs ha) hrest

end ProjectionPaths

namespace Lambda

/-- A projection expands paths of the members that it reads. -/
theorem textOver_paths {f : Lambda} {elementType : Ty} {metadata : Metadata}
    {paths : ProjectionPaths} (h : f.paths elementType metadata = .ok paths) :
    ∀ text ∈ paths.expand, Path.TextOver f.body.memberNames text := by
  simp only [Lambda.paths, Except.bind_eq_ok, Except.pure_eq_ok] at h
  obtain ⟨param, -, collected, hcollected, rfl⟩ := h
  have hchains : ∀ chain ∈ (f.body.chainsFrom param.name).filter fun names => !names.isEmpty,
      chain ⊆ f.body.memberNames := by
    intro chain hm
    exact (Expr.mem_chainsFrom.1 (List.mem_of_mem_filter hm)).subset
  have hexpand := ProjectionPaths.textOver_foldlM hchains (List.forall_mem_nil _) hcollected
  split
  · exact hexpand
  · exact hexpand

theorem memberNames_overElement {f g : Lambda} {resource : Resource}
    (h : f.overElement resource = .ok g) : g.body.memberNames ⊆ f.body.memberNames := by
  unfold overElement at h
  split at h
  · cases h
    exact List.Subset.refl _
  · split at h
    · cases h
      exact List.Subset.refl _
    · dsimp only at h
      split at h
      · next hr =>
        cases h
        exact Expr.memberNames_replaceAccessor? hr
      · cases h

theorem memberNames_after {f first g : Lambda} (h : f.after first = .ok g) :
    g.body.memberNames ⊆ f.body.memberNames ++ first.body.memberNames := by
  simp only [after, Except.bind_eq_ok, Except.pure_eq_ok] at h
  obtain ⟨param, -, rfl⟩ := h
  exact Expr.memberNames_substitute f.body param.name first.body

end Lambda

/-! ### Arguments -/

namespace Path

theorem mem_namesIn {text name : String} :
    name ∈ namesIn text ↔ ∃ segment ∈ segmentTexts text.toList,
      segment.head? ≠ some '$' ∧ (splitValues segment).1 = name := by
  simp only [namesIn, List.mem_map, List.mem_filter, bne_iff_ne, and_assoc]

section Read

variable {isStructural : String → StateT Ty (Except CompileError) Bool} {owner last : Ty}
  {name : String} {values : List (String × String)} {structural : Bool}

/-- A property is read from a segment that is not reserved. -/
theorem segmentM_ok {segment : List Char}
    (h : (segmentM isStructural segment).run owner =
      .ok (.property name values structural, last)) :
    segment.head? ≠ some '$' ∧ (splitValues segment).1 = name := by
  unfold segmentM at h
  split at h
  · cases h
  · next hne =>
    refine ⟨?_, ?_⟩
    · intro hhead
      obtain ⟨rest, hr⟩ := List.head?_eq_some_iff.1 hhead
      exact hne rest hr
    · simp only [StateT.run_bind, Except.bind_eq_ok] at h
      obtain ⟨_, -, h⟩ := h
      cases h
      rfl

/-- A property that is read from a text of a path is named in it. -/
theorem mem_namesIn_of_parseM {text : String} {path : Path}
    (h : (parseM isStructural text).run owner = .ok (path, last))
    (hm : .property name values structural ∈ path) : name ∈ namesIn text := by
  obtain ⟨segment, hs, _, _, hsegment⟩ := Except.exists_of_run_mapM_eq_ok h hm
  exact mem_namesIn.2 ⟨segment, hs, segmentM_ok hsegment⟩

end Read

end Path

namespace Expand

variable {metadata : Metadata} {owner ty : Ty} {path : Path}

theorem identifiers_ofText {text : String} (h : ofText metadata owner text = .ok path) :
    path.identifiers ⊆ Path.namesIn text := by
  obtain ⟨⟨parsed, last⟩, hparsed, h⟩ := Except.bind_eq_ok.1 h
  dsimp only at h
  split at h
  · cases h
  · intro name hm
    obtain ⟨segment, hs, rfl⟩ := List.mem_map.1 hm
    obtain ⟨hm, name, values, structural, rfl⟩ := Path.mem_of_withoutWildcard h segment hs
    exact Path.mem_namesIn_of_parseM hparsed hm

theorem follows_of_ofMembers {param : String} {body : Expr}
    (h : ofMembers metadata param owner body = .ok (path, ty)) :
    Follows param path.identifiers body := by
  unfold ofMembers at h
  split at h
  · cases h
  · next root names hchain =>
    split at h
    · next hroot =>
      rw [(ofNames_ok h).1]
      cases root with
      | parameter other =>
        obtain ⟨read, hread, rfl⟩ := Expr.reads_of_memberChainOnto hchain (beq_iff_eq.1 hroot)
        rw [List.append_nil]
        exact .chain hread
      | _ => cases hroot
    · cases h

/-- The body of a lambda that gives a path follows the names of the path. -/
theorem follows_of_ofBody {param : String} {body : Expr}
    (h : ofBody metadata param owner body = .ok (path, ty)) :
    Follows param path.identifiers body := by
  fun_induction ofBody metadata param owner body generalizing path ty with
  | case1 param owner source params inner callTy ihsource ihinner =>
    obtain ⟨⟨head, middle⟩, hhead, h⟩ := Except.bind_eq_ok.1 h
    dsimp only at h
    split at h
    · next element _ =>
      obtain ⟨⟨tail, last⟩, htail, h⟩ := Except.bind_eq_ok.1 h
      obtain ⟨whole, hwhole, h⟩ := Except.bind_eq_ok.1 h
      cases h
      -- a path that another one is appended to is left as it is
      rw [Path.append_eq] at hwhole
      obtain ⟨legal, hlegal, rfl⟩ := Except.map_eq_ok.1 hwhole
      rw [Path.eq_of_checked hlegal, Path.identifiers, List.map_append]
      exact .select (ihsource hhead) (ihinner middle element htail)
    · cases h
  | case2 | case3 => exact follows_of_ofMembers h

theorem Follows.subset {param : String} {names : List String} {body : Expr}
    (h : Follows param names body) : names ⊆ body.memberNames := by
  induction h with
  | chain reads => exact reads.subset
  | select outer inner ihouter ihinner =>
    rw [List.append_subset]
    refine ⟨fun name hm => Expr.memberNames_subset List.mem_cons_self (ihouter hm), ?_⟩
    intro name hm
    refine Expr.memberNames_subset (List.mem_cons_of_mem _ List.mem_cons_self) ?_
    exact Expr.memberNames_subset List.mem_cons_self (ihinner hm)

/-- An argument gives a path of members that it reads, or that its text names. -/
theorem identifiers_ofArgument {argument : Expr}
    (h : ofArgument metadata owner argument = .ok path) :
    path.identifiers ⊆ argument.memberNames ++ argument.strings.flatMap Path.namesIn := by
  unfold ofArgument at h
  split at h
  · next text =>
    intro name hm
    refine List.mem_append_right _ (List.mem_flatMap.2 ⟨text, List.mem_cons_self, ?_⟩)
    exact identifiers_ofText h hm
  · obtain ⟨⟨found, last⟩, hf, rfl⟩ := Except.map_eq_ok.1 h
    intro name hm
    refine List.mem_append_left _ (Expr.memberNames_subset List.mem_cons_self ?_)
    exact (follows_of_ofBody hf).subset hm
  · cases h
  · cases h

theorem textOver_text {argument : Expr} {written : String}
    (h : text metadata owner argument = .ok written) :
    Path.TextOver (argument.memberNames ++ argument.strings.flatMap Path.namesIn) written := by
  obtain ⟨path, hp, h⟩ := Except.bind_eq_ok.1 h
  have hnames := identifiers_ofArgument hp
  split at h
  · cases h
    exact .inl rfl
  · split at h
    · exact .inr ⟨path, hnames, .inl h⟩
    · exact .inr ⟨path, hnames, .inr h⟩

end Expand

/-! ### Bound queries -/

/-- The paths that the resource expands are of the given names, and its projection reads no other
members. -/
structure Resource.ExpandsOver (names : List String) (resource : Resource) : Prop where
  expand : ∀ text ∈ resource.expand, Path.TextOver names text
  projection : ∀ projection ∈ resource.projection, projection.selector.body.memberNames ⊆ names

namespace Resource.ExpandsOver

variable {names others : List String} {resource other : Resource}

theorem of_nil (he : resource.expand = []) (hp : resource.projection = none) :
    resource.ExpandsOver names where
  expand := by
    rw [he]
    exact List.forall_mem_nil _
  projection := by
    rw [hp]
    intro projection hm
    cases hm

theorem mono (h : resource.ExpandsOver names) (hs : names ⊆ others) :
    resource.ExpandsOver others where
  expand := fun text hm => (h.expand text hm).mono hs
  projection := fun projection hm _ hn => hs (h.projection projection hm hn)

theorem frame (h : resource.ExpandsOver names) (he : other.expand = resource.expand)
    (hp : other.projection = resource.projection) : other.ExpandsOver names := by
  refine ⟨?_, ?_⟩
  · rw [he]
    exact h.expand
  · rw [hp]
    exact h.projection

theorem demoteKey (h : resource.ExpandsOver names) : resource.demoteKey.ExpandsOver names := by
  refine h.frame ?_ ?_
  all_goals
    rw [Resource.demoteKey]
    split <;> rfl

theorem addExpand (h : resource.ExpandsOver names) {text : String} (ht : Path.TextOver names text) :
    (resource.addExpand text).ExpandsOver names := by
  rw [Resource.addExpand]
  split
  · exact h
  · exact ⟨List.forall_mem_append.2 ⟨h.expand, List.forall_mem_singleton.2 ht⟩, h.projection⟩

theorem foldl_addExpand (h : resource.ExpandsOver names) {texts : List String}
    (ht : ∀ text ∈ texts, Path.TextOver names text) :
    (texts.foldl Resource.addExpand resource).ExpandsOver names := by
  induction texts generalizing resource with
  | nil => exact h
  | cons text texts ih =>
    rw [List.forall_mem_cons] at ht
    exact ih (h.addExpand ht.1) ht.2

end Resource.ExpandsOver

namespace Binding

variable {metadata : Metadata} {chain chain' : Chain} {n m : ResourceId} {names : List String}

theorem expandsOver_where {predicate : Expr} (hs : chain.leaf.ExpandsOver names)
    (h : (bindWhere metadata chain predicate).run n = .ok (chain', m)) :
    chain'.leaf.ExpandsOver names := by
  obtain ⟨-, bound, -, ⟨key, hk, rfl, -⟩ | ⟨-, rfl, -⟩⟩ := bindWhere_ok.1 h
  · obtain ⟨hsequence, -, hnone⟩ := keyIn_some hk
    rw [Chain.mapLeaf, Resource.renumber_withKeyFilter hsequence hnone]
    exact hs.demoteKey.frame rfl rfl
  · exact hs.demoteKey.frame rfl rfl

/-- A navigation leads to a resource that expands nothing. -/
theorem expandsOver_navigate {method : String} {properties : List PropertyDef}
    (hs : chain.leaf.ExpandsOver names)
    (h : (navigate method chain properties).run n = .ok (chain', m)) :
    chain'.leaf.ExpandsOver names := by
  obtain ⟨-, -, hf⟩ := navigate_ok h
  obtain ⟨-, rfl⟩ | ⟨-, id, name, ty, collection, hleaf⟩ := followed_leaf hf
  · exact hs
  · rw [hleaf]
    exact .of_nil rfl rfl

/-- A projection expands what it reads, and what the projection before it reads. -/
theorem expandsOver_project {selector : Lambda} (hs : chain.leaf.ExpandsOver names)
    (hn : selector.body.memberNames ⊆ names) (h : project metadata chain selector = .ok chain') :
    chain'.leaf.ExpandsOver names := by
  obtain ⟨f, g, paths, hf, hg, hpaths, rfl⟩ := project_paths h
  have hfirst : f.body.memberNames ⊆ names :=
    fun name hm => hn (Lambda.memberNames_overElement hf hm)
  have hbody : g.body.memberNames ⊆ names := by
    obtain rfl | ⟨previous, hprevious, hafter⟩ := hg
    · exact hfirst
    · intro name hm
      obtain hm | hm := List.mem_append.1 (Lambda.memberNames_after hafter hm)
      · exact hfirst hm
      · exact hs.projection previous hprevious hm
  have hleaf : Resource.ExpandsOver names
      { chain.leaf with projection := some ⟨g, paths.select⟩ } := by
    refine ⟨hs.expand, fun projection hm => ?_⟩
    cases hm
    exact hbody
  exact hleaf.foldl_addExpand fun text hm => (Lambda.textOver_paths hpaths text hm).mono hbody

theorem expandsOver_select {selector : Expr} (hs : chain.leaf.ExpandsOver names)
    (hn : selector.memberNames ⊆ names)
    (h : (bindSelect metadata chain selector).run n = .ok (chain', m)) :
    chain'.leaf.ExpandsOver names := by
  obtain ⟨apply, f, group, -, ha, hr, -⟩ | ⟨rfl, -⟩ | ⟨properties, -, h⟩ | ⟨f, rfl, hp, -⟩ :=
    bindSelect_ok h
  · obtain rfl := withResult_ok hr
    exact hs.frame rfl rfl
  · exact hs
  · exact expandsOver_navigate hs h
  · refine expandsOver_project hs (fun name hm => hn ?_) hp
    exact Expr.memberNames_subset List.mem_cons_self hm

/-- One operator adds paths of members that its arguments name. -/
theorem step_expandsOver {operator : Operator} (hs : chain.leaf.ExpandsOver names)
    (hread : ∀ argument ∈ operator.args, argument.memberNames ⊆ names)
    (htext : ∀ path, operator = .expand path → path.strings.flatMap Path.namesIn ⊆ names)
    (h : (step metadata chain operator).run n = .ok (chain', m)) :
    chain'.leaf.ExpandsOver names := by
  cases operator with
  | filter predicate => exact expandsOver_where hs h
  | orderBy key descending =>
    obtain ⟨-, bound, -, rfl, -⟩ := bindOrderBy_ok.1 h
    exact hs.demoteKey.frame rfl rfl
  | thenBy key descending =>
    obtain ⟨-, bound, selectors, -, -, rfl, -⟩ := bindThenBy_ok.1 h
    exact hs.demoteKey.frame rfl rfl
  | skip count =>
    obtain ⟨-, k, -, rfl, -⟩ := bindSkip_ok.1 h
    exact hs.demoteKey.frame rfl rfl
  | take count =>
    obtain ⟨-, k, -, rfl, -⟩ := bindTake_ok.1 h
    exact hs.demoteKey.frame rfl rfl
  | select selector => exact expandsOver_select hs (hread selector List.mem_cons_self) h
  | selectMany selector result =>
    obtain ⟨properties, target, -, ht, scope, -, rfl⟩ := bindSelectMany_ok h
    exact (expandsOver_navigate hs ht).frame rfl rfl
  | groupBy selectors =>
    obtain ⟨-, key, element, result, -, rfl, -⟩ := bindGroupBy_ok h
    exact hs.demoteKey.frame rfl rfl
  | expand path =>
    simp only [step, BindM.run_bind, BindM.run_lift, BindM.run_pure] at h
    obtain ⟨text, _, ⟨ht, rfl⟩, rfl, rfl⟩ := h
    refine hs.addExpand ((Expand.textOver_text ht).mono (List.append_subset.2 ⟨?_, ?_⟩))
    · exact hread path List.mem_cons_self
    · exact htext path rfl
  | addOption name value =>
    obtain ⟨name, text, rfl, -⟩ := bindOption_ok h
    exact hs.frame rfl rfl
  | includeCount flag =>
    obtain ⟨-, count, -, rfl, -⟩ := bindIncludeCount_ok h
    exact hs.demoteKey.frame rfl rfl

theorem bind_expandsOver {expr : Expr} (h : (bind metadata expr).run n = .ok (chain, m)) :
    chain.leaf.ExpandsOver expr.namedMembers := by
  refine bind_induction (motive := fun expr chain _ => chain.leaf.ExpandsOver expr.namedMembers)
    ?_ ?_ h
  · exact fun origin => .of_nil rfl rfl
  · intro method source args ty chain operator chain' k m _ _ hop hstep ih
    obtain ⟨rfl, rfl⟩ := Operator.ofCall?_some hop
    have hsource : source ∈ (Expr.call operator.method (source :: operator.args) ty).children :=
      List.mem_cons_self
    refine step_expandsOver (ih.mono (Expr.namedMembers_subset hsource)) ?_ ?_ hstep
    · intro argument hm name hn
      exact List.mem_append_left _ (Expr.memberNames_subset (List.mem_cons_of_mem _ hm) hn)
    · rintro path rfl name hm
      exact List.mem_append_right _ (Expr.mem_flatMap_nodes.2 (.inl hm))

/-- The leaf of a bound query expands paths of members that the query names. -/
theorem bindQuery_expandsOver {expr : Expr} {query : BoundQuery}
    (h : (bindQuery metadata expr).run n = .ok (query, m)) :
    query.chain.leaf.ExpandsOver expr.namedMembers := by
  -- a terminal operator adds no path to those of the source that it is applied to
  have hsource {method : String} {args : List Expr} {ty : Ty} {source : Expr} {chain : Chain}
      {k : ResourceId} (hm : source ∈ args) (hs : (bind metadata source).run n = .ok (chain, k)) :
      chain.leaf.ExpandsOver (Expr.call method args ty).namedMembers :=
    (bind_expandsOver hs).mono (Expr.namedMembers_subset hm)
  obtain ⟨chain, hc, rfl⟩ | ⟨method, args, ty, rfl, ⟨-, h⟩ | ⟨limit, -, h⟩ | ⟨-, h⟩⟩ :=
    bindQuery_ok h
  · exact bind_expandsOver hc
  · obtain ⟨source, chain, k, target, hs, htarget, -, rfl⟩ := bindCount_ok.1 h
    obtain ⟨rfl, rfl, -⟩ | ⟨predicate, rfl, hf⟩ := htarget
    · exact (hsource List.mem_cons_self hs).demoteKey.frame rfl rfl
    · obtain ⟨-, bound, -, rfl, -⟩ := bindFilter_ok.1 hf
      exact (hsource List.mem_cons_self hs).demoteKey.frame rfl rfl
  · obtain ⟨source, chain, k, target, hs, htarget, rfl⟩ := bindElement_ok.1 h
    have ht : target.leaf.ExpandsOver (Expr.call method args ty).namedMembers := by
      obtain ⟨rfl, rfl, -⟩ | ⟨predicate, rfl, hw⟩ := htarget
      · exact hsource List.mem_cons_self hs
      · exact expandsOver_where (hsource List.mem_cons_self hs) hw
    dsimp only [finish]
    split
    · exact ht
    · exact ht.frame rfl rfl
  · obtain ⟨source, selector, chain, k, rfl, hs, -, f, aggregation, -, -, hq⟩ := bindAggregate_ok h
    rw [hq]
    exact (hsource List.mem_cons_self hs).demoteKey.frame rfl rfl

end Binding

end ServiceQuery
