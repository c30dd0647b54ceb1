import ServiceQuery.Binding.Basic
import ServiceQuery.Proofs.Occurrence
import ServiceQuery.Proofs.Path.Parser
import ServiceQuery.Proofs.Path.Reserved
import ServiceQuery.Proofs.Resource

/-!
# Paths to expand

A path to expand is a list of names that are looked up one after the other, each in the type that
the one before it leads to. It does not matter whether the names stand in a text or are the members
that a lambda follows, nor where the lambda goes on by selecting from what it has reached.
-/

namespace ServiceQuery

namespace Path

/-! ### Names in the text of a path -/

/-- The segment text names a property: it is neither reserved nor the wildcard. -/
structure IsPropertyName (name : String) : Prop extends IsSegmentText name where
  unreserved : name.toList.head? ≠ some '$'
  ne_wildcard : name ≠ wildcard

instance (name : String) : Decidable (IsPropertyName name) :=
  decidable_of_iff (IsSegmentText name ∧ name.toList.head? ≠ some '$' ∧ name ≠ wildcard)
    ⟨fun h => ⟨h.1, h.2.1, h.2.2⟩, fun h => ⟨h.toIsSegmentText, h.unreserved, h.ne_wildcard⟩⟩

section Classified

variable {m : Type → Type} [Monad m] (isStructural : String → m Bool)

/-- Names are read, one after the other, from the text in which they are joined. -/
theorem parseM_join [LawfulMonad m] {names : List String}
    (h : ∀ name ∈ names, IsPropertyName name) :
    parseM isStructural (Text.join "/" names) = names.mapM (propertyM isStructural) := by
  rw [parseM, segmentTexts_join fun name hm => (h name hm).toIsSegmentText]
  induction names with
  | nil => rfl
  | cons name names ih =>
    rw [List.forall_mem_cons] at h
    rw [List.map_cons, List.mapM_cons, List.mapM_cons,
      segmentM_of_unreserved _ h.1.toIsSegmentText h.1.unreserved, ih h.2]

end Classified

end Path

namespace Expand

variable {metadata : Metadata} {owner : Ty} {names : List String}

/-! ### Names that are looked up -/

theorem run_classify {name : String} (h : name ≠ Path.wildcard) :
    (classify metadata name).run owner =
      (fun property => (!property.navigation, property.ty)) <$> metadata.member name owner := by
  rw [classify, if_neg h]
  cases hm : metadata.member name owner with
  | error e => simp [hm]
  | ok property => simp [hm]

/-- The names of a text are looked up like those of a chain of members. -/
theorem run_mapM_propertyM (h : ∀ name ∈ names, name ≠ Path.wildcard) :
    (names.mapM (Path.propertyM (classify metadata))).run owner = ofNames metadata owner names := by
  induction names generalizing owner with
  | nil => rfl
  | cons name names ih =>
    rw [List.forall_mem_cons] at h
    simp only [List.mapM_cons, Path.propertyM, bind_assoc, pure_bind, StateT.run_bind,
      run_classify h.1, StateT.run_pure, ih h.2, ofNames, bind_map_left]

/-- A path that is found holds the names, and nothing reserved. -/
theorem ofNames_ok {path : Path} {ty : Ty} (h : ofNames metadata owner names = .ok (path, ty)) :
    path.identifiers = names ∧ Path.checked path = .ok path := by
  induction names generalizing owner path ty with
  | nil =>
    cases h
    exact ⟨rfl, rfl⟩
  | cons name names ih =>
    obtain ⟨property, -, h⟩ := Except.bind_eq_ok.1 h
    obtain ⟨⟨rest, last⟩, hrest, h⟩ := Except.bind_eq_ok.1 h
    cases h
    obtain ⟨hnames, hchecked⟩ := ih hrest
    refine ⟨congrArg (name :: ·) hnames, ?_⟩
    rw [Path.checked, hchecked]
    rfl

/-- Names after names are looked up in the type that the first ones lead to. -/
theorem ofNames_append (first second : List String) :
    ofNames metadata owner (first ++ second) =
      ofNames metadata owner first >>= fun head =>
        (fun tail => (head.1 ++ tail.1, tail.2)) <$> ofNames metadata head.2 second := by
  induction first generalizing owner with
  | nil =>
    change ofNames metadata owner second = id <$> ofNames metadata owner second
    rw [id_map]
  | cons name first ih => simp [ofNames, ih]

theorem ofText_join (hne : names ≠ []) (h : ∀ name ∈ names, Path.IsPropertyName name) :
    ofText metadata owner (Text.join "/" names) = Prod.fst <$> ofNames metadata owner names := by
  rw [ofText, Path.parseM_join _ h, run_mapM_propertyM fun name hm => (h name hm).ne_wildcard]
  cases hn : ofNames metadata owner names with
  | error e => rfl
  | ok found =>
    obtain ⟨path, ty⟩ := found
    obtain ⟨rfl, hchecked⟩ := ofNames_ok hn
    have hpath : path ≠ [] := fun hp => hne (congrArg Path.identifiers hp)
    -- none of the names is the wildcard, so that nothing is cut off
    have hcut : Path.withoutWildcard path = .ok path :=
      (Path.withoutWildcard_of_forall fun name hm => (h name hm).ne_wildcard).trans hchecked
    have hempty : path.isEmpty = false := by simpa using hpath
    change (if path.isEmpty then _ else path.withoutWildcard) = _
    rw [hempty]
    exact hcut

/-! ### Lambdas that follow names -/

/-- The body of a lambda follows the names from the parameter: it is a chain of members, or it
selects from what some of the names lead to, with a lambda that follows the others. -/
inductive Follows : String → List String → Expr → Prop where
  | chain {param : String} {names : List String} {body : Expr}
      (reads : Expr.Reads param names body) : Follows param names body
  | select {param : String} {first second : List String} {source body : Expr} {element : Param}
      {ty : Ty} (outer : Follows param first source) (inner : Follows element.name second body) :
      Follows param (first ++ second) (.call "Select" [source, .lambda [element] body] ty)

theorem ofMembers_of_reads {param : String} {body : Expr} (h : Expr.Reads param names body) :
    ofMembers metadata param owner body = ofNames metadata owner names := by
  obtain ⟨root, hroot, hchain⟩ := h.memberChainOnto []
  rw [List.append_nil] at hchain
  rw [ofMembers, Expr.memberChain?, hchain]
  exact if_pos (beq_iff_eq.2 hroot)

/-- A chain of members is no selection. -/
theorem ofBody_of_reads {param : String} {body : Expr} (h : Expr.Reads param names body) :
    ofBody metadata param owner body = ofNames metadata owner names := by
  rw [← ofMembers_of_reads h]
  cases h with
  | parameter same => rfl
  | member inner => rfl
  | convert inner => rfl

/-- Selections on the way do not change what the names lead to. -/
theorem ofBody_of_follows {param : String} {body : Expr} (h : Follows param names body) :
    ofBody metadata param owner body = ofNames metadata owner names := by
  induction h generalizing owner with
  | chain reads => exact ofBody_of_reads reads
  | @select param first second source body element ty outer inner ihouter ihinner =>
    rw [ofBody, if_pos rfl, ihouter, ofNames_append]
    cases hf : ofNames metadata owner first with
    | error e => rfl
    | ok head =>
      obtain ⟨path, middle⟩ := head
      -- the path so far holds only properties, so that the rest can be appended to it
      have happend (tail : Path) : path.append tail = .ok (path ++ tail) := by
        rw [Path.append_eq, (ofNames_ok hf).2]
        rfl
      change ofBody metadata element.name middle body >>= _ = _ <$> ofNames metadata middle second
      rw [ihinner]
      cases ofNames metadata middle second with
      | error e => rfl
      | ok found =>
        change path.append found.1 >>= _ = _
        rw [happend]
        rfl

/-- The argument gives the names: as a text in which they are joined, or as a lambda that follows
them. -/
inductive Spells (names : List String) : Expr → Prop where
  | text : Spells names (.constant (.string (Text.join "/" names)))
  | lambda {param : Param} {body : Expr} (follows : Follows param.name names body) :
      Spells names (.lambda [param] body)

theorem ofArgument_of_spells {argument : Expr} (hne : names ≠ [])
    (hn : ∀ name ∈ names, Path.IsPropertyName name) (h : Spells names argument) :
    ofArgument metadata owner argument = Prod.fst <$> ofNames metadata owner names := by
  cases h with
  | text => exact ofText_join hne hn
  | lambda follows => exact congrArg (Prod.fst <$> ·) (ofBody_of_follows follows)

theorem text_of_error {argument : Expr} {e : CompileError}
    (h : ofArgument metadata owner argument = .error e) :
    text metadata owner argument = .error e := by
  rw [text, h]
  rfl

/-- A path of properties is expanded if it holds navigations only, and else ends in a selection. -/
theorem text_of_path {argument : Expr} {path : Path}
    (h : ofArgument metadata owner argument = .ok path) (hne : path ≠ [])
    (hc : Path.checked path = .ok path) :
    ∃ written, (if path.isNavigationOnly then path.expandText else path.selectExpandText) =
        .ok written ∧ text metadata owner argument = .ok written := by
  have hempty : path.isEmpty = false := by simpa using hne
  have htext : text metadata owner argument =
      if path.isNavigationOnly then path.expandText else path.selectExpandText := by
    rw [text, h]
    change (if path.isEmpty then _ else _) = _
    rw [hempty]
    rfl
  rw [htext, Path.expandText_eq, Path.selectExpandText_eq, hc]
  split
  · exact ⟨_, rfl, rfl⟩
  · exact ⟨_, rfl, rfl⟩

/-- Arguments that give the same names are expanded alike, to whatever resource they are applied.
The first name that is not found is the error. A path that is found is written behind the paths that
are expanded already, unless it is one of them. -/
theorem expand_agree (metadata : Metadata) {names : List String} (hne : names ≠ [])
    (hn : ∀ name ∈ names, Path.IsPropertyName name) {first second : Expr} (hf : Spells names first)
    (hs : Spells names second) :
    (∀ source ty, Binding.bind metadata (.call "Expand" [source, first] ty) =
        Binding.bind metadata (.call "Expand" [source, second] ty)) ∧
      ∀ (chain : Chain) (n : ResourceId),
        (∀ e, ofNames metadata chain.leaf.elementType names = .error e →
          (Binding.step metadata chain (.expand first)).run n = .error e) ∧
        ∀ path ty, ofNames metadata chain.leaf.elementType names = .ok (path, ty) →
          path.identifiers = names ∧
            ∃ written bound,
              (if path.isNavigationOnly then path.expandText else path.selectExpandText) =
                .ok written ∧
              (Binding.step metadata chain (.expand first)).run n = .ok (bound, n) ∧
              bound = chain.mapLeaf (·.addExpand written) ∧
              chain.leaf.expand <+: bound.leaf.expand ∧
              (∀ other, other ∈ bound.leaf.expand ↔ other ∈ chain.leaf.expand ∨ other = written) ∧
              (chain.leaf.expand.Nodup → bound.leaf.expand.Nodup) := by
  -- what the operator reads of an argument is the path that the names lead along
  have hstep (chain : Chain) : Binding.step metadata chain (.expand first) =
      Binding.step metadata chain (.expand second) := by
    rw [Binding.step, Binding.step, text, text, ofArgument_of_spells hne hn hf,
      ofArgument_of_spells hne hn hs]
  refine ⟨fun source ty => ?_, fun chain n => ⟨fun e he => ?_, fun path ty hp => ?_⟩⟩
  · have hop (argument : Expr) : Operator.ofCall? "Expand" [argument] = some (.expand argument) :=
      rfl
    rw [Binding.bind, Binding.bind]
    simp only [hop, hstep]
  · have herror : ofArgument metadata chain.leaf.elementType first = .error e := by
      rw [ofArgument_of_spells hne hn hf, he]
      rfl
    rw [Binding.step, text_of_error herror]
    rfl
  · obtain ⟨hnames, hchecked⟩ := ofNames_ok hp
    have hpath : path ≠ [] := fun h => hne (hnames ▸ congrArg Path.identifiers h)
    have hok : ofArgument metadata chain.leaf.elementType first = .ok path := by
      rw [ofArgument_of_spells hne hn hf, hp]
      rfl
    obtain ⟨written, hwritten, htext⟩ := text_of_path hok hpath hchecked
    refine ⟨hnames, written, chain.mapLeaf (·.addExpand written), hwritten, ?_, rfl, ?_, ?_, ?_⟩
    · rw [Binding.step, htext]
      rfl
    · exact chain.leaf.expand_prefix_addExpand written
    · exact fun _ => Resource.mem_expand_addExpand
    · exact fun h => Resource.nodup_expand_addExpand h written

/-- Customers with orders, the lines of the orders, and the products on the lines. -/
def customers : Metadata :=
  ({ entitySets := [("Customers", "Customer")]
     types := [
       ("Customer", ⟨[], [⟨"Orders", .collection (.entity "Order"), true⟩]⟩),
       ("Order", ⟨[], [⟨"Lines", .collection (.entity "Line"), true⟩]⟩),
       ("Line", ⟨[], [⟨"Product", .entity "Product", true⟩]⟩)] } : Model).metadata

/-- A lambda over an element of the type. -/
def each (entity : String) (body : Expr → Expr) : Expr :=
  .lambda [⟨"it", .entity entity⟩] (body (.parameter ⟨"it", .entity entity⟩))

/-- The products on the lines of the orders of a customer, each collection selected from. -/
def orderedProducts : Expr :=
  each "Customer" fun customer =>
    .call "Select" [.member customer "Orders" (.collection (.entity "Order")),
      each "Order" fun order =>
        .call "Select" [.member order "Lines" (.collection (.entity "Line")),
          each "Line" fun line => .member line "Product" (.entity "Product")] .object] .object

theorem expand_agree_orderedProducts :
    (∀ name ∈ ["Orders", "Lines", "Product"], Path.IsPropertyName name) ∧
      Spells ["Orders", "Lines", "Product"] (.constant (.string "Orders/Lines/Product")) ∧
      Spells ["Orders", "Lines", "Product"] orderedProducts ∧
      (∀ source ty, Binding.bind customers
          (.call "Expand" [source, .constant (.string "Orders/Lines/Product")] ty) =
        Binding.bind customers (.call "Expand" [source, orderedProducts] ty)) ∧
      text customers (.entity "Customer") orderedProducts =
        .ok "Orders(($expand=Lines(($expand=Product))))" := by
  have hnames : ∀ name ∈ ["Orders", "Lines", "Product"], Path.IsPropertyName name := by decide
  have hlambda : Spells ["Orders", "Lines", "Product"] orderedProducts :=
    .lambda (.select (.chain (.member (.parameter rfl)))
      (.select (.chain (.member (.parameter rfl))) (.chain (.member (.parameter rfl)))))
  exact ⟨hnames, .text, hlambda, (expand_agree customers (by decide) hnames .text hlambda).1, rfl⟩

end Expand

end ServiceQuery
