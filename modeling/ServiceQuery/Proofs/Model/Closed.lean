import ServiceQuery.Model.File
import ServiceQuery.Proofs.Lookup
import ServiceQuery.Proofs.Model.TypeText
import ServiceQuery.Proofs.Monad

/-!
# Models refer to declared types only

A model that is read from a file declares every type that a member of one of its types leads to. So
members can be followed from any entity set or singleton, however far, and the only thing that can
be missing on the way is a member.
-/

namespace ServiceQuery

/-- The structured type inside the nullable types and collections of a type, if there is one, is
declared. -/
def Ty.RefersTo (declared : String → Prop) : Ty → Prop
  | .entity name | .complex name => declared name
  | .nullable of | .collection of => of.RefersTo declared
  | _ => True

theorem TypeText.IsPropertyType.refersTo {complexTypes : List String} {ty : Ty}
    {declared : String → Prop} (hd : ∀ name ∈ complexTypes, declared name)
    (h : IsPropertyType complexTypes ty) : ty.RefersTo declared := by
  induction h with
  | @scalar ty h => cases ty <;> trivial
  | complex hm hn => exact hd _ hm
  | nullable h ih => exact ih
  | collection h ih => exact ih

/-! ### Following members -/

/-- A member is found, with a type that refers to declared types, or else it is said to be missing. -/
def FindsOrMisses (declared : String → Prop) (name : String)
    (outcome : Except CompileError PropertyDef) : Prop :=
  (∃ property, outcome = .ok property ∧ property.ty.RefersTo declared) ∨
    ∃ owner, outcome = .error (.unknownMember owner name)

namespace Metadata

/-- Looking for a member of a declared type does not fail for the type. -/
def Closed (metadata : Metadata) (declared : String → Prop) : Prop :=
  ∀ owner name, declared owner → FindsOrMisses declared name (metadata.property owner name)

/-- The type that a sequence of members leads to. -/
def walk (metadata : Metadata) (names : List String) (ty : Ty) : Except CompileError Ty :=
  names.foldlM (fun ty name => PropertyDef.ty <$> metadata.member name ty) ty

variable {metadata : Metadata} {declared : String → Prop}

theorem Closed.member (h : metadata.Closed declared) (name : String) {ty : Ty}
    (hty : ty.RefersTo declared) : FindsOrMisses declared name (metadata.member name ty) := by
  fun_induction Metadata.member metadata name ty with
  | case1 owner => exact h owner name hty
  | case2 owner => exact h owner name hty
  | case3 of ih => exact ih hty
  | case4 owner => exact h owner name hty
  | case5 owner => exact h owner name hty
  | case6 of ih => exact ih hty
  | case7 other => exact .inr ⟨_, rfl⟩
  | case8 other => exact .inr ⟨_, rfl⟩

theorem Closed.walk (h : metadata.Closed declared) (names : List String) {ty : Ty}
    (hty : ty.RefersTo declared) :
    (∃ target, metadata.walk names ty = .ok target ∧ target.RefersTo declared) ∨
      ∃ owner, ∃ name ∈ names, metadata.walk names ty = .error (.unknownMember owner name) := by
  induction names generalizing ty with
  | nil => exact .inl ⟨ty, rfl, hty⟩
  | cons name names ih =>
    have hwalk : metadata.walk (name :: names) ty =
        PropertyDef.ty <$> metadata.member name ty >>= metadata.walk names := rfl
    rw [hwalk]
    obtain ⟨property, hfound, hproperty⟩ | ⟨owner, hmissing⟩ := h.member name hty
    · rw [hfound]
      obtain hok | ⟨owner, other, hm, herror⟩ := ih hproperty
      · exact .inl hok
      · exact .inr ⟨owner, other, List.mem_cons_of_mem name hm, herror⟩
    · rw [hmissing]
      exact .inr ⟨owner, name, List.mem_cons_self, rfl⟩

end Metadata

/-! ### Declarations -/

/-- The types of the members of a declared type refer to declared types. -/
def StructuredType.RefersTo (declared : String → Prop) (structured : StructuredType) : Prop :=
  ∀ property ∈ structured.properties, property.ty.RefersTo declared

namespace Model

/-- The model declares a type. -/
def Declares (model : Model) (name : String) : Prop := name ∈ model.types.map Prod.fst

variable {types : List (String × StructuredType)} {name : String}
  {update : StructuredType → StructuredType}

theorem mem_updateType_names {other : String} :
    other ∈ (updateType name update types).map Prod.fst ↔
      other = name ∨ other ∈ types.map Prod.fst := by
  induction types with
  | nil => simp [updateType]
  | cons entry types ih =>
    rw [updateType]
    by_cases h : entry.1 = name
    · simp [h]
    · simp only [h, if_false, List.map_cons, List.mem_cons, ih, or_left_comm]

theorem lookup_updateType (other : String) :
    (updateType name update types).lookup other =
      if other = name then some (update ((types.lookup name).getD {})) else types.lookup other := by
  induction types with
  | nil => rw [updateType, lookup_cons_eq, List.lookup_nil, List.lookup_nil, Option.getD_none]
  | cons entry types ih =>
    rw [updateType, lookup_cons_eq, lookup_cons_eq]
    by_cases h : entry.1 = name
    · rw [if_pos h, lookup_cons_eq, h, if_pos rfl, Option.getD_some]
      split <;> rfl
    · rw [if_neg h, lookup_cons_eq, ih, if_neg (Ne.symm h)]
      by_cases ho : other = name
      · rw [if_pos ho, if_neg (ho ▸ Ne.symm h), if_pos ho]
      · rw [if_neg ho, if_neg ho]

/-- What an update keeps of a declaration, it keeps of all. -/
theorem forall_updateType {P : StructuredType → Prop} (hempty : P {})
    (hupdate : ∀ structured, P structured → P (update structured))
    (h : ∀ entry ∈ types, P entry.2) : ∀ entry ∈ updateType name update types, P entry.2 := by
  induction types with
  | nil => exact List.forall_mem_singleton.2 (hupdate _ hempty)
  | cons entry types ih =>
    rw [List.forall_mem_cons] at h
    rw [updateType]
    split
    · exact List.forall_mem_cons.2 ⟨hupdate _ h.1, h.2⟩
    · exact List.forall_mem_cons.2 ⟨h.1, ih h.2⟩

theorem structured_of_declares {model : Model} (h : model.Declares name) :
    ∃ structured, model.structured name = .ok structured ∧ (name, structured) ∈ model.types := by
  obtain ⟨structured, hlookup⟩ := exists_lookup_eq_some h
  exact ⟨structured, by rw [Model.structured, hlookup], mem_of_lookup_eq_some hlookup⟩

/-- Members can be followed if they refer to what is declared. -/
theorem closed_metadata {model : Model} {declared : String → Prop}
    (hd : ∀ name, declared name → model.Declares name)
    (h : ∀ entry ∈ model.types, entry.2.RefersTo declared) : model.metadata.Closed declared := by
  intro owner member howner
  obtain ⟨structured, hstructured, hm⟩ := structured_of_declares (hd owner howner)
  change FindsOrMisses declared member (model.property owner member)
  rw [property, hstructured]
  simp only [Bind.bind, Except.bind]
  split
  · next found heq => exact .inl ⟨found, rfl, h _ hm found (List.mem_of_find?_eq_some heq)⟩
  · exact .inr ⟨owner, rfl⟩

/-- The model declares a member of a type. -/
def Has (model : Model) (owner member : String) : Prop :=
  ∃ structured, model.types.lookup owner = some structured ∧
    member ∈ structured.properties.map PropertyDef.name

/-- A declared member is found. -/
theorem property_of_has {model : Model} {owner member : String} (h : model.Has owner member) :
    ∃ property, model.metadata.property owner member = .ok property := by
  obtain ⟨structured, hlookup, hm⟩ := h
  obtain ⟨property, hproperty, hname⟩ := List.mem_map.1 hm
  have hstructured : model.structured owner = .ok structured := by rw [Model.structured, hlookup]
  change ∃ property, model.property owner member = .ok property
  rw [Model.property, hstructured]
  simp only [Bind.bind, Except.bind]
  split
  · next found _ => exact ⟨found, rfl⟩
  · next hnone =>
    have hdifferent := List.find?_eq_none.1 hnone property hproperty
    simp [hname] at hdifferent

theorem has_addProperty {model : Model} (owner : String) (property : PropertyDef) :
    (model.addProperty owner property).Has owner property.name := by
  refine ⟨_, by rw [addProperty, lookup_updateType, if_pos rfl], ?_⟩
  exact List.mem_map_of_mem (List.mem_append_right _ (List.mem_singleton_self property))

theorem Has.addProperty {model : Model} {other member : String} (h : model.Has other member)
    (owner : String) (property : PropertyDef) :
    (model.addProperty owner property).Has other member := by
  obtain ⟨structured, hlookup, hm⟩ := h
  by_cases ho : other = owner
  · subst ho
    refine ⟨_, by rw [Model.addProperty, lookup_updateType, if_pos rfl, hlookup], ?_⟩
    rw [Option.getD_some, List.map_append]
    exact List.mem_append_left _ hm
  · refine ⟨structured, ?_, hm⟩
    rw [Model.addProperty, lookup_updateType, if_neg ho, hlookup]

/-- A declared name of a set or singleton stands for an entity type that it was declared with. -/
theorem entityOf_reverse_of_mem {entries : List (String × String)}
    (h : name ∈ entries.map Prod.fst) :
    ∃ entity, (name, entity) ∈ entries ∧ entityOf entries.reverse name = .ok (.entity entity) := by
  have hreverse : name ∈ entries.reverse.map Prod.fst := by
    rwa [List.map_reverse, List.mem_reverse]
  obtain ⟨entity, hlookup⟩ := exists_lookup_eq_some hreverse
  refine ⟨entity, List.mem_reverse.1 (mem_of_lookup_eq_some hlookup), ?_⟩
  rw [entityOf, hlookup]

theorem entityOf_reverse_eq_ok {entries : List (String × String)} {ty : Ty}
    (h : entityOf entries.reverse name = .ok ty) :
    ∃ entity, (name, entity) ∈ entries ∧ ty = .entity entity := by
  rw [entityOf] at h
  split at h
  · next entity hlookup =>
    exact ⟨entity, List.mem_reverse.1 (mem_of_lookup_eq_some hlookup), (Except.ok.inj h).symm⟩
  · cases h

/-- The type of an entity set or of a singleton. -/
def Serves (model : Model) (ty : Ty) : Prop :=
  ∃ name, model.metadata.entitySetType name = .ok ty ∨ model.metadata.singletonType name = .ok ty

end Model

/-! ### Files -/

/-- The names of the members of a type in a model file. -/
def TypeEntry.memberNames (entry : TypeEntry) : List String :=
  entry.properties.map Prod.fst ++ entry.navigation.map Prod.fst

namespace ModelFile

/-- The file declares an entity type or a complex type. -/
def Declares (file : ModelFile) (name : String) : Prop :=
  name ∈ file.entityTypes.map Prod.fst ∨ name ∈ file.complexNames

/-- What holds of the model of a file before its sets are declared: members refer to types of the
file. -/
structure Refers (file : ModelFile) (model : Model) : Prop where
  refersTo : ∀ entry ∈ model.types, entry.2.RefersTo file.Declares
  entitySets : model.entitySets = []
  singletons : model.singletons = []

/-- While types get their members, all types of the file are declared. -/
structure Admits (file : ModelFile) (model : Model) : Prop extends Refers file model where
  declares : ∀ name, file.Declares name → model.Declares name

variable {file : ModelFile} {model next : Model}

theorem declaresEntity_iff {name : String} :
    file.declaresEntity name = true ↔ name ∈ file.entityTypes.map Prod.fst :=
  List.contains_iff_mem

theorem Refers.updateType (h : file.Refers model) (name : String)
    {update : StructuredType → StructuredType}
    (hupdate : ∀ structured : StructuredType, structured.RefersTo file.Declares →
      (update structured).RefersTo file.Declares) :
    file.Refers { model with types := Model.updateType name update model.types } where
  refersTo := Model.forall_updateType (List.forall_mem_nil _) hupdate h.refersTo
  entitySets := h.entitySets
  singletons := h.singletons

/-- Types that are declared one after another are declared in the end. -/
theorem declares_foldl {α : Type} {declare : Model → α → Model} {nameOf : α → String}
    (hd : ∀ model a name, (declare model a).Declares name ↔ name = nameOf a ∨ model.Declares name)
    {as : List α} {name : String} (h : name ∈ as.map nameOf ∨ model.Declares name) :
    (as.foldl declare model).Declares name := by
  induction as generalizing model with
  | nil => exact h.resolve_left (by simp)
  | cons a as ih =>
    refine ih ?_
    rw [hd]
    rw [List.map_cons, List.mem_cons] at h
    exact or_left_comm.1 (or_assoc.1 h)

/-- The types of a file are declared before their members are. -/
theorem admits_emptyTypes (file : ModelFile) : file.Admits file.emptyTypes := by
  have hcomplex : file.Refers (file.complexNames.foldl Model.complexType {}) := by
    refine List.foldlRecOn _ _ ⟨List.forall_mem_nil _, rfl, rfl⟩ fun model h name _ => ?_
    exact h.updateType name fun _ hs => hs
  have hentity : file.Refers file.emptyTypes := by
    refine List.foldlRecOn _ _ hcomplex fun model h entry _ => ?_
    exact h.updateType entry.1 fun _ hs => hs
  refine ⟨hentity, fun name h => ?_⟩
  refine declares_foldl (fun _ _ _ => Model.mem_updateType_names) (h.imp_right fun hc => ?_)
  refine declares_foldl (fun _ _ _ => Model.mem_updateType_names) (.inl ?_)
  rwa [List.map_id']

/-! ### Members -/

/-- What declaring one member does. -/
def AddsMember (file : ModelFile) (owner name : String) (model next : Model) : Prop :=
  ∃ property : PropertyDef, property.name = name ∧ property.ty.RefersTo file.Declares ∧
    next = model.addProperty owner property

theorem addProperty_eq_ok {owner : String} {entry : String × String}
    (h : file.addProperty owner model entry = .ok next) :
    file.AddsMember owner entry.1 model next := by
  rw [ModelFile.addProperty] at h
  split at h
  · next ty hparse =>
    refine ⟨⟨entry.1, ty, false⟩, rfl, ?_, (Except.ok.inj h).symm⟩
    exact (TypeText.spaced_of_parse hparse).1.refersTo fun _ hc => .inr hc
  · cases h

theorem addNavigation_eq_ok {owner : String} {entry : String × NavigationEntry}
    (h : file.addNavigation owner model entry = .ok next) :
    file.AddsMember owner entry.1 model next := by
  rw [addNavigation] at h
  split at h
  · next hd =>
    have htarget : file.Declares entry.2.target := .inl (declaresEntity_iff.1 hd)
    refine ⟨⟨entry.1, _, true⟩, rfl, ?_, (Except.ok.inj h).symm⟩
    cases entry.2.collection <;> exact htarget
  · cases h

namespace AddsMember

variable {owner name : String}

theorem admits (h : file.AddsMember owner name model next) (ha : file.Admits model) :
    file.Admits next := by
  obtain ⟨property, -, hp, rfl⟩ := h
  refine ⟨ha.toRefers.updateType owner fun structured hs => ?_, fun other ho => ?_⟩
  · exact List.forall_mem_append.2 ⟨hs, List.forall_mem_singleton.2 hp⟩
  · exact Model.mem_updateType_names.2 (.inr (ha.declares other ho))

theorem has (h : file.AddsMember owner name model next) : next.Has owner name := by
  obtain ⟨property, rfl, -, rfl⟩ := h
  exact Model.has_addProperty owner property

theorem keeps (h : file.AddsMember owner name model next) {other member : String}
    (hm : model.Has other member) : next.Has other member := by
  obtain ⟨property, -, -, rfl⟩ := h
  exact hm.addProperty owner property

end AddsMember

/-- What declaring one member keeps, declaring the members of a type keeps. -/
theorem invariant_addMembers (P : Model → Prop) {entry : String × TypeEntry}
    (hstep : ∀ name model next, P model → file.AddsMember entry.1 name model next → P next)
    (h : P model) (hn : file.addMembers model entry = .ok next) : P next := by
  rw [addMembers, Except.bind_eq_ok] at hn
  obtain ⟨structural, hs, hn⟩ := hn
  have hproperties : P structural := Except.invariant_of_foldlM_eq_ok P
    (fun model property next hp ho => hstep property.1 model next hp (addProperty_eq_ok ho)) h hs
  exact Except.invariant_of_foldlM_eq_ok P
    (fun model navigation next hp ho => hstep navigation.1 model next hp (addNavigation_eq_ok ho))
    hproperties hn

theorem admits_addMembers {entry : String × TypeEntry} (h : file.Admits model)
    (hn : file.addMembers model entry = .ok next) : file.Admits next :=
  invariant_addMembers file.Admits (fun _ _ _ ha ho => ho.admits ha) h hn

theorem keeps_addMembers {entry : String × TypeEntry} {other member : String}
    (h : model.Has other member) (hn : file.addMembers model entry = .ok next) :
    next.Has other member :=
  invariant_addMembers (·.Has other member) (fun _ _ _ hm ho => ho.keeps hm) h hn

/-- After the members of a type are declared, the type has them all. -/
theorem has_addMembers {entry : String × TypeEntry}
    (hn : file.addMembers model entry = .ok next) :
    ∀ member ∈ entry.2.memberNames, next.Has entry.1 member := by
  rw [addMembers, Except.bind_eq_ok] at hn
  obtain ⟨structural, hs, hn⟩ := hn
  have hproperties : ∀ property ∈ entry.2.properties, structural.Has entry.1 property.1 :=
    Except.reached_of_foldlM_eq_ok (fun property model => model.Has entry.1 property.1)
      (fun _ _ _ ho => (addProperty_eq_ok ho).has)
      (fun _ _ _ _ hm ho => (addProperty_eq_ok ho).keeps hm) hs
  have hnavigation : ∀ navigation ∈ entry.2.navigation, next.Has entry.1 navigation.1 :=
    Except.reached_of_foldlM_eq_ok (fun navigation model => model.Has entry.1 navigation.1)
      (fun _ _ _ ho => (addNavigation_eq_ok ho).has)
      (fun _ _ _ _ hm ho => (addNavigation_eq_ok ho).keeps hm) hn
  rw [TypeEntry.memberNames, List.forall_mem_append, List.forall_mem_map, List.forall_mem_map]
  refine ⟨fun property hm => ?_, hnavigation⟩
  exact Except.invariant_of_foldlM_eq_ok (·.Has entry.1 property.1)
    (fun _ _ _ hkept ho => (addNavigation_eq_ok ho).keeps hkept) (hproperties property hm) hn

/-! ### Sets and singletons -/

/-- Sets or singletons are declared if all their entity types are. -/
theorem foldlM_addResource {declare : Model → String → String → Model}
    {entries : List (String × String)}
    (h : entries.foldlM (file.addResource declare) model = .ok next) :
    (∀ entry ∈ entries, file.declaresEntity entry.2 = true) ∧
      next = entries.foldl (fun model entry => declare model entry.1 entry.2) model := by
  induction entries generalizing model with
  | nil => exact ⟨List.forall_mem_nil _, (Except.pure_eq_ok.1 h).symm⟩
  | cons entry entries ih =>
    rw [List.foldlM_cons, Except.bind_eq_ok] at h
    obtain ⟨first, hfirst, hrest⟩ := h
    rw [addResource] at hfirst
    split at hfirst
    · next hd =>
      obtain rfl := Except.ok.inj hfirst
      obtain ⟨hall, rfl⟩ := ih hrest
      exact ⟨List.forall_mem_cons.2 ⟨hd, hall⟩, rfl⟩
    · cases hfirst

theorem foldl_entitySet (entries : List (String × String)) (model : Model) :
    entries.foldl (fun model entry => model.entitySet entry.1 entry.2) model =
      { model with entitySets := entries.reverse ++ model.entitySets } := by
  induction entries generalizing model with
  | nil => rfl
  | cons entry entries ih =>
    rw [List.foldl_cons, ih, List.reverse_cons, List.append_assoc]
    rfl

theorem foldl_singleton (entries : List (String × String)) (model : Model) :
    entries.foldl (fun model entry => model.singleton entry.1 entry.2) model =
      { model with singletons := entries.reverse ++ model.singletons } := by
  induction entries generalizing model with
  | nil => rfl
  | cons entry entries ih =>
    rw [List.foldl_cons, ih, List.reverse_cons, List.append_assoc]
    rfl

/-- The model of a file: types with their members, and the sets and singletons of the file. -/
theorem toModel_eq_ok (h : file.toModel = .ok model) :
    ∃ types, file.Admits { types := types } ∧
      (∀ entry ∈ file.entityTypes ++ file.complexTypes, ∀ member ∈ entry.2.memberNames,
        Model.Has { types := types } entry.1 member) ∧
      (∀ entry ∈ file.entitySets, file.declaresEntity entry.2 = true) ∧
      (∀ entry ∈ file.singletons, file.declaresEntity entry.2 = true) ∧
      model = ⟨file.entitySets.reverse, file.singletons.reverse, types⟩ := by
  simp only [toModel, Except.bind_eq_ok] at h
  obtain ⟨⟨sets, singletons, types⟩, htyped, served, hsets, hsingletons⟩ := h
  have hadmits : file.Admits ⟨sets, singletons, types⟩ := Except.invariant_of_foldlM_eq_ok file.Admits
    (fun _ _ _ => admits_addMembers) (admits_emptyTypes file) htyped
  have hmembers : ∀ entry ∈ file.entityTypes ++ file.complexTypes, ∀ member ∈ entry.2.memberNames,
      Model.Has ⟨sets, singletons, types⟩ entry.1 member :=
    Except.reached_of_foldlM_eq_ok
      (fun entry model => ∀ member ∈ entry.2.memberNames, model.Has entry.1 member)
      (fun _ _ _ => has_addMembers)
      (fun _ _ _ _ hm ho member hn => keeps_addMembers (hm member hn) ho) htyped
  obtain rfl : sets = [] := hadmits.entitySets
  obtain rfl : singletons = [] := hadmits.singletons
  obtain ⟨hs, rfl⟩ := foldlM_addResource hsets
  obtain ⟨ho, rfl⟩ := foldlM_addResource hsingletons
  refine ⟨types, hadmits, hmembers, hs, ho, ?_⟩
  rw [foldl_entitySet, foldl_singleton, List.append_nil, List.append_nil]

/-- A model that is read from a file is closed: its sets and singletons are of declared entity types,
and following members from there either succeeds or ends at a member that is missing. The members
that the file declares are not. -/
theorem toModel_closed (h : file.toModel = .ok model) :
    (∀ name ∈ file.entitySets.map Prod.fst, ∃ entity, (name, entity) ∈ file.entitySets ∧
        model.metadata.entitySetType name = .ok (.entity entity)) ∧
      (∀ name ∈ file.singletons.map Prod.fst, ∃ entity, (name, entity) ∈ file.singletons ∧
        model.metadata.singletonType name = .ok (.entity entity)) ∧
      (∀ entry ∈ file.entityTypes ++ file.complexTypes, ∀ name ∈ entry.2.memberNames,
        ∃ property, model.metadata.property entry.1 name = .ok property) ∧
      ∀ ty, model.Serves ty →
        (∃ entity structured, ty = .entity entity ∧ file.declaresEntity entity = true ∧
          model.structured entity = .ok structured) ∧
        ∀ names, (∃ target, model.metadata.walk names ty = .ok target) ∨
          ∃ owner, ∃ name ∈ names,
            model.metadata.walk names ty = .error (.unknownMember owner name) := by
  obtain ⟨types, hadmits, hmembers, hsets, hsingletons, rfl⟩ := toModel_eq_ok h
  have hclosed : (Model.metadata ⟨file.entitySets.reverse, file.singletons.reverse, types⟩).Closed
      file.Declares := Model.closed_metadata hadmits.declares hadmits.refersTo
  refine ⟨fun _ => Model.entityOf_reverse_of_mem, fun _ => Model.entityOf_reverse_of_mem,
    fun entry he name hn => Model.property_of_has (hmembers entry he name hn), fun ty hty => ?_⟩
  obtain ⟨entity, rfl, hd⟩ :
      ∃ entity, ty = .entity entity ∧ file.declaresEntity entity = true := by
    obtain ⟨name, hset | hsingleton⟩ := hty
    · obtain ⟨entity, hm, rfl⟩ := Model.entityOf_reverse_eq_ok hset
      exact ⟨entity, rfl, hsets _ hm⟩
    · obtain ⟨entity, hm, rfl⟩ := Model.entityOf_reverse_eq_ok hsingleton
      exact ⟨entity, rfl, hsingletons _ hm⟩
  have hrefers : (Ty.entity entity).RefersTo file.Declares := .inl (declaresEntity_iff.1 hd)
  obtain ⟨structured, hstructured, -⟩ :=
    Model.structured_of_declares (hadmits.declares entity hrefers)
  refine ⟨⟨entity, structured, rfl, hd, hstructured⟩, fun names => ?_⟩
  obtain ⟨target, hok, -⟩ | hmissing := hclosed.walk names hrefers
  · exact .inl ⟨target, hok⟩
  · exact .inr hmissing

namespace Sample

/-- Customers and their orders, which lead to each other, also through the addresses. -/
def shop : ModelFile where
  entitySets := [("Customers", "Customer"), ("Orders", "Order")]
  singletons := [("Me", "Customer")]
  entityTypes :=
    [("Customer", ⟨["Id"], [("Homes", "Collection( Address? )?"), ("Id", "int32")],
        [("Orders", ⟨"Order", true⟩)]⟩),
      ("Order", ⟨["Id"], [("Id", "int32")], [("Customer", ⟨"Customer", false⟩)]⟩)]
  complexTypes := [("Address", ⟨[], [("City", "string")], [("Owner", ⟨"Customer", false⟩)]⟩)]

/-- A way through every kind of member. -/
def tour : List String := ["Orders", "Customer", "Homes", "Owner", "Homes", "City"]

theorem exists_toModel_shop : ∃ model, shop.toModel = .ok model ∧
    (model.metadata.walk tour (.entity "Customer")).toOption = some .string := by
  have hwalk : (shop.toModel.toOption.bind fun model =>
      (model.metadata.walk tour (.entity "Customer")).toOption) = some .string := by
    decide +kernel
  cases hmodel : shop.toModel with
  | error error =>
    rw [hmodel] at hwalk
    cases hwalk
  | ok model =>
    rw [hmodel] at hwalk
    exact ⟨model, rfl, hwalk⟩

end Sample

theorem toModel_closed_shop : ∃ model, Sample.shop.toModel = .ok model ∧
    (model.metadata.walk Sample.tour (.entity "Customer")).toOption = some .string ∧
    model.metadata.singletonType "Me" = .ok (.entity "Customer") ∧
    ∀ names, (∃ target, model.metadata.walk names (.entity "Customer") = .ok target) ∨
      ∃ owner, ∃ name ∈ names,
        model.metadata.walk names (.entity "Customer") = .error (.unknownMember owner name) := by
  obtain ⟨model, hmodel, hwalk⟩ := Sample.exists_toModel_shop
  obtain ⟨-, hsingletons, -, hserved⟩ := toModel_closed hmodel
  obtain ⟨entity, hm, hme⟩ := hsingletons "Me" (by decide)
  obtain rfl : entity = "Customer" := by simpa [Sample.shop] using hm
  exact ⟨model, hmodel, hwalk, hme, (hserved _ ⟨"Me", .inr hme⟩).2⟩

end ModelFile

end ServiceQuery
