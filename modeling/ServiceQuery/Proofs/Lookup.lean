namespace ServiceQuery

variable {α : Type} {entries : List (String × α)} {name : String} {value : α}

theorem lookup_cons_eq (entry : String × α) (entries : List (String × α)) (name : String) :
    (entry :: entries).lookup name = if name = entry.1 then some entry.2 else entries.lookup name := by
  rw [List.lookup_cons]
  by_cases h : name = entry.1
  · simp [h]
  · rw [if_neg h, beq_eq_false_iff_ne.2 h]

theorem mem_of_lookup_eq_some (h : entries.lookup name = some value) : (name, value) ∈ entries := by
  obtain ⟨before, after, rfl, -⟩ := List.lookup_eq_some_iff.1 h
  exact List.mem_append_right _ List.mem_cons_self

theorem exists_lookup_eq_some (h : name ∈ entries.map Prod.fst) :
    ∃ value, entries.lookup name = some value := by
  obtain ⟨entry, hm, rfl⟩ := List.mem_map.1 h
  exact Option.isSome_iff_exists.1 (List.lookup_isSome_iff.2 ⟨entry, hm, beq_self_eq_true _⟩)

theorem lookup_eq_some_of_mem (hn : (entries.map Prod.fst).Nodup) (hm : (name, value) ∈ entries) :
    entries.lookup name = some value := by
  obtain ⟨before, after, rfl⟩ := List.append_of_mem hm
  refine List.lookup_eq_some_iff.2 ⟨before, after, rfl, fun entry he => ?_⟩
  rw [List.map_append, List.nodup_append] at hn
  have hne := hn.2.2 entry.1 (List.mem_map_of_mem he) name List.mem_cons_self
  simpa using hne.symm

/-- With distinct names, each entry is the one that its name stands for. -/
theorem lookup_eq_some_iff_mem (hn : (entries.map Prod.fst).Nodup) :
    entries.lookup name = some value ↔ (name, value) ∈ entries :=
  ⟨mem_of_lookup_eq_some, lookup_eq_some_of_mem hn⟩

/-- With distinct names, the order of the entries makes no difference. -/
theorem lookup_eq_of_perm {others : List (String × α)} (hn : (entries.map Prod.fst).Nodup)
    (hp : entries.Perm others) (name : String) : entries.lookup name = others.lookup name := by
  have hothers : (others.map Prod.fst).Nodup := (hp.map Prod.fst).nodup_iff.1 hn
  apply Option.ext
  intro value
  rw [lookup_eq_some_iff_mem hn, lookup_eq_some_iff_mem hothers, hp.mem_iff]

end ServiceQuery
