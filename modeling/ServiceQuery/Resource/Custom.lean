/-!
# Custom options

The options of a resource that are not of the protocol. They are kept in the order of their names,
whatever the order is in which they are set.
-/

namespace ServiceQuery

/-- Values of options by name. -/
@[ext]
structure CustomOptions where
  entries : List (String × String) := []
  /-- The names stand in order, each of them once. -/
  sorted : entries.Pairwise (·.1 < ·.1) := by exact .nil

namespace CustomOptions

/-- Puts a named text into a list sorted by name, in place of an earlier one of that name. -/
def insertNamed (name value : String) : List (String × String) → List (String × String)
  | [] => [(name, value)]
  | (other, text) :: rest =>
    if name < other then (name, value) :: (other, text) :: rest
    else if name = other then (name, value) :: rest
    else (other, text) :: insertNamed name value rest

theorem mem_insertNamed {name value : String} {options : List (String × String)}
    {option : String × String} (h : option ∈ insertNamed name value options) :
    option = (name, value) ∨ option ∈ options := by
  induction options with
  | nil => exact .inl (List.mem_singleton.1 h)
  | cons first rest ih =>
    rw [insertNamed] at h
    split at h
    · exact List.mem_cons.1 h
    · split at h
      · exact (List.mem_cons.1 h).imp_right (List.mem_cons_of_mem first)
      · obtain rfl | h := List.mem_cons.1 h
        · exact .inr List.mem_cons_self
        · exact (ih h).imp_right (List.mem_cons_of_mem first)

theorem pairwise_insertNamed {options : List (String × String)}
    (h : options.Pairwise (·.1 < ·.1)) (name value : String) :
    (insertNamed name value options).Pairwise (·.1 < ·.1) := by
  induction options with
  | nil => exact List.pairwise_singleton _ _
  | cons first rest ih =>
    obtain ⟨hfirst, hrest⟩ := List.pairwise_cons.1 h
    rw [insertNamed]
    split
    · next hlt =>
      refine List.pairwise_cons.2 ⟨fun option hm => ?_, h⟩
      obtain rfl | hm := List.mem_cons.1 hm
      · exact hlt
      · exact String.lt_trans hlt (hfirst option hm)
    · next hle =>
      split
      · next heq =>
        subst heq
        exact List.pairwise_cons.2 ⟨hfirst, hrest⟩
      · next hne =>
        refine List.pairwise_cons.2 ⟨fun option hm => ?_, ih hrest⟩
        obtain rfl | hm := mem_insertNamed hm
        · exact Std.lt_of_le_of_ne (String.not_lt.1 hle) (Ne.symm hne)
        · exact hfirst option hm

/-- Sets an option. -/
def insert (options : CustomOptions) (name value : String) : CustomOptions :=
  ⟨insertNamed name value options.entries, pairwise_insertNamed options.sorted name value⟩

@[simp]
theorem entries_insert (options : CustomOptions) (name value : String) :
    (options.insert name value).entries = insertNamed name value options.entries := rfl

end CustomOptions

end ServiceQuery
