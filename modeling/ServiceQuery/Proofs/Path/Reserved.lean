import Mathlib.Data.List.TakeWhile
import ServiceQuery.Proofs.Path.Text

/-!
# Attaching and cutting paths

A path is attached at the end of another one by going along the segments of that one, and a path is
cut by going along its segments to the first wildcard. Both are refused for the first reserved
segment on the way, and leave every other segment as it is.
-/

namespace ServiceQuery.Path

variable {path tail : Path} {error : CompileError}

/-- A path that holds no reserved segment may be written as it is. -/
theorem checked_eq_ok {legal : Path} :
    checked path = .ok legal ↔ (∀ token, .system token ∉ path) ∧ legal = path := by
  constructor
  · intro h
    refine ⟨fun token hm => ?_, eq_of_checked h⟩
    obtain ⟨first, hfirst⟩ := exists_firstReserved.2 ⟨token, hm⟩
    cases h.symm.trans (checked_eq_error.2 ⟨first, rfl, hfirst⟩)
  · rintro ⟨hr, rfl⟩
    cases h : checked legal with
    | ok same => rw [eq_of_checked h]
    | error e =>
      obtain ⟨token, -, hfirst⟩ := checked_eq_error.1 h
      obtain ⟨found, hm⟩ := exists_firstReserved.1 ⟨token, hfirst⟩
      exact absurd hm (hr found)

/-! ### Attaching -/

theorem attach_of_ok {legal : Path} (h : checked path = .ok legal) (tail : Path) :
    attach path tail = (.ok (), path ++ tail) := by
  induction path generalizing legal with
  | nil => rfl
  | cons segment rest ih =>
    cases segment with
    | system token => cases h
    | property name values structural =>
      obtain ⟨legal, hlegal, -⟩ := Except.map_eq_ok.1 h
      rw [attach, ih hlegal, List.cons_append]

theorem attach_of_error (h : checked path = .error error) (tail : Path) :
    attach path tail = (.error error, path) := by
  induction path with
  | nil => cases h
  | cons segment rest ih =>
    cases segment with
    | system token =>
      cases h
      rfl
    | property name values structural => rw [attach, ih (Except.map_eq_error.1 h)]

theorem append_eq (path tail : Path) : append path tail = (· ++ tail) <$> checked path := by
  cases h : checked path with
  | ok legal =>
    rw [append, attach_of_ok h, eq_of_checked h]
    rfl
  | error e =>
    rw [append, attach_of_error h]
    rfl

theorem attach_eq_ok {result : Path} :
    attach path tail = (.ok (), result) ↔
      (∀ token, .system token ∉ path) ∧ result = path ++ tail := by
  constructor
  · intro h
    cases hc : checked path with
    | ok legal =>
      rw [attach_of_ok hc, Prod.mk.injEq] at h
      exact ⟨(checked_eq_ok.1 hc).1, h.2.symm⟩
    | error e =>
      rw [attach_of_error hc] at h
      cases h
  · rintro ⟨hr, rfl⟩
    exact attach_of_ok (checked_eq_ok.2 ⟨hr, rfl⟩) tail

theorem attach_eq_error {result : Path} :
    attach path tail = (.error error, result) ↔
      (∃ token, error = .illegalSystemToken token ∧ FirstReserved path token) ∧ result = path := by
  rw [← checked_eq_error]
  constructor
  · intro h
    cases hc : checked path with
    | ok legal =>
      rw [attach_of_ok hc] at h
      cases h
    | error e =>
      rw [attach_of_error hc, Prod.mk.injEq, Except.error.injEq] at h
      exact ⟨congrArg Except.error h.1, h.2.symm⟩
  · rintro ⟨hc, rfl⟩
    exact attach_of_error hc tail

/-! ### Cutting -/

/-- Whether the segment is the property that stands for all of them. -/
def isWildcard : Segment → Bool
  | .property name _ _ => name == wildcard
  | .system _ => false

/-- The segments before the first wildcard, or all of them. -/
def beforeWildcard (path : Path) : Path := path.takeWhile fun segment => !isWildcard segment

theorem withoutWildcard_eq (path : Path) : withoutWildcard path = checked path.beforeWildcard := by
  rw [beforeWildcard]
  induction path with
  | nil => rfl
  | cons segment rest ih =>
    cases segment with
    | system token => rfl
    | property name values structural =>
      rw [withoutWildcard, ih]
      split
      · next heq => simp [isWildcard, heq, checked]
      · next hne => simp [isWildcard, hne, checked]

theorem withoutWildcard_of_forall {path : Path} (h : ∀ name ∈ path.identifiers, name ≠ wildcard) :
    withoutWildcard path = checked path := by
  have hkept : ∀ segment ∈ path, (!isWildcard segment) = true := by
    intro segment hm
    have hne := h segment.identifier (List.mem_map_of_mem hm)
    cases segment with
    | system token => rfl
    | property name values structural => simpa [isWildcard, Segment.identifier] using hne
  rw [withoutWildcard_eq, beforeWildcard, List.takeWhile_eq_self_iff.2 hkept]

/-- What is cut consists of properties of the path. -/
theorem mem_of_withoutWildcard {cut : Path} (h : path.withoutWildcard = .ok cut) :
    ∀ segment ∈ cut, segment ∈ path ∧ ∃ name values structural,
      segment = .property name values structural := by
  rw [withoutWildcard_eq, checked_eq_ok] at h
  obtain ⟨hr, rfl⟩ := h
  intro segment hm
  refine ⟨(List.takeWhile_prefix _).subset hm, ?_⟩
  cases segment with
  | system token => exact absurd hm (hr token)
  | property name values structural => exact ⟨name, values, structural, rfl⟩

/-- Cutting is refused for the first reserved segment before the wildcard, and otherwise leaves the
segments before it. Attaching is refused for the first reserved segment, which leaves the path as it
is, and otherwise makes it the concatenation of both. -/
theorem attached_and_cut :
    (∀ path : Path,
      (∀ error, path.withoutWildcard = .error error ↔
        ∃ token, error = .illegalSystemToken token ∧ FirstReserved path.beforeWildcard token) ∧
      ∀ cut, path.withoutWildcard = .ok cut ↔
        (∀ token, .system token ∉ path.beforeWildcard) ∧ cut = path.beforeWildcard) ∧
    ∀ path tail : Path,
      (∀ error result, path.attach tail = (.error error, result) ↔
        (∃ token, error = .illegalSystemToken token ∧ FirstReserved path token) ∧
          result = path) ∧
      ∀ result, path.attach tail = (.ok (), result) ↔
        (∀ token, .system token ∉ path) ∧ result = path ++ tail := by
  refine ⟨fun path => ?_, fun path tail => ⟨fun _ _ => attach_eq_error, fun _ => attach_eq_ok⟩⟩
  rw [withoutWildcard_eq]
  exact ⟨fun _ => checked_eq_error, fun _ => checked_eq_ok⟩

end ServiceQuery.Path
