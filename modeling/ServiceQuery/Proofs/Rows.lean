import Mathlib.Order.Lattice
import ServiceQuery.Proofs.Target
import ServiceQuery.Resource.Option

/-!
# Rows of a collection

What the options of a collection do to its rows, for any meaning of bound predicates and keys.
-/

namespace List

variable {α : Type}

/-- A list falls in one way into a part with a property followed by a part without it. -/
theorem append_inj_of_split {p : α → Bool} {as bs cs ds : List α} (h : as ++ bs = cs ++ ds)
    (ha : ∀ x ∈ as, p x = true) (hb : ∀ x ∈ bs, p x = false) (hc : ∀ x ∈ cs, p x = true)
    (hd : ∀ x ∈ ds, p x = false) : as = cs ∧ bs = ds := by
  have hf := congrArg (filter p) h
  have hbn : bs.filter p = [] := filter_eq_nil_iff.2 fun x hx => by simp [hb x hx]
  have hdn : ds.filter p = [] := filter_eq_nil_iff.2 fun x hx => by simp [hd x hx]
  rw [filter_append, filter_append, filter_eq_self.2 ha, filter_eq_self.2 hc, hbn, hdn,
    append_nil, append_nil] at hf
  subst hf
  exact ⟨rfl, append_cancel_left h⟩

/-- A stable sort may be done before or after a filter. -/
theorem filter_mergeSort {le : α → α → Bool} (trans : ∀ a b c, le a b → le b c → le a c)
    (total : ∀ a b, le a b || le b a) (p : α → Bool) (as : List α) :
    (as.mergeSort le).filter p = (as.filter p).mergeSort le := by
  induction as with
  | nil => simp
  | cons a as ih =>
    obtain ⟨front, back, hsort, hrest, hfront⟩ := mergeSort_cons trans total a as
    rw [hrest, filter_append] at ih
    rw [hsort, filter_append]
    by_cases hp : p a = true
    · -- The element stands behind the smaller ones in both lists.
      obtain ⟨front', back', hsort', hrest', hfront'⟩ :=
        mergeSort_cons trans total a (as.filter p)
      have hback : ∀ x ∈ back, le a x = true := by
        have hs := pairwise_mergeSort trans total (a :: as)
        rw [hsort, pairwise_append, pairwise_cons] at hs
        exact hs.2.1.1
      have hback' : ∀ x ∈ back', le a x = true := by
        have hs := pairwise_mergeSort trans total (a :: as.filter p)
        rw [hsort', pairwise_append, pairwise_cons] at hs
        exact hs.2.1.1
      obtain ⟨hf, hb⟩ := @append_inj_of_split α (fun x => !le a x) _ _ _ _ (ih.trans hrest')
        (fun x hx => hfront x (mem_filter.1 hx).1)
        (fun x hx => by simp [hback x (mem_filter.1 hx).1]) hfront'
        (fun x hx => by simp [hback' x hx])
      rw [filter_cons_of_pos hp, filter_cons_of_pos hp, hsort', hf, hb]
    · rw [filter_cons_of_neg hp, filter_cons_of_neg hp, ih]

end List

namespace ServiceQuery

/-- A meaning of bound predicates and of the keys of orderings for the rows of a collection. The
numbers of resources mean nothing. -/
structure Interpretation (Row Key : Type) where
  holds : Expr → Row → Bool
  key : Expr → Row → Key
  holds_congr : ∀ {a b : Expr}, a.withoutTargets = b.withoutTargets → holds a = holds b
  key_congr : ∀ {a b : Expr}, a.withoutTargets = b.withoutTargets → key a = key b

/-- An ordering whose keys have no numbers of resources. -/
def OrderSelector.withoutTargets (selector : OrderSelector) : OrderSelector :=
  { selector with expr := selector.expr.withoutTargets }

namespace Interpretation

variable {Row Key : Type} (I : Interpretation Row Key)

/-- Whether a row satisfies every predicate. -/
def all (predicates : List Expr) (row : Row) : Bool := predicates.all fun p => I.holds p row

theorem all_congr {predicates others : List Expr}
    (h : predicates.map Expr.withoutTargets = others.map Expr.withoutTargets) :
    I.all predicates = I.all others := by
  induction predicates generalizing others with
  | nil =>
    obtain rfl := List.map_eq_nil_iff.1 h.symm
    rfl
  | cons predicate rest ih =>
    cases others with
    | nil => cases h
    | cons other others =>
      rw [List.map_cons, List.map_cons, List.cons.injEq] at h
      funext row
      have hr := congrFun (ih h.2) row
      simp only [all, List.all_cons, I.holds_congr h.1] at hr ⊢
      rw [hr]

theorem all_append (predicates others : List Expr) (row : Row) :
    I.all (predicates ++ others) row = (I.all predicates row && I.all others row) :=
  List.all_append

variable [LinearOrder Key]

/-- Whether a row comes before another one by a key. -/
def Before (selector : OrderSelector) (a b : Row) : Prop :=
  if selector.descending then I.key selector.expr b < I.key selector.expr a
  else I.key selector.expr a < I.key selector.expr b

instance (selector : OrderSelector) (a b : Row) : Decidable (I.Before selector a b) :=
  inferInstanceAs (Decidable (if selector.descending = true then
    I.key selector.expr b < I.key selector.expr a
    else I.key selector.expr a < I.key selector.expr b))

/-- Whether a row may stand before another one by the keys of an ordering: a later key decides among
rows that the keys before it do not tell apart. -/
def le : List OrderSelector → Row → Row → Bool
  | [], _, _ => true
  | selector :: rest, a, b =>
    decide (I.Before selector a b) ||
      decide (I.key selector.expr a = I.key selector.expr b) && le rest a b

/-- Sorts rows by the keys of an ordering. Rows that no key tells apart keep their order. -/
def sort (selectors : List OrderSelector) (rows : List Row) : List Row :=
  rows.mergeSort (I.le selectors)

/-- What an option does to rows. -/
def apply (rows : List Row) : SequenceOption → List Row
  | .filter predicates => rows.filter (I.all predicates)
  | .orderBy selectors => I.sort selectors rows
  | .skip count => rows.drop count
  | .take count => rows.take count

/-- Applies options to rows, one after the other. -/
def run (options : List SequenceOption) (rows : List Row) : List Row := options.foldl I.apply rows

theorem before_trans {selector : OrderSelector} {a b c : Row} (hab : I.Before selector a b)
    (hbc : I.Before selector b c) : I.Before selector a c := by
  unfold Before at *
  split at hab
  · next h => rw [if_pos h] at hbc ⊢; exact lt_trans hbc hab
  · next h => rw [if_neg h] at hbc ⊢; exact lt_trans hab hbc

theorem before_trichotomy (selector : OrderSelector) (a b : Row) :
    I.Before selector a b ∨ I.key selector.expr a = I.key selector.expr b ∨
      I.Before selector b a := by
  unfold Before
  split
  · obtain h | h | h := lt_trichotomy (I.key selector.expr a) (I.key selector.expr b)
    · exact .inr (.inr h)
    · exact .inr (.inl h)
    · exact .inl h
  · exact lt_trichotomy _ _

theorem before_congr_left {selector : OrderSelector} {a b : Row}
    (h : I.key selector.expr a = I.key selector.expr b) (c : Row) :
    I.Before selector a c ↔ I.Before selector b c := by
  rw [Before, Before, h]

theorem before_congr_right {selector : OrderSelector} {a b : Row}
    (h : I.key selector.expr a = I.key selector.expr b) (c : Row) :
    I.Before selector c a ↔ I.Before selector c b := by
  rw [Before, Before, h]

theorem le_cons {selector : OrderSelector} {rest : List OrderSelector} {a b : Row} :
    I.le (selector :: rest) a b = true ↔
      I.Before selector a b ∨
        I.key selector.expr a = I.key selector.expr b ∧ I.le rest a b = true := by
  simp [le]

theorem le_trans (selectors : List OrderSelector) (a b c : Row) (hab : I.le selectors a b = true)
    (hbc : I.le selectors b c = true) : I.le selectors a c = true := by
  induction selectors with
  | nil => rfl
  | cons selector rest ih =>
    rw [le_cons] at hab hbc ⊢
    obtain hab | ⟨kab, hab⟩ := hab
    · obtain hbc | ⟨kbc, hbc⟩ := hbc
      · exact .inl (I.before_trans hab hbc)
      · exact .inl ((I.before_congr_right kbc a).1 hab)
    · obtain hbc | ⟨kbc, hbc⟩ := hbc
      · exact .inl ((I.before_congr_left kab c).2 hbc)
      · exact .inr ⟨kab.trans kbc, ih hab hbc⟩

theorem le_total (selectors : List OrderSelector) (a b : Row) :
    (I.le selectors a b || I.le selectors b a) = true := by
  rw [Bool.or_eq_true]
  induction selectors with
  | nil => exact .inl rfl
  | cons selector rest ih =>
    rw [le_cons, le_cons]
    obtain h | h | h := I.before_trichotomy selector a b
    · exact .inl (.inl h)
    · obtain hr | hr := ih
      · exact .inl (.inr ⟨h, hr⟩)
      · exact .inr (.inr ⟨h.symm, hr⟩)
    · exact .inr (.inl h)

/-- Without keys every row keeps its place. -/
theorem sort_nil (rows : List Row) : I.sort [] rows = rows :=
  List.mergeSort_of_pairwise (List.pairwise_of_forall fun _ _ => rfl)

theorem filter_sort (p : Row → Bool) (selectors : List OrderSelector) (rows : List Row) :
    (I.sort selectors rows).filter p = I.sort selectors (rows.filter p) :=
  List.filter_mergeSort (I.le_trans selectors) (I.le_total selectors) p rows

theorem length_sort (selectors : List OrderSelector) (rows : List Row) :
    (I.sort selectors rows).length = rows.length :=
  List.length_mergeSort rows

theorem le_congr {selectors others : List OrderSelector}
    (h : selectors.map OrderSelector.withoutTargets = others.map OrderSelector.withoutTargets) :
    I.le selectors = I.le others := by
  induction selectors generalizing others with
  | nil =>
    obtain rfl := List.map_eq_nil_iff.1 h.symm
    rfl
  | cons selector rest ih =>
    cases others with
    | nil => cases h
    | cons other others =>
      rw [List.map_cons, List.map_cons, List.cons.injEq] at h
      simp only [OrderSelector.withoutTargets, OrderSelector.mk.injEq] at h
      obtain ⟨⟨he, hd⟩, hr⟩ := h
      funext a b
      have hbefore : I.Before selector a b = I.Before other a b := by
        unfold Before
        rw [I.key_congr he, hd]
      simp only [le, hbefore, I.key_congr he, ih hr]

theorem run_concat (options : List SequenceOption) (option : SequenceOption) (rows : List Row) :
    I.run (options ++ [option]) rows = I.apply (I.run options rows) option := by
  simp [run]

end Interpretation

end ServiceQuery
