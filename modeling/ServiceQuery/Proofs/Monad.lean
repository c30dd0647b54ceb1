import ServiceQuery.Binding.Navigation
import ServiceQuery.Uri.Expression

/-!
# Steps that succeed

What the success of a computation says about its parts. A bound step is taken apart by rewriting
with these equivalences, and no step is unfolded further than its own text.
-/

namespace ServiceQuery

namespace Except

variable {ε α β : Type}

/-- A sequence of two steps succeeds if both do. -/
theorem bind_eq_ok {x : Except ε α} {f : α → Except ε β} {b : β} :
    x >>= f = .ok b ↔ ∃ a, x = .ok a ∧ f a = .ok b := by
  cases x with
  | error e => simp [bind, Except.bind]
  | ok a => simp [bind, Except.bind]

theorem pure_eq_ok {a b : α} : (pure a : Except ε α) = .ok b ↔ a = b := by
  simp [pure, Except.pure]

theorem throw_eq_ok {e : ε} {a : α} : (throw e : Except ε α) = .ok a ↔ False := by
  simp [throw, throwThe, MonadExceptOf.throw]

theorem map_eq_ok {x : Except ε α} {f : α → β} {b : β} :
    f <$> x = .ok b ↔ ∃ a, x = .ok a ∧ f a = b := by
  cases x with
  | error e => simp [Functor.map, Except.map]
  | ok a => simp [Functor.map, Except.map]

theorem map_eq_error {x : Except ε α} {f : α → β} {e : ε} : f <$> x = .error e ↔ x = .error e := by
  cases x with
  | error e => simp [Functor.map, Except.map]
  | ok a => simp [Functor.map, Except.map]

/-- Steps that succeed alike do so along a list, whatever their errors are. -/
theorem mapM_eq_ok_congr {δ : Type} {f : α → Except ε β} {g : α → Except δ β}
    (h : ∀ a b, f a = .ok b ↔ g a = .ok b) {as : List α} {bs : List β} :
    as.mapM f = .ok bs ↔ as.mapM g = .ok bs := by
  induction as generalizing bs with
  | nil => simp only [List.mapM_nil, pure_eq_ok]
  | cons a as ih => simp only [List.mapM_cons, bind_eq_ok, pure_eq_ok, h, ih]

theorem length_of_mapM_eq_ok {f : α → Except ε β} {as : List α} {bs : List β}
    (h : as.mapM f = .ok bs) : bs.length = as.length := by
  induction as generalizing bs with
  | nil =>
    obtain rfl := pure_eq_ok.1 h
    rfl
  | cons a as ih =>
    simp only [List.mapM_cons, bind_eq_ok, pure_eq_ok] at h
    obtain ⟨b, -, rest, hrest, rfl⟩ := h
    rw [List.length_cons, List.length_cons, ih hrest]

/-- A result of steps along a list is the result of one of them. -/
theorem exists_of_mapM_eq_ok {f : α → Except ε β} {as : List α} {bs : List β} {b : β}
    (h : as.mapM f = .ok bs) (hb : b ∈ bs) : ∃ a ∈ as, f a = .ok b := by
  induction as generalizing bs with
  | nil =>
    obtain rfl := pure_eq_ok.1 h
    cases hb
  | cons a as ih =>
    simp only [List.mapM_cons, bind_eq_ok, pure_eq_ok] at h
    obtain ⟨first, hf, rest, hr, rfl⟩ := h
    obtain rfl | hb := List.mem_cons.1 hb
    · exact ⟨a, List.mem_cons_self, hf⟩
    · obtain ⟨other, hm, ho⟩ := ih hr hb
      exact ⟨other, List.mem_cons_of_mem _ hm, ho⟩

/-- What every step along a list keeps holds at its end. -/
theorem invariant_of_foldlM_eq_ok (P : β → Prop) {f : β → α → Except ε β} {as : List α} {b c : β}
    (hstep : ∀ b a c, P b → f b a = .ok c → P c) (hb : P b) (h : as.foldlM f b = .ok c) : P c := by
  induction as generalizing b with
  | nil =>
    obtain rfl := pure_eq_ok.1 h
    exact hb
  | cons a as ih =>
    rw [List.foldlM_cons, bind_eq_ok] at h
    obtain ⟨next, hnext, hrest⟩ := h
    exact ih (hstep b a next hb hnext) hrest

/-- What one step along a list reaches and every other step keeps holds at its end. -/
theorem reached_of_foldlM_eq_ok (Q : α → β → Prop) {f : β → α → Except ε β} {as : List α} {b c : β}
    (hreach : ∀ b a c, f b a = .ok c → Q a c)
    (hkeep : ∀ other b a c, Q other b → f b a = .ok c → Q other c) (h : as.foldlM f b = .ok c) :
    ∀ a ∈ as, Q a c := by
  induction as generalizing b with
  | nil => exact List.forall_mem_nil _
  | cons a as ih =>
    rw [List.foldlM_cons, bind_eq_ok] at h
    obtain ⟨next, hnext, hrest⟩ := h
    refine List.forall_mem_cons.2 ⟨?_, ih hrest⟩
    exact invariant_of_foldlM_eq_ok (Q a) (hkeep a) (hreach b a next hnext) hrest

/-- The same of steps with a state. -/
theorem exists_of_run_mapM_eq_ok {σ : Type} {f : α → StateT σ (Except ε) β} {as : List α}
    {bs : List β} {b : β} {s t : σ} (h : (as.mapM f).run s = .ok (bs, t)) (hb : b ∈ bs) :
    ∃ a ∈ as, ∃ s t, (f a).run s = .ok (b, t) := by
  induction as generalizing bs s with
  | nil =>
    cases h
    cases hb
  | cons a as ih =>
    simp only [List.mapM_cons, StateT.run_bind, StateT.run_pure, bind_eq_ok, pure_eq_ok] at h
    obtain ⟨⟨first, next⟩, hf, ⟨rest, _⟩, hr, h⟩ := h
    cases h
    obtain rfl | hb := List.mem_cons.1 hb
    · exact ⟨a, List.mem_cons_self, s, next, hf⟩
    · obtain ⟨other, hm, ho⟩ := ih hr hb
      exact ⟨other, List.mem_cons_of_mem _ hm, ho⟩

end Except

namespace Stateful

variable {ε σ α β : Type} {x : ExceptT ε (StateM σ) α} {f : α → ExceptT ε (StateM σ) β} {s t : σ}

/-- A second step is taken in the state that the first one leaves. -/
theorem run_bind_of_ok {a : α} (h : x.run.run s = (.ok a, t)) :
    (x >>= f).run.run s = (f a).run.run t := by
  rw [ExceptT.run_bind, StateT.run_bind, h]
  rfl

/-- No second step is taken after a failure. -/
theorem run_bind_of_error {e : ε} (h : x.run.run s = (.error e, t)) :
    (x >>= f).run.run s = (.error e, t) := by
  rw [ExceptT.run_bind, StateT.run_bind, h]
  rfl

theorem run_map (g : α → β) (x : ExceptT ε (StateM σ) α) (s : σ) :
    (g <$> x).run.run s = (g <$> (x.run.run s).1, (x.run.run s).2) := by
  rw [map_eq_pure_bind]
  cases h : x.run.run s with
  | mk outcome t =>
    cases outcome with
    | ok a =>
      rw [run_bind_of_ok h]
      rfl
    | error e =>
      rw [run_bind_of_error h]
      rfl

end Stateful

namespace BindM

variable {α β : Type} {n m : ResourceId}

theorem run_bind {x : BindM α} {f : α → BindM β} {r : β × ResourceId} :
    (x >>= f).run n = .ok r ↔ ∃ a k, x.run n = .ok (a, k) ∧ (f a).run k = .ok r := by
  rw [StateT.run_bind, Except.bind_eq_ok]
  exact Prod.exists

theorem run_pure {a b : α} : (pure a : BindM α).run n = .ok (b, m) ↔ a = b ∧ n = m := by
  rw [StateT.run_pure, Except.pure_eq_ok, Prod.mk.injEq]

/-- A step without numbers leaves the supply as it is. -/
theorem run_lift {x : Except CompileError α} {a : α} :
    (liftM x : BindM α).run n = .ok (a, m) ↔ x = .ok a ∧ n = m := by
  have h : (liftM x : BindM α).run n = x >>= fun a => pure (a, n) := rfl
  rw [h, Except.bind_eq_ok]
  simp only [Except.pure_eq_ok, Prod.mk.injEq]
  exact ⟨fun ⟨_, hx, ha, hn⟩ => ⟨ha ▸ hx, hn⟩, fun ⟨hx, hn⟩ => ⟨a, hx, rfl, hn⟩⟩

theorem run_throw {e : CompileError} {r : α × ResourceId} :
    (throw e : BindM α).run n = .ok r ↔ False := by
  have h : (throw e : BindM α).run n = .error e := rfl
  rw [h]
  simp

theorem run_map {x : BindM α} {f : α → β} {b : β} :
    (f <$> x).run n = .ok (b, m) ↔ ∃ a, x.run n = .ok (a, m) ∧ f a = b := by
  rw [StateT.run_map, Except.map_eq_ok]
  simp

theorem run_discard {x : BindM α} {u : Unit} :
    (discard x).run n = .ok (u, m) ↔ ∃ a, x.run n = .ok (a, m) := by
  have h : discard x = (fun _ => ()) <$> x := rfl
  rw [h, run_map]
  simp

/-- A list of steps without numbers leaves the supply as it is. -/
theorem run_mapM_lift {f : α → Except CompileError β} {as : List α} {bs : List β}
    (h : (as.mapM fun a => (liftM (f a) : BindM β)).run n = .ok (bs, m)) :
    as.mapM f = .ok bs ∧ n = m := by
  induction as generalizing bs n with
  | nil =>
    rw [List.mapM_nil, run_pure] at h
    rw [List.mapM_nil, Except.pure_eq_ok]
    exact h
  | cons a as ih =>
    simp only [List.mapM_cons, run_bind, run_lift, run_pure] at h
    obtain ⟨b, _, ⟨hb, rfl⟩, bs, _, hr, rfl, rfl⟩ := h
    obtain ⟨hbs, rfl⟩ := ih hr
    simp only [List.mapM_cons, Except.bind_eq_ok, Except.pure_eq_ok]
    exact ⟨⟨b, hb, bs, hbs, rfl⟩, trivial⟩

/-- A fresh number is the next one of the supply. -/
theorem run_freshId {id : ResourceId} :
    Binding.freshId.run n = .ok (id, m) ↔ n = id ∧ n + 1 = m := by
  have h : Binding.freshId.run n = .ok (n, n + 1) := rfl
  rw [h]
  simp

end BindM

namespace Uri

variable {α β : Type}

/-- A second step is taken with the writer that the first one leaves. -/
theorem run_bind (x : WriteM α) (f : α → WriteM β) (writer : Writer) :
    (x >>= f).run.run writer =
      (ExceptT.bindCont f (x.run.run writer).1).run (x.run.run writer).2 := rfl

theorem run_map (f : α → β) (x : WriteM α) (writer : Writer) :
    (f <$> x).run.run writer = (f <$> (x.run.run writer).1, (x.run.run writer).2) :=
  Stateful.run_map f x writer

theorem run_withVariable (name : String) (body : WriteM α) (writer : Writer) :
    (withVariable name body).run.run writer =
      ((body.run.run { writer with scope := name :: writer.scope }).1,
        { (body.run.run { writer with scope := name :: writer.scope }).2 with
          scope := (body.run.run { writer with scope := name :: writer.scope }).2.scope.tail }) :=
  rfl

end Uri

end ServiceQuery
