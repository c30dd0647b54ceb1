import Mathlib.Data.List.Nodup
import ServiceQuery.Builder

/-!
# Names that a builder gives to parameters

A builder numbers the parameters of the lambdas that it makes, and the number of a parameter can be
read from its name. No number is used twice, whatever the operators do with the lambdas: an operator
after an error makes its lambdas as any other does, and then adds no call.
-/

namespace ServiceQuery

/-! ### Names and numbers -/

theorem toList_variableName (index : Nat) :
    (variableName index).toList = Char.ofNat ('a'.toNat + index % 26) ::
      if index < 26 then [] else Nat.toDigits 10 (index / 26) := by
  rw [variableName]
  split
  · simp
  · simp [Nat.toString_eq_repr]

/-- The letter of a name tells the remainder of its number. -/
theorem letter_inj {m n : Nat} (hm : m < 26) (hn : n < 26)
    (h : Char.ofNat ('a'.toNat + m) = Char.ofNat ('a'.toNat + n)) : m = n := by
  have hcode : ∀ k < 26, (Char.ofNat ('a'.toNat + k)).toNat = 'a'.toNat + k := by decide
  have hcodes := congrArg Char.toNat h
  rw [hcode m hm, hcode n hn] at hcodes
  exact Nat.add_left_cancel hcodes

/-- The digits of a name tell the quotient of its number. -/
theorem suffix_inj {m n : Nat}
    (h : (if m < 26 then [] else Nat.toDigits 10 (m / 26)) =
      if n < 26 then [] else Nat.toDigits 10 (n / 26)) : m / 26 = n / 26 := by
  -- the first round of letters has no digits, and every later one has some
  by_cases hm : m < 26 <;> by_cases hn : n < 26
  · rw [Nat.div_eq_of_lt hm, Nat.div_eq_of_lt hn]
  · rw [if_pos hm, if_neg hn] at h
    exact absurd h.symm Nat.toDigits_ne_nil
  · rw [if_neg hm, if_pos hn] at h
    exact absurd h Nat.toDigits_ne_nil
  · rw [if_neg hm, if_neg hn] at h
    rw [← Nat.ofDigitChars_ten_toDigits (n := m / 26), h, Nat.ofDigitChars_ten_toDigits]

theorem variableName_inj {m n : Nat} (h : variableName m = variableName n) : m = n := by
  have hchars := congrArg String.toList h
  rw [toList_variableName, toList_variableName, List.cons.injEq] at hchars
  have hletter := letter_inj (Nat.mod_lt m (by decide)) (Nat.mod_lt n (by decide)) hchars.1
  have hsuffix := suffix_inj hchars.2
  omega

/-- The parameters of the lambdas have, in order, the numbers from `first` up to `next`. -/
def Numbered (lambdas : List Lambda) (first next : Nat) : Prop :=
  ∃ count, next = first + count ∧
    (lambdas.flatMap Lambda.params).map Param.name = (List.range' first count).map variableName

namespace Numbered

variable {lambdas others : List Lambda} {first middle next : Nat}

theorem nil (first : Nat) : Numbered [] first first := ⟨0, rfl, rfl⟩

theorem append (h : Numbered lambdas first middle) (ho : Numbered others middle next) :
    Numbered (lambdas ++ others) first next := by
  obtain ⟨m, rfl, hm⟩ := h
  obtain ⟨n, rfl, hn⟩ := ho
  refine ⟨m + n, Nat.add_assoc first m n, ?_⟩
  rw [List.flatMap_append, List.map_append, hm, hn, ← List.map_append, List.range'_append_1]

/-- Parameters with different numbers have different names. -/
theorem nodup (h : Numbered lambdas first next) :
    ((lambdas.flatMap Lambda.params).map Param.name).Nodup := by
  obtain ⟨count, -, hnames⟩ := h
  rw [hnames]
  exact List.Nodup.map (fun _ _ => variableName_inj) (List.nodup_range' 1)

end Numbered

/-- The lambdas among the arguments of a chain of calls, of which each has its source as the first
argument. -/
def Expr.chainLambdas : Expr → List Lambda
  | call _ (source :: args) _ => chainLambdas source ++ args.filterMap lambda?
  | _ => []

namespace Builder

/-! ### Operators -/

/-- An operator with its arguments. -/
inductive Operation where
  | filter (predicate : Expr → Expr)
  | orderBy (key : Expr → Expr)
  | orderByDescending (key : Expr → Expr)
  | thenBy (key : Expr → Expr)
  | thenByDescending (key : Expr → Expr)
  | skip (count : Int32)
  | take (count : Int32)
  | select (selector : Expr → Expr)
  | selectMany (selector : Expr → Expr)
  | selectManyScoped (selector : Expr → Expr) (outer inner : String)
  | groupBy (key : Expr → Expr)
  | groupByWithResult (key : Expr → Expr) (result : Expr → Expr → Expr)
  | groupByWithSelector (key element : Expr → Expr) (result : Expr → Expr → Expr)
  | expand (path : String)
  | expandWith (path : Expr → Expr)
  | addQueryOption (name : String) (value : Value)
  | includeCount

/-- An operator that ends a query, with its arguments. -/
inductive Ending where
  | build
  | count
  | countWhere (predicate : Expr → Expr)
  | longCount
  | first
  | firstWhere (predicate : Expr → Expr)
  | firstOrDefault
  | single
  | singleOrDefault
  | aggregate (method : String) (selector : Expr → Expr)

/-- The builder after an operator. -/
def apply (builder : Builder) : Operation → Builder
  | .filter predicate => builder.filter predicate
  | .orderBy key => builder.orderBy key
  | .orderByDescending key => builder.orderByDescending key
  | .thenBy key => builder.thenBy key
  | .thenByDescending key => builder.thenByDescending key
  | .skip count => builder.skip count
  | .take count => builder.take count
  | .select selector => builder.select selector
  | .selectMany selector => builder.selectMany selector
  | .selectManyScoped selector outer inner => builder.selectManyScoped selector outer inner
  | .groupBy key => builder.groupBy key
  | .groupByWithResult key result => builder.groupByWithResult key result
  | .groupByWithSelector key element result => builder.groupByWithSelector key element result
  | .expand path => builder.expand path
  | .expandWith path => builder.expandWith path
  | .addQueryOption name value => builder.addQueryOption name value
  | .includeCount => builder.includeCount

/-- The query that an operator ends. -/
def finish (builder : Builder) : Ending → Except CompileError Expr
  | .build => builder.build
  | .count => builder.count
  | .countWhere predicate => builder.countWhere predicate
  | .longCount => builder.longCount
  | .first => builder.first
  | .firstWhere predicate => builder.firstWhere predicate
  | .firstOrDefault => builder.firstOrDefault
  | .single => builder.single
  | .singleOrDefault => builder.singleOrDefault
  | .aggregate method selector => builder.aggregate method selector

/-- The lambdas that an operator makes, whether or not it adds a call of them. -/
def lambdas (builder : Builder) : Operation → List Lambda
  | .filter body | .orderBy body | .orderByDescending body | .thenBy body | .thenByDescending body
  | .select body | .selectMany body | .groupBy body | .expandWith body =>
    [(builder.newLambda body).1]
  | .selectManyScoped selector outer inner =>
    let (f, builder) := builder.newLambda selector
    match builder.collectionElement f with
    | (some element, builder) => [f, (builder.newPair element outer inner).1]
    | (none, _) => [f]
  | .groupByWithResult key result =>
    let (key, builder) := builder.newLambda key
    [key, (builder.newResult key builder.element result).1]
  | .groupByWithSelector key element result =>
    let (key, builder) := builder.newLambda key
    let (selector, builder) := builder.newLambda element
    [key, selector, (builder.newResult key selector.body.ty result).1]
  | .skip _ | .take _ | .expand _ | .addQueryOption _ _ | .includeCount => []

/-- The lambdas that the end of a query makes. -/
def lastLambdas (builder : Builder) : Ending → List Lambda
  | .countWhere body | .firstWhere body | .aggregate _ body => [(builder.newLambda body).1]
  | .build | .count | .longCount | .first | .firstOrDefault | .single | .singleOrDefault => []

/-- The builder after a run of operators. -/
def run (builder : Builder) (operations : List Operation) : Builder :=
  operations.foldl apply builder

/-- The lambdas that a run of operators makes, in order. -/
def history (builder : Builder) : List Operation → List Lambda
  | [] => []
  | operation :: rest => builder.lambdas operation ++ (builder.apply operation).history rest

/-! ### Making lambdas -/

/-- One builder is the other after making lambdas: their parameters have the numbers in between,
and nothing else has changed. -/
structure Made (before : Builder) (lambdas : List Lambda) (after : Builder) : Prop where
  numbered : Numbered lambdas before.nextVariable after.nextVariable
  expr_eq : after.expr = before.expr
  error_eq : after.error = before.error

namespace Made

variable {before middle after : Builder} {lambdas others : List Lambda}

theorem nil (builder : Builder) : Made builder [] builder := ⟨.nil _, rfl, rfl⟩

theorem append (h : Made before lambdas middle) (ho : Made middle others after) :
    Made before (lambdas ++ others) after :=
  ⟨h.numbered.append ho.numbered, ho.expr_eq.trans h.expr_eq, ho.error_eq.trans h.error_eq⟩

theorem newLambda (builder : Builder) (body : Expr → Expr) :
    Made builder [(builder.newLambda body).1] (builder.newLambda body).2 :=
  ⟨⟨1, rfl, rfl⟩, rfl, rfl⟩

theorem newResult (builder : Builder) (key : Lambda) (element : Ty) (body : Expr → Expr → Expr) :
    Made builder [(builder.newResult key element body).1] (builder.newResult key element body).2 :=
  ⟨⟨2, rfl, rfl⟩, rfl, rfl⟩

theorem newPair (builder : Builder) (element : Ty) (outer inner : String) :
    Made builder [(builder.newPair element outer inner).1]
      (builder.newPair element outer inner).2 :=
  ⟨⟨2, rfl, rfl⟩, rfl, rfl⟩

end Made

/-! ### Adding calls -/

/-- One builder is the other after operators that made lambdas. Without an error the lambdas stand
in the calls that were added. -/
structure Adds (before : Builder) (lambdas : List Lambda) (after : Builder) : Prop where
  numbered : Numbered lambdas before.nextVariable after.nextVariable
  error_eq_none : after.error = none → before.error = none
  chain : after.error = none →
    after.expr.chainLambdas = before.expr.chainLambdas ++ lambdas

section Calls

variable {before middle after : Builder} {lambdas others : List Lambda}

theorem Adds.nil (builder : Builder) : Adds builder [] builder :=
  ⟨.nil _, id, fun _ => (List.append_nil _).symm⟩

theorem Adds.append (h : Adds before lambdas middle) (ho : Adds middle others after) :
    Adds before (lambdas ++ others) after where
  numbered := h.numbered.append ho.numbered
  error_eq_none he := h.error_eq_none (ho.error_eq_none he)
  chain he := by
    rw [ho.chain he, h.chain (ho.error_eq_none he), List.append_assoc]

theorem push_error (builder : Builder) (method : String) (args : List Expr) (element : Ty) :
    (builder.push method args element).error = builder.error := by
  rw [push]
  split <;> rfl

theorem push_nextVariable (builder : Builder) (method : String) (args : List Expr) (element : Ty) :
    (builder.push method args element).nextVariable = builder.nextVariable := by
  rw [push]
  split <;> rfl

theorem push_expr {builder : Builder} (h : builder.error = none) (method : String)
    (args : List Expr) (element : Ty) :
    (builder.push method args element).expr =
      .call method (builder.expr :: args) (.collection element) := by
  rw [push, h]
  rfl

/-- A call of the lambdas that have been made. -/
theorem Made.push (h : Made before lambdas after) (method : String) {args : List Expr}
    (ha : args.filterMap Expr.lambda? = lambdas) (element : Ty) :
    Adds before lambdas (after.push method args element) where
  numbered := by
    rw [push_nextVariable]
    exact h.numbered
  error_eq_none he := by
    rwa [push_error, h.error_eq] at he
  chain he := by
    rw [push_error] at he
    rw [push_expr he, Expr.chainLambdas, h.expr_eq, ha]

/-- Lambdas that have been made before an operator failed. -/
theorem Made.failed (h : Made before lambdas middle)
    (hn : after.nextVariable = middle.nextVariable) (he : after.error ≠ none) :
    Adds before lambdas after :=
  ⟨hn ▸ h.numbered, fun h => absurd h he, fun h => absurd h he⟩

/-- A selector returns a collection, or the builder has an error afterwards. -/
theorem collectionElement_cases (builder : Builder) (selector : Lambda) :
    (∃ element, builder.collectionElement selector = (some element, builder)) ∨
      ∃ failed, builder.collectionElement selector = (none, failed) ∧
        failed.nextVariable = builder.nextVariable ∧ failed.error ≠ none := by
  rw [collectionElement]
  split
  · next he => exact .inr ⟨builder, rfl, rfl, Option.isSome_iff_ne_none.1 he⟩
  · split
    · next element _ => exact .inl ⟨element, rfl⟩
    · exact .inr ⟨_, rfl, rfl, Option.some_ne_none _⟩

/-- One operator. -/
theorem apply_adds (builder : Builder) (operation : Operation) :
    Adds builder (builder.lambdas operation) (builder.apply operation) := by
  cases operation with
  | filter body | orderBy body | orderByDescending body | thenBy body | thenByDescending body
  | select body | groupBy body | expandWith body => exact (Made.newLambda builder body).push _ rfl _
  | skip | take | expand | addQueryOption | includeCount => exact (Made.nil builder).push _ rfl _
  | selectMany selector =>
    -- the lambda is made before its type is looked at, so a failure leaves its number used up
    have hmade := Made.newLambda builder selector
    rw [apply, selectMany]
    obtain ⟨element, hc⟩ | ⟨failed, hc, hn, he⟩ :=
      collectionElement_cases (builder.newLambda selector).2 (builder.newLambda selector).1
    · simp only [hc]
      exact hmade.push _ rfl _
    · simp only [hc]
      exact hmade.failed hn he
  | selectManyScoped selector outer inner =>
    have hmade := Made.newLambda builder selector
    rw [apply, selectManyScoped, lambdas]
    obtain ⟨element, hc⟩ | ⟨failed, hc, hn, he⟩ :=
      collectionElement_cases (builder.newLambda selector).2 (builder.newLambda selector).1
    · simp only [hc]
      exact (hmade.append (Made.newPair _ element outer inner)).push _ rfl _
    · simp only [hc]
      exact hmade.failed hn he
  | groupByWithResult key result =>
    exact ((Made.newLambda builder key).append (Made.newResult _ _ _ result)).push _ rfl _
  | groupByWithSelector key element result =>
    have hselectors := (Made.newLambda builder key).append (Made.newLambda _ element)
    exact (hselectors.append (Made.newResult _ _ _ result)).push _ rfl _

/-- A run of operators. -/
theorem run_adds (builder : Builder) (operations : List Operation) :
    Adds builder (builder.history operations) (builder.run operations) := by
  induction operations generalizing builder with
  | nil => exact .nil builder
  | cons operation rest ih => exact (builder.apply_adds operation).append (ih _)

end Calls

/-! ### Ending a query -/

section Ends

variable {builder : Builder} {expr : Expr}

theorem build_eq_ok : builder.build = .ok expr ↔ builder.error = none ∧ builder.expr = expr := by
  rw [build]
  cases builder.error <;> simp

theorem terminal_chain {method : String} {args : List Expr} {ty : Ty}
    (h : builder.terminal method args ty = .ok expr) :
    builder.error = none ∧
      expr.chainLambdas = builder.expr.chainLambdas ++ args.filterMap Expr.lambda? := by
  cases hb : builder.build with
  | error e =>
    rw [terminal, hb] at h
    cases h
  | ok source =>
    rw [terminal, hb] at h
    cases h
    obtain ⟨he, rfl⟩ := build_eq_ok.1 hb
    exact ⟨he, rfl⟩

/-- The end of a query that has been built without an error. -/
theorem finish_chain {ending : Ending} (h : builder.finish ending = .ok expr) :
    builder.error = none ∧
      expr.chainLambdas = builder.expr.chainLambdas ++ builder.lastLambdas ending := by
  cases ending with
  | build =>
    obtain ⟨he, rfl⟩ := build_eq_ok.1 h
    exact ⟨he, (List.append_nil _).symm⟩
  | count | longCount | first | firstOrDefault | single | singleOrDefault =>
    exact terminal_chain h
  | countWhere body | firstWhere body | aggregate method body =>
    exact @terminal_chain (builder.newLambda body).2 expr _ _ _ h

theorem numbered_lastLambdas (builder : Builder) (ending : Ending) :
    ∃ next, Numbered (builder.lastLambdas ending) builder.nextVariable next := by
  cases ending with
  | countWhere body | firstWhere body | aggregate method body =>
    exact ⟨_, (Made.newLambda builder body).numbered⟩
  | _ => exact ⟨_, .nil _⟩

end Ends

/-- The number of a parameter can be read from its name. In a run of operators, whether or not some
of them fail, the lambdas use up the numbers in order and no two parameters have the same name. If
the run gives a query, these are the lambdas of its calls. -/
theorem names_distinct :
    Function.Injective variableName ∧
      ∀ (builder : Builder) (operations : List Operation) (ending : Ending),
        Numbered (builder.history operations) builder.nextVariable
          (builder.run operations).nextVariable ∧
        (((builder.history operations ++ (builder.run operations).lastLambdas ending).flatMap
          Lambda.params).map Param.name).Nodup ∧
        ∀ expr, (builder.run operations).finish ending = .ok expr →
          expr.chainLambdas = builder.expr.chainLambdas ++
            (builder.history operations ++ (builder.run operations).lastLambdas ending) := by
  refine ⟨fun _ _ => variableName_inj, fun builder operations ending => ?_⟩
  have hrun := builder.run_adds operations
  obtain ⟨next, hlast⟩ := (builder.run operations).numbered_lastLambdas ending
  refine ⟨hrun.numbered, (hrun.numbered.append hlast).nodup, fun expr h => ?_⟩
  obtain ⟨he, hchain⟩ := finish_chain h
  rw [hchain, hrun.chain he, List.append_assoc]

namespace Sample

def orders : Builder := .entitySet "Orders" "Order"

def isOpen (order : Expr) : Expr := .member order "Open" .bool

def intoLines (order : Expr) : Expr := .member order "Lines" (.collection (.entity "Line"))

def quantity (pair : Expr) : Expr := .member (.member pair "l" (.entity "Line")) "Quantity" .int32

def counted (key group : Expr) : Expr := .recordOf [("Quantity", key), ("Lines", Group.count group)]

/-- Operators with one, two and three lambdas, between others without any. -/
def perQuantity : List Operation :=
  [.filter isOpen, .take 5, .selectManyScoped intoLines "o" "l", .includeCount,
    .groupByWithSelector quantity quantity counted]

/-- The first operator fails, since its selector returns no collection. -/
def pairless : List Operation := .selectManyScoped isOpen "o" "l" :: perQuantity

end Sample

theorem names_distinct_perQuantity :
    ∃ expr, (Sample.orders.run Sample.perQuantity).finish (.countWhere Sample.isOpen) = .ok expr ∧
      expr.chainLambdas = Sample.orders.history Sample.perQuantity ++
        (Sample.orders.run Sample.perQuantity).lastLambdas (.countWhere Sample.isOpen) ∧
      (expr.chainLambdas.flatMap Lambda.params).map Param.name =
        ["a", "b", "c", "d", "e", "f", "g", "h", "i"] ∧
      (Sample.orders.run Sample.pairless).error.isSome = true ∧
      (((Sample.orders.history Sample.pairless ++
        (Sample.orders.run Sample.pairless).lastLambdas (.countWhere Sample.isOpen)).flatMap
          Lambda.params).map Param.name).Nodup :=
  ⟨_, rfl, (names_distinct.2 Sample.orders Sample.perQuantity _).2.2 _ rfl, by decide, rfl,
    (names_distinct.2 Sample.orders Sample.pairless _).2.1⟩

end Builder

end ServiceQuery
