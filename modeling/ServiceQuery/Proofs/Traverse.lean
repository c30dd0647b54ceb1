import ServiceQuery.Expr.Traverse

/-!
# Laws of the traversals

A traversal is determined by what it does at one node and by the same traversal of the direct
subexpressions. With one induction over subexpressions this turns a fact about a pass into a fact
about a single node, whatever its kind.

## Main statements

* `Expr.induction_children`: induction over direct subexpressions.
* `Expr.transformM_eq`, `Expr.replace_eq`, `Expr.gather_eq`: a traversal at one node.
* `Expr.nodes_eq`: the nodes of an expression.
* `Expr.mapChildrenM_gives`, `Expr.mapChildrenM_reaches`: a step that succeeds on all subexpressions
  of a node.
-/

namespace ServiceQuery.Expr

mutual

/-- Induction on expressions with a hypothesis for every direct subexpression. -/
theorem induction_children {motive : Expr → Prop}
    (node : ∀ expr : Expr, (∀ child ∈ expr.children, motive child) → motive expr) :
    ∀ expr : Expr, motive expr
  | constant _ | parameter _ | root _ | input _ => node _ (List.forall_mem_nil _)
  | member source _ _ => node _ (List.forall_mem_singleton.2 (induction_children node source))
  | invoke receiver _ args _ =>
    node _ (List.forall_mem_cons.2 ⟨induction_children node receiver, induction_list node args⟩)
  | call _ args _ => node _ (induction_list node args)
  | lambda _ body => node _ (List.forall_mem_singleton.2 (induction_children node body))
  | newRecord _ members => node _ (induction_members node members)
  | newObject _ members => node _ (induction_members node members)
  | newArray _ items => node _ (induction_list node items)
  | unary _ operand _ => node _ (List.forall_mem_singleton.2 (induction_children node operand))
  | binary _ left right =>
    node _ (List.forall_mem_cons.2
      ⟨induction_children node left, List.forall_mem_singleton.2 (induction_children node right)⟩)
  | conditional test whenTrue whenFalse =>
    node _ (List.forall_mem_cons.2 ⟨induction_children node test, List.forall_mem_cons.2
      ⟨induction_children node whenTrue,
        List.forall_mem_singleton.2 (induction_children node whenFalse)⟩⟩)

/-- The same for every expression of a list. -/
theorem induction_list {motive : Expr → Prop}
    (node : ∀ expr : Expr, (∀ child ∈ expr.children, motive child) → motive expr) :
    ∀ exprs : List Expr, ∀ expr ∈ exprs, motive expr
  | [] => List.forall_mem_nil _
  | expr :: rest => List.forall_mem_cons.2 ⟨induction_children node expr, induction_list node rest⟩

/-- The same for every named member. -/
theorem induction_members {motive : Expr → Prop}
    (node : ∀ expr : Expr, (∀ child ∈ expr.children, motive child) → motive expr) :
    ∀ members : List (String × Expr), ∀ expr ∈ members.map Prod.snd, motive expr
  | [] => List.forall_mem_nil _
  | (_, expr) :: rest =>
    List.forall_mem_cons.2 ⟨induction_children node expr, induction_members node rest⟩

end

/-- The members with a function applied to the expression of each. -/
def mapMembers (f : Expr → Expr) (members : List (String × Expr)) : List (String × Expr) :=
  members.map fun (name, expr) => (name, f expr)

/-- The expression with a function applied to its direct subexpressions. -/
def mapChildren (f : Expr → Expr) : Expr → Expr
  | constant value => constant value
  | parameter param => parameter param
  | root origin => root origin
  | input ref => input ref
  | member source name ty => member (f source) name ty
  | invoke receiver method args ty => invoke (f receiver) method (args.map f) ty
  | call method args ty => call method (args.map f) ty
  | lambda params body => lambda params (f body)
  | newRecord ty members => newRecord ty (mapMembers f members)
  | newObject ty members => newObject ty (mapMembers f members)
  | newArray element items => newArray element (items.map f)
  | unary op operand ty => unary op (f operand) ty
  | binary op left right => binary op (f left) (f right)
  | conditional test whenTrue whenFalse => conditional (f test) (f whenTrue) (f whenFalse)

/-- Functions that agree on the subexpressions give the same expression. -/
theorem mapChildren_congr {f g : Expr → Expr} {expr : Expr}
    (h : ∀ child ∈ expr.children, f child = g child) : expr.mapChildren f = expr.mapChildren g := by
  cases expr with
  | newRecord ty members | newObject ty members =>
    have hm : mapMembers f members = mapMembers g members := by
      refine List.map_congr_left fun entry hentry => ?_
      have he : f entry.2 = g entry.2 := h entry.2 (List.mem_map_of_mem hentry)
      simp only [he]
    simp only [mapChildren, hm]
  | invoke receiver method args ty =>
    have ha : args.map f = args.map g :=
      List.map_congr_left fun arg harg => h arg (List.mem_cons_of_mem _ harg)
    simp only [mapChildren, ha, h receiver List.mem_cons_self]
  | call method args ty =>
    have ha : args.map f = args.map g := List.map_congr_left h
    simp only [mapChildren, ha]
  | newArray element items =>
    have hi : items.map f = items.map g := List.map_congr_left h
    simp only [mapChildren, hi]
  | _ => simp_all [mapChildren, children]

theorem children_mapChildren (f : Expr → Expr) (expr : Expr) :
    (expr.mapChildren f).children = expr.children.map f := by
  cases expr <;> simp [mapChildren, mapMembers, children]

/-- Two functions applied one after the other. -/
theorem mapChildren_mapChildren (f g : Expr → Expr) (expr : Expr) :
    (expr.mapChildren f).mapChildren g = expr.mapChildren fun child => g (f child) := by
  cases expr <;> simp [mapChildren, mapMembers, Function.comp_def]

section Monadic

variable {m : Type → Type} [Monad m]

/-- The members with a step applied to the expression of each, from left to right. -/
def mapMembersM (f : Expr → m Expr) (members : List (String × Expr)) : m (List (String × Expr)) :=
  members.mapM fun (name, expr) => do
    let expr ← f expr
    pure (name, expr)

/-- The expression with a step applied to its direct subexpressions, in evaluation order. -/
def mapChildrenM (f : Expr → m Expr) : Expr → m Expr
  | constant value => pure (constant value)
  | parameter param => pure (parameter param)
  | root origin => pure (root origin)
  | input ref => pure (input ref)
  | member source name ty => do
    let source ← f source
    pure (member source name ty)
  | invoke receiver method args ty => do
    let receiver ← f receiver
    let args ← args.mapM f
    pure (invoke receiver method args ty)
  | call method args ty => do
    let args ← args.mapM f
    pure (call method args ty)
  | lambda params body => do
    let body ← f body
    pure (lambda params body)
  | newRecord ty members => do
    let members ← mapMembersM f members
    pure (newRecord ty members)
  | newObject ty members => do
    let members ← mapMembersM f members
    pure (newObject ty members)
  | newArray element items => do
    let items ← items.mapM f
    pure (newArray element items)
  | unary op operand ty => do
    let operand ← f operand
    pure (unary op operand ty)
  | binary op left right => do
    let left ← f left
    let right ← f right
    pure (binary op left right)
  | conditional test whenTrue whenFalse => do
    let test ← f test
    let whenTrue ← f whenTrue
    let whenFalse ← f whenFalse
    pure (conditional test whenTrue whenFalse)

variable [LawfulMonad m] (replace? : Expr → Option (m Expr)) (complete : Expr → Expr → m Expr)

theorem transformListM_eq (exprs : List Expr) :
    transformListM replace? complete exprs = exprs.mapM (transformM replace? complete) := by
  induction exprs with
  | nil => simp [transformListM]
  | cons expr rest ih => simp [transformListM, ih]

theorem transformMembersM_eq (members : List (String × Expr)) :
    transformMembersM replace? complete members =
      mapMembersM (transformM replace? complete) members := by
  induction members with
  | nil => simp [transformMembersM, mapMembersM]
  | cons member rest ih =>
    rw [transformMembersM, ih]
    simp [mapMembersM]

/-- A rebuilding traversal at one node. -/
theorem transformM_eq (expr : Expr) :
    expr.transformM replace? complete =
      visit replace? complete expr (expr.mapChildrenM (transformM replace? complete)) := by
  cases expr <;> simp only [transformM, mapChildrenM, transformListM_eq, transformMembersM_eq]

/-- A replacing traversal at a node with a replacement. -/
theorem replaceM_of_some {expr : Expr} {result : m Expr} (h : replace? expr = some result) :
    expr.replaceM replace? = result := by
  rw [replaceM, transformM_eq, visit, h]

/-- A replacing traversal at any other node. -/
theorem replaceM_of_none {expr : Expr} (h : replace? expr = none) :
    expr.replaceM replace? = expr.mapChildrenM (replaceM replace?) := by
  rw [replaceM, transformM_eq, visit, h]
  exact bind_pure _

end Monadic

section Success

/-- A reading of the success of computations, one step after the other: `gives x a` says that `x`
succeeds with the result `a`. -/
structure Outcome (m : Type → Type) [Monad m] where
  gives : {α : Type} → m α → α → Prop
  unique : ∀ {α : Type} {x : m α} {a b : α}, gives x a → gives x b → a = b
  of_pure : ∀ {α : Type} {a b : α}, gives (pure a) b → a = b
  of_bind : ∀ {α β : Type} {x : m α} {f : α → m β} {b : β},
    gives (x >>= f) b → ∃ a, gives x a ∧ gives (f a) b

/-- A value that is there. -/
def Outcome.option : Outcome Option where
  gives x a := x = some a
  unique hx hy := Option.some.inj (hx.symm.trans hy)
  of_pure h := Option.some.inj h
  of_bind h := Option.bind_eq_some_iff.1 h

/-- A result that is no error. -/
def Outcome.except (ε : Type) : Outcome (Except ε) where
  gives x a := x = .ok a
  unique hx hy := Except.ok.inj (hx.symm.trans hy)
  of_pure h := Except.ok.inj h
  of_bind {_ _ x _ _} h := by
    cases x with
    | ok a => exact ⟨a, rfl, h⟩
    | error e => cases h

variable {m : Type → Type} [Monad m] (o : Outcome m) {f : Expr → m Expr}

/-- The results of a step are those of a function. -/
theorem Outcome.exists_function :
    ∃ g : Expr → Expr, ∀ expr result, o.gives (f expr) result → g expr = result := by
  classical
  refine ⟨fun expr => if h : ∃ result, o.gives (f expr) result then h.choose else expr, ?_⟩
  intro expr result h
  have hex : ∃ result, o.gives (f expr) result := ⟨result, h⟩
  exact (dif_pos hex).trans (o.unique hex.choose_spec h)

variable [LawfulMonad m]

section

variable {g : Expr → Expr} (hg : ∀ expr result, o.gives (f expr) result → g expr = result)
include hg

theorem mapM_gives {exprs results : List Expr} (h : o.gives (exprs.mapM f) results) :
    results = exprs.map g ∧ ∀ expr ∈ exprs, o.gives (f expr) (g expr) := by
  induction exprs generalizing results with
  | nil =>
    rw [List.mapM_nil] at h
    exact ⟨(o.of_pure h).symm, List.forall_mem_nil _⟩
  | cons expr rest ih =>
    rw [List.mapM_cons] at h
    obtain ⟨result, hr, h⟩ := o.of_bind h
    obtain ⟨results, hrest, h⟩ := o.of_bind h
    obtain rfl := o.of_pure h
    obtain rfl := hg expr result hr
    obtain ⟨rfl, hall⟩ := ih hrest
    exact ⟨rfl, List.forall_mem_cons.2 ⟨hr, hall⟩⟩

theorem mapMembersM_gives {members results : List (String × Expr)}
    (h : o.gives (mapMembersM f members) results) :
    results = mapMembers g members ∧ ∀ expr ∈ members.map Prod.snd, o.gives (f expr) (g expr) := by
  induction members generalizing results with
  | nil =>
    rw [mapMembersM, List.mapM_nil] at h
    exact ⟨(o.of_pure h).symm, List.forall_mem_nil _⟩
  | cons member rest ih =>
    rw [mapMembersM, List.mapM_cons] at h
    obtain ⟨entry, he, h⟩ := o.of_bind h
    obtain ⟨result, hr, he⟩ := o.of_bind he
    obtain rfl := o.of_pure he
    obtain ⟨results, hrest, h⟩ := o.of_bind h
    obtain rfl := o.of_pure h
    obtain rfl := hg member.2 result hr
    obtain ⟨rfl, hall⟩ := ih hrest
    exact ⟨rfl, List.forall_mem_cons.2 ⟨hr, hall⟩⟩

end

/-- A step that succeeds on the subexpressions gives the node with their results. -/
theorem mapChildrenM_gives {expr result : Expr} (h : o.gives (expr.mapChildrenM f) result) :
    ∃ g, result = expr.mapChildren g ∧ ∀ child ∈ expr.children, o.gives (f child) (g child) := by
  obtain ⟨g, hg⟩ := o.exists_function (f := f)
  refine ⟨g, ?_⟩
  cases expr with
  | constant | parameter | root | input => exact ⟨(o.of_pure h).symm, List.forall_mem_nil _⟩
  | member | lambda | unary =>
    obtain ⟨child, hc, h⟩ := o.of_bind h
    obtain rfl := o.of_pure h
    obtain rfl := hg _ _ hc
    exact ⟨rfl, List.forall_mem_singleton.2 hc⟩
  | call | newArray =>
    obtain ⟨children, hc, h⟩ := o.of_bind h
    obtain rfl := o.of_pure h
    obtain ⟨rfl, hall⟩ := mapM_gives o hg hc
    exact ⟨rfl, hall⟩
  | newRecord | newObject =>
    obtain ⟨children, hc, h⟩ := o.of_bind h
    obtain rfl := o.of_pure h
    obtain ⟨rfl, hall⟩ := mapMembersM_gives o hg hc
    exact ⟨rfl, hall⟩
  | invoke =>
    obtain ⟨receiver, hr, h⟩ := o.of_bind h
    obtain ⟨args, ha, h⟩ := o.of_bind h
    obtain rfl := o.of_pure h
    obtain rfl := hg _ _ hr
    obtain ⟨rfl, hall⟩ := mapM_gives o hg ha
    exact ⟨rfl, List.forall_mem_cons.2 ⟨hr, hall⟩⟩
  | binary =>
    obtain ⟨left, hl, h⟩ := o.of_bind h
    obtain ⟨right, hr, h⟩ := o.of_bind h
    obtain rfl := o.of_pure h
    obtain rfl := hg _ _ hl
    obtain rfl := hg _ _ hr
    exact ⟨rfl, List.forall_mem_cons.2 ⟨hl, List.forall_mem_singleton.2 hr⟩⟩
  | conditional =>
    obtain ⟨test, ht, h⟩ := o.of_bind h
    obtain ⟨whenTrue, hw, h⟩ := o.of_bind h
    obtain ⟨whenFalse, hf, h⟩ := o.of_bind h
    obtain rfl := o.of_pure h
    obtain rfl := hg _ _ ht
    obtain rfl := hg _ _ hw
    obtain rfl := hg _ _ hf
    exact ⟨rfl, List.forall_mem_cons.2
      ⟨ht, List.forall_mem_cons.2 ⟨hw, List.forall_mem_singleton.2 hf⟩⟩⟩

end Success

section Reach

/-- The dual of `Outcome`: a reading of results that holds of a sequence of steps if it holds of each
of them. -/
structure Reach (m : Type → Type) [Monad m] where
  reaches : {α : Type} → m α → α → Prop
  pure : ∀ {α : Type} (a : α), reaches (pure a) a
  bind : ∀ {α β : Type} {x : m α} {f : α → m β} {a : α} {b : β},
    reaches x a → reaches (f a) b → reaches (x >>= f) b

def Reach.except (ε : Type) : Reach (Except ε) where
  reaches x a := x = .ok a
  pure _ := rfl
  bind hx hf := hx ▸ hf

/-- A result that does not depend on the state. -/
def Reach.state (σ : Type) : Reach (StateM σ) where
  reaches x a := ∀ s, (x.run s).1 = a
  pure _ _ := rfl
  bind {_ _ x f _ _} hx hf s := by
    have hrun : (x >>= f).run s = (f (x.run s).1).run (x.run s).2 := rfl
    rw [hrun, hx s]
    exact hf _

/-- A result without any effect. -/
def Reach.withoutEffect (m : Type → Type) [Monad m] [LawfulMonad m] : Reach m where
  reaches x a := x = Pure.pure a
  pure _ := rfl
  bind hx hf := by rw [hx, pure_bind, hf]

variable {m : Type → Type} [Monad m] [LawfulMonad m] (r : Reach m) {f : Expr → m Expr}
  {g : Expr → Expr}

theorem mapM_reaches {exprs : List Expr} (h : ∀ expr ∈ exprs, r.reaches (f expr) (g expr)) :
    r.reaches (exprs.mapM f) (exprs.map g) := by
  induction exprs with
  | nil => exact r.pure []
  | cons expr rest ih =>
    rw [List.forall_mem_cons] at h
    rw [List.mapM_cons]
    exact r.bind h.1 (r.bind (ih h.2) (r.pure _))

theorem mapMembersM_reaches {members : List (String × Expr)}
    (h : ∀ expr ∈ members.map Prod.snd, r.reaches (f expr) (g expr)) :
    r.reaches (mapMembersM f members) (mapMembers g members) := by
  induction members with
  | nil => exact r.pure []
  | cons member rest ih =>
    rw [List.map_cons, List.forall_mem_cons] at h
    rw [mapMembersM, List.mapM_cons]
    exact r.bind (r.bind h.1 (r.pure _)) (r.bind (ih h.2) (r.pure _))

/-- What a step reaches on the subexpressions it reaches on the node. -/
theorem mapChildrenM_reaches {expr : Expr}
    (h : ∀ child ∈ expr.children, r.reaches (f child) (g child)) :
    r.reaches (expr.mapChildrenM f) (expr.mapChildren g) := by
  cases expr with
  | constant | parameter | root | input => exact r.pure _
  | member | lambda | unary => exact r.bind (h _ List.mem_cons_self) (r.pure _)
  | call | newArray => exact r.bind (mapM_reaches r h) (r.pure _)
  | newRecord | newObject => exact r.bind (mapMembersM_reaches r h) (r.pure _)
  | invoke receiver method args ty =>
    rw [children, List.forall_mem_cons] at h
    exact r.bind h.1 (r.bind (mapM_reaches r h.2) (r.pure _))
  | binary op left right =>
    rw [children, List.forall_mem_cons, List.forall_mem_singleton] at h
    exact r.bind h.1 (r.bind h.2 (r.pure _))
  | conditional test whenTrue whenFalse =>
    rw [children, List.forall_mem_cons, List.forall_mem_cons, List.forall_mem_singleton] at h
    exact r.bind h.1 (r.bind h.2.1 (r.bind h.2.2 (r.pure _)))

end Reach

/-- Without effects the two ways to map subexpressions agree. -/
theorem mapChildrenM_id (f : Expr → Expr) (expr : Expr) :
    Id.run (expr.mapChildrenM (m := Id) fun child => pure (f child)) = expr.mapChildren f := by
  cases expr <;> simp [mapChildrenM, mapChildren, mapMembersM, mapMembers]

section Replace

variable (replace? : Expr → Option Expr)

/-- A replacement without effects at one node. -/
theorem replace_eq (expr : Expr) :
    expr.replace replace? = (replace? expr).getD (expr.mapChildren (replace replace?)) := by
  cases h : replace? expr with
  | some result =>
    have hs : (replace? expr).map (pure : Expr → Id Expr) = some (pure result) := by rw [h]; rfl
    rw [replace, replaceM_of_some _ hs]
    rfl
  | none =>
    rw [replace, replaceM_of_none _ (by simp [h])]
    exact mapChildrenM_id (replace replace?) expr

end Replace

section Gather

variable {α : Type} (find? : Expr → Option (List α))

theorem gatherList_eq (exprs : List Expr) :
    gatherList find? exprs = exprs.flatMap (gather find?) := by
  induction exprs with
  | nil => rfl
  | cons expr rest ih => rw [gatherList, ih, List.flatMap_cons]

theorem gatherMembers_eq (members : List (String × Expr)) :
    gatherMembers find? members = (members.map Prod.snd).flatMap (gather find?) := by
  induction members with
  | nil => rfl
  | cons member rest ih => rw [gatherMembers, ih, List.map_cons, List.flatMap_cons]

/-- A gathering traversal at one node. -/
theorem gather_eq (expr : Expr) :
    expr.gather find? = (find? expr).getD (expr.children.flatMap (gather find?)) := by
  cases expr <;> simp [gather, children, gatherList_eq, gatherMembers_eq]

end Gather

/-- Whether the test holds at one of the topmost nodes where it has an answer. -/
def anyTopmost (test : Expr → Option Bool) (expr : Expr) : Bool :=
  !(expr.gather fun node => (test node).map fun b => if b then [()] else []).isEmpty

theorem anyTopmost_eq (test : Expr → Option Bool) (expr : Expr) :
    expr.anyTopmost test = (test expr).getD (expr.children.any (anyTopmost test)) := by
  rw [anyTopmost, gather_eq]
  cases test expr with
  | some b => cases b <;> rfl
  | none =>
    rw [Bool.eq_iff_iff]
    simp [anyTopmost, List.flatMap_eq_nil_iff]

theorem anyTopmost_child {test : Expr → Option Bool} {expr child : Expr}
    (h : expr.anyTopmost test = false) (hgo : test expr = none) (hc : child ∈ expr.children) :
    child.anyTopmost test = false := by
  rw [anyTopmost_eq, hgo, Option.getD_none, List.any_eq_false] at h
  exact Bool.eq_false_iff.2 (h child hc)

section Nodes

mutual

/-- The nodes of an expression from left to right, each before those below it. -/
def nodes : Expr → List Expr
  | constant value => [constant value]
  | parameter param => [parameter param]
  | root origin => [root origin]
  | input ref => [input ref]
  | member source name ty => member source name ty :: source.nodes
  | invoke receiver method args ty =>
    invoke receiver method args ty :: (receiver.nodes ++ nodesOfList args)
  | call method args ty => call method args ty :: nodesOfList args
  | lambda params body => lambda params body :: body.nodes
  | newRecord ty members => newRecord ty members :: nodesOfMembers members
  | newObject ty members => newObject ty members :: nodesOfMembers members
  | newArray element items => newArray element items :: nodesOfList items
  | unary op operand ty => unary op operand ty :: operand.nodes
  | binary op left right => binary op left right :: (left.nodes ++ right.nodes)
  | conditional test whenTrue whenFalse =>
    conditional test whenTrue whenFalse :: (test.nodes ++ (whenTrue.nodes ++ whenFalse.nodes))

/-- The nodes of a list of expressions. -/
def nodesOfList : List Expr → List Expr
  | [] => []
  | expr :: rest => expr.nodes ++ nodesOfList rest

/-- The nodes of named members. -/
def nodesOfMembers : List (String × Expr) → List Expr
  | [] => []
  | (_, expr) :: rest => expr.nodes ++ nodesOfMembers rest

end

theorem nodesOfList_eq (exprs : List Expr) : nodesOfList exprs = exprs.flatMap nodes := by
  induction exprs with
  | nil => rfl
  | cons expr rest ih => rw [nodesOfList, ih, List.flatMap_cons]

theorem nodesOfMembers_eq (members : List (String × Expr)) :
    nodesOfMembers members = (members.map Prod.snd).flatMap nodes := by
  induction members with
  | nil => rfl
  | cons member rest ih => rw [nodesOfMembers, ih, List.map_cons, List.flatMap_cons]

theorem nodes_eq (expr : Expr) : expr.nodes = expr :: expr.children.flatMap nodes := by
  cases expr <;> simp [nodes, children, nodesOfList_eq, nodesOfMembers_eq]

theorem self_mem_nodes (expr : Expr) : expr ∈ expr.nodes := by
  rw [nodes_eq]
  exact List.mem_cons_self

theorem nodes_subset {child expr : Expr} (h : child ∈ expr.children) :
    child.nodes ⊆ expr.nodes := by
  intro node hn
  rw [nodes_eq]
  exact List.mem_cons_of_mem _ (List.mem_flatMap.2 ⟨child, h, hn⟩)

theorem subset_flatMap_nodes {α : Type} (f : Expr → List α) (expr : Expr) :
    f expr ⊆ expr.nodes.flatMap f :=
  fun _ h => List.mem_flatMap.2 ⟨expr, expr.self_mem_nodes, h⟩

theorem flatMap_nodes_subset {α : Type} (f : Expr → List α) {child expr : Expr}
    (h : child ∈ expr.children) : child.nodes.flatMap f ⊆ expr.nodes.flatMap f := by
  intro a hm
  obtain ⟨node, hn, hm⟩ := List.mem_flatMap.1 hm
  exact List.mem_flatMap.2 ⟨node, nodes_subset h hn, hm⟩

/-- What holds of every node holds of the expression and of every node of its subexpressions. -/
theorem forall_nodes {P : Expr → Prop} {expr : Expr} :
    (∀ node ∈ expr.nodes, P node) ↔
      P expr ∧ ∀ child ∈ expr.children, ∀ node ∈ child.nodes, P node := by
  rw [nodes_eq, List.forall_mem_cons]
  refine and_congr_right fun _ => ⟨fun h child hc node hn => ?_, fun h node hn => ?_⟩
  · exact h node (List.mem_flatMap.2 ⟨child, hc, hn⟩)
  · obtain ⟨child, hc, hn⟩ := List.mem_flatMap.1 hn
    exact h child hc node hn

end Nodes

end ServiceQuery.Expr
