import ServiceQuery.Proofs.Normal
import ServiceQuery.Proofs.Request
import ServiceQuery.Proofs.Uri.Spelling

/-!
# Values of custom options

The value of a custom option is given by an expression that is evaluated before the query is bound.
Of the value only its text is sent. A number is written there with the letter that marks its type,
while a concatenation of strings takes it without.
-/

namespace ServiceQuery

namespace Value

/-- The text of a value as the value of an option. -/
def optionText : Value → String
  | string s => s
  | value => value.text

/-- What the text of an option has after the text of its value inside a string. -/
def mark : Value → String
  | null => "null"
  | int64 _ => "L"
  | single _ => "f"
  | decimal _ => "m"
  | _ => ""

theorem optionText_eq (value : Value) : value.optionText = value.plainText ++ value.mark := by
  cases value <;> simp [optionText, plainText, mark, text]

theorem optionText_eq_plainText_iff {value : Value} :
    value.optionText = value.plainText ↔ value.mark = "" := by
  rw [optionText_eq, String.append_eq_left_iff]

end Value

theorem Percent.encode_inj {first second : String} :
    encode first = encode second ↔ first = second := by
  refine ⟨fun h => ?_, congrArg encode⟩
  have hdecoded := decode?_encode second
  rw [← h, decode?_encode] at hdecoded
  exact Option.some.inj hdecoded

namespace Except

variable {ι ε α β : Type}

/-- The members of a family all fail with one error, or all succeed with results that belong
together. -/
def Uniform (family : ι → Except ε α) (results : (ι → α) → Prop) : Prop :=
  (∃ error, ∀ i, family i = .error error) ∨ ∃ f, results f ∧ ∀ i, family i = .ok (f i)

namespace Uniform

theorem ok {f : ι → α} {results : (ι → α) → Prop} (h : results f) :
    Uniform (fun i => (.ok (f i) : Except ε α)) results :=
  .inr ⟨f, h, fun _ => rfl⟩

theorem error (error : ε) (results : (ι → α) → Prop) : Uniform (fun _ => .error error) results :=
  .inl ⟨error, fun _ => rfl⟩

theorem bind {family : ι → Except ε α} {results : (ι → α) → Prop} {next : α → Except ε β}
    {results' : (ι → β) → Prop} (h : Uniform family results)
    (hnext : ∀ f, results f → Uniform (fun i => next (f i)) results') :
    Uniform (fun i => family i >>= next) results' := by
  obtain ⟨error, he⟩ | ⟨f, hf, hok⟩ := h
  · simp only [he]
    exact .error error results'
  · simp only [hok]
    exact hnext f hf

/-- What comes before all members decides nothing between them. -/
theorem after {first : Except ε α} {family : α → ι → Except ε β} {results : (ι → β) → Prop}
    (h : ∀ a, Uniform (family a) results) :
    Uniform (fun i => first >>= fun a => family a i) results := by
  cases first with
  | error error => exact .error error results
  | ok a => exact h a

theorem map {family : ι → Except ε α} {results : (ι → α) → Prop} {g : α → β}
    {results' : (ι → β) → Prop} (h : Uniform family results)
    (hg : ∀ f, results f → results' fun i => g (f i)) :
    Uniform (fun i => g <$> family i) results' := by
  simp only [map_eq_pure_bind]
  exact h.bind fun f hf => .ok (hg f hf)

end Uniform

end Except

namespace Expr

/-- The expression is closed and has the value. -/
structure Gives (expr : Expr) (value : Value) : Prop where
  closed : expr.isClosed isEvaluable = true
  evaluate : expr.evaluate = .ok value

theorem gives_constant (value : Value) : (constant value).Gives value :=
  ⟨isClosed_iff.2 ⟨rfl, by simp [children]⟩, rfl⟩

theorem evaluateList_constants (values : List Value) :
    evaluateList (values.map constant) = .ok values := by
  induction values with
  | nil => rfl
  | cons value rest ih =>
    rw [List.map_cons, evaluateList, ih]
    rfl

/-- A concatenation takes the texts of its values. -/
theorem gives_concat (values : List Value) (ty : Ty) :
    (call "Concat" (values.map constant) ty).Gives
      (.string (Text.join "" (values.map Value.plainText))) := by
  constructor
  · refine isClosed_iff.2 ⟨rfl, fun child hm => ?_⟩
    obtain ⟨value, -, rfl⟩ := List.mem_map.1 hm
    exact (gives_constant value).closed
  · rw [evaluate, evaluateList_constants]
    rfl

theorem Gives.fold {expr : Expr} {value : Value} (h : expr.Gives value) :
    expr.fold = .ok (constant value) := by
  rw [fold_of_isClosed h.closed]
  unfold toConstant
  split
  · next other =>
    cases h.evaluate
    rfl
  · rw [h.evaluate]
    rfl

/-- The query that sets an option on a source. -/
def addOption (source name value : Expr) (ty : Ty) : Expr :=
  call "AddQueryOption" [source, name, value] ty

section AddOption

variable {ι : Type} {args : ι → Expr} {values : ι → Value}

/-- A query all of whose arguments are closed is evaluated as a whole, and there is no function of
that name. -/
theorem uniform_fold_of_closed (h : ∀ i, (args i).Gives (values i)) {source name : Expr} (ty : Ty)
    (hs : source.isClosed isEvaluable = true) (hn : name.isClosed isEvaluable = true)
    (results : (ι → Expr) → Prop) :
    Except.Uniform (fun i => (addOption source name (args i) ty).fold) results := by
  have hfold (i : ι) : (addOption source name (args i) ty).fold = (do
      let _ ← source.evaluate
      let _ ← name.evaluate
      .error (.unsupportedCall "AddQueryOption")) := by
    have hclosed : (addOption source name (args i) ty).isClosed isEvaluable = true := by
      refine isClosed_iff.2 ⟨rfl, ?_⟩
      simp [addOption, children, hs, hn, (h i).closed]
    rw [fold_of_isClosed hclosed]
    simp only [addOption, toConstant, evaluate, evaluateList, (h i).evaluate]
    cases source.evaluate with
    | error error => rfl
    | ok s => cases name.evaluate <;> rfl
  simp only [hfold]
  exact .after fun _ => .after fun _ => .error _ results

/-- The options of a source are folded alike, whatever gives their values. -/
theorem uniform_fold_addOption (h : ∀ i, (args i).Gives (values i)) (source name : Expr) (ty : Ty) :
    Except.Uniform (fun i => (addOption source name (args i) ty).fold) fun f =>
      ∃ s n, f = fun i => addOption s n (constant (values i)) ty := by
  by_cases hclosed : source.isClosed isEvaluable = true ∧ name.isClosed isEvaluable = true
  · exact uniform_fold_of_closed h ty hclosed.1 hclosed.2 _
  · have hfold (i : ι) : (addOption source name (args i) ty).fold = (do
        let s ← source.fold
        let n ← name.fold
        pure (addOption s n (constant (values i)) ty)) := by
      have hopen : (addOption source name (args i) ty).isClosed isEvaluable = false := by
        refine Bool.eq_false_iff.2 fun hc => hclosed ?_
        have hall := (isClosed_iff.1 hc).2
        simp only [addOption, children, List.forall_mem_cons] at hall
        exact ⟨hall.1, hall.2.1⟩
      rw [fold_of_not_isClosed hopen]
      simp only [addOption, mapChildrenM, List.mapM_cons, List.mapM_nil, (h i).fold]
      simp only [bind_assoc, pure_bind]
      rfl
    simp only [hfold]
    exact .after fun s => .after fun n => .ok ⟨s, n, rfl⟩

end AddOption

/-- Normal forms of constants record nothing. -/
theorem normalize_addOption (source name : Expr) (ty : Ty) : ∃ s n replacements, ∀ value,
    (addOption source name (constant value) ty).normalize =
      (addOption s n (constant value) ty, replacements) := by
  let visited := (name.transformM (fun _ => none) simplify).run source.normalize.2
  refine ⟨source.normalize.1, visited.1, visited.2, fun value => ?_⟩
  simp only [addOption, normalize, transformM_simplify_call, List.mapM_cons, List.mapM_nil]
  rfl

end Expr

theorem CustomOptions.insertNamed_split (name : String) (custom : List (String × String)) :
    ∃ before after, ∀ value, insertNamed name value custom = before ++ (name, value) :: after := by
  induction custom with
  | nil => exact ⟨[], [], fun _ => rfl⟩
  | cons option rest ih =>
    obtain ⟨other, text⟩ := option
    simp only [insertNamed]
    by_cases hlt : name < other
    · exact ⟨[], (other, text) :: rest, fun _ => if_pos hlt⟩
    · by_cases heq : name = other
      · exact ⟨[], rest, fun _ => by rw [if_neg hlt, if_pos heq]; rfl⟩
      · obtain ⟨before, after, h⟩ := ih
        refine ⟨(other, text) :: before, after, fun value => ?_⟩
        rw [if_neg hlt, if_neg heq, h]
        rfl

theorem Text.join_split (separator : String) (before after : List String) :
    ∃ first last, ∀ piece, join separator (before ++ piece :: after) = first ++ piece ++ last := by
  induction before with
  | nil =>
    cases after with
    | nil => exact ⟨"", "", fun piece => by simp [join]⟩
    | cons next rest =>
      refine ⟨"", separator ++ join separator (next :: rest), fun piece => ?_⟩
      rw [List.nil_append, join, String.intercalate_cons_cons, String.empty_append,
        String.append_assoc]
      rfl
  | cons head rest ih =>
    obtain ⟨first, last, h⟩ := ih
    refine ⟨head ++ separator ++ first, last, fun piece => ?_⟩
    have hne : rest ++ piece :: after ≠ [] := by simp
    have hrest := h piece
    rw [join] at hrest
    rw [List.cons_append, join, String.intercalate_cons_of_ne_nil hne, hrest]
    simp only [String.append_assoc]

namespace Binding

variable {ι : Type}

theorem run_bindOption (chain : Chain) (key : String) (value : Value) (n : ResourceId) :
    (bindOption chain (.constant (.string key)) (.constant value)).run n =
      if key.startsWith "$" then .error (.reservedQueryOption key)
      else .ok (chain.mapLeaf (·.withCustom key value.optionText), n) := by
  cases hkey : key.startsWith "$" with
  | true =>
    simp only [bindOption, pure_bind, hkey, if_true]
    rfl
  | false =>
    simp only [bindOption, pure_bind, hkey, Bool.false_eq_true, if_false]
    cases value <;> rfl

theorem uniform_bindOption (values : ι → Value) (chain : Chain) (name : Expr) (n : ResourceId) :
    Except.Uniform (fun i => (bindOption chain name (.constant (values i))).run n)
      fun f => ∃ key, f = fun i => (chain.mapLeaf (·.withCustom key (values i).optionText), n) := by
  cases name with
  | constant constant =>
    cases constant with
    | string key =>
      simp only [run_bindOption]
      split
      · exact .error _ _
      · exact .ok ⟨key, rfl⟩
    | _ => exact .inl ⟨_, fun _ => rfl⟩
  | _ => exact .inl ⟨_, fun _ => rfl⟩

theorem run_bindQuery_addOption (metadata : Metadata) (source name value : Expr) (ty : Ty) :
    (bindQuery metadata (.addOption source name value ty)).run 0 =
      (bind metadata source).run 0 >>= fun result =>
        if result.1.leaf.isAction then
          .error (.notComposable result.1.leaf.name "AddQueryOption")
        else (fun bound => (finish bound.1 none none, bound.2)) <$>
          (bindOption result.1 name value).run result.2 := by
  have hquery : bindQuery metadata (.addOption source name value ty) =
      (finish · none none) <$> bind metadata (.addOption source name value ty) := rfl
  rw [hquery, StateT.run_map, Expr.addOption, bind, StateT.run_bind, map_bind]
  refine congrArg _ (funext fun result => ?_)
  cases result.1.leaf.isAction <;> rfl

/-- A constant that an option is set to has no influence but by its text. -/
theorem uniform_bindQuery_addOption (metadata : Metadata) (values : ι → Value) (source name : Expr)
    (ty : Ty) :
    Except.Uniform
      (fun i => (bindQuery metadata (.addOption source name (.constant (values i)) ty)).run 0)
      fun f => ∃ (chain : Chain) (key : String) (m : ResourceId), f = fun i =>
        (finish (chain.mapLeaf (·.withCustom key (values i).optionText)) none none, m) := by
  simp only [run_bindQuery_addOption]
  refine .after fun result => ?_
  split
  · exact .error _ _
  · refine (uniform_bindOption values result.1 name result.2).map ?_
    rintro _ ⟨key, rfl⟩
    exact ⟨result.1, key, result.2, rfl⟩

end Binding

namespace Uri

variable {ι : Type}

/-- A custom option as it is written. -/
def customText (option : String × String) : String :=
  Percent.encode option.1 ++ "=" ++ Percent.encode option.2

theorem options_custom (leaf : Resource) (custom : CustomOptions) :
    options { leaf with custom := custom } =
      (· ++ custom.entries.map customText) <$> options { leaf with custom := {} } := by
  unfold options customText
  cases leaf.apply with
  | none => simp only [map_bind, map_pure, List.map_nil, List.append_nil]
  | some apply =>
    by_cases he : apply.isEmpty = true
    · simp only [he, if_true, map_bind, map_pure, List.map_nil, List.append_nil]
    · simp only [he, Bool.false_eq_true, if_false, map_bind, map_pure, List.map_nil,
        List.append_nil]

theorem path_custom (config : Config) (chain : Chain) (custom : CustomOptions) :
    path config (chain.mapLeaf ({ · with custom := custom })) = path config chain := by
  simp only [path, Chain.resources, List.reverse_cons, List.mapM_append]
  rfl

/-- Custom options come last in an address, and nothing else depends on them. -/
theorem ofChain_custom (config : Config) (chain : Chain) :
    ∃ (others : Except CompileError (List String)) (version : ProtocolVersion),
      ∀ custom : CustomOptions,
      ofChain config (chain.mapLeaf ({ · with custom := custom })) = (do
        let path ← path config chain
        let texts ← others
        pure (addressOf config path (texts ++ custom.entries.map customText), version)) := by
  rcases ho : (options { chain.leaf with custom := {} }).run.run {} with ⟨others, writer⟩
  refine ⟨others, writer.version, fun custom => ?_⟩
  have hrun : (options (chain.mapLeaf ({ · with custom := custom })).leaf).run.run {} =
      ((· ++ custom.entries.map customText) <$> others, writer) := by
    rw [Chain.mapLeaf, options_custom, run_map, ho]
  rw [ofChain, path_custom, hrun]
  refine congrArg _ (funext fun path => ?_)
  cases others with
  | error error => simp only [Functor.map, Except.map, Bind.bind, Except.bind]
  | ok texts => rfl

/-- The value of an option stands in one place of the address. -/
theorem uniform_ofChain_withCustom (config : Config) (chain : Chain) (key : String)
    (texts : ι → String) :
    Except.Uniform (fun i => ofChain config (chain.mapLeaf (·.withCustom key (texts i))))
      fun f => ∃ before after version, f = fun i =>
        (before ++ Percent.encode (texts i) ++ after, version) := by
  obtain ⟨others, version, hcustom⟩ := ofChain_custom config chain
  obtain ⟨before, after, hsplit⟩ := CustomOptions.insertNamed_split key chain.leaf.custom.entries
  have hchain (text : String) : ofChain config (chain.mapLeaf (·.withCustom key text)) = (do
      let path ← path config chain
      let others ← others
      let query := Text.join "&" (others ++ before.map customText ++
        customText (key, text) :: after.map customText)
      pure (rooted config path ++ ("?" ++ query), version)) := by
    refine (hcustom (chain.leaf.custom.insert key text)).trans ?_
    refine congrArg _ (funext fun path => congrArg _ (funext fun others => ?_))
    simp [addressOf, hsplit]
  simp only [hchain]
  -- the path and the other options come first, and do not know the text
  refine .after fun path => .after fun others => ?_
  obtain ⟨first, last, hjoin⟩ :=
    Text.join_split "&" (others ++ before.map customText) (after.map customText)
  simp only [hjoin]
  refine .ok ⟨rooted config path ++ "?" ++ first ++ Percent.encode key ++ "=", last, version,
    funext fun i => ?_⟩
  simp only [customText, String.append_assoc]

end Uri

namespace Compiler

variable {ι : Type} {compiler : Compiler} {args : ι → Expr} {values : ι → Value}

theorem uniform_reduce_addOption (hp : compiler.config.partialEvaluation = true)
    (h : ∀ i, (args i).Gives (values i)) (source name : Expr) (ty : Ty) :
    Except.Uniform (fun i => compiler.reduce (.addOption source name (args i) ty)) fun f =>
      ∃ s n, f = fun i => .addOption s n (.constant (values i)) ty := by
  simp only [reduce, hp, if_true]
  obtain ⟨error, he⟩ | ⟨f, hf, hok⟩ := Expr.uniform_fold_addOption h source name ty
  · simp only [he]
    exact .error _ _
  · simp only [hok]
    exact .ok hf

/-- What is sent of a custom option stands in the address. -/
theorem requestOf_withCustom (chain : Chain) (replacements : Replacements) (key text uri : String)
    (version : ProtocolVersion) :
    requestOf { Binding.finish (chain.mapLeaf (·.withCustom key text)) none none with
        replacements := replacements } uri version =
      { requestOf { Binding.finish chain none none with replacements := replacements } "" version with
        uri := uri } := by
  have horigin : (chain.mapLeaf (·.withCustom key text)).resources.head?.bind Resource.origin =
      chain.resources.head?.bind Resource.origin := by
    obtain ⟨leaf, ancestors⟩ := chain
    simp only [Chain.resources, List.head?_reverse]
    cases ancestors <;> rfl
  simp only [requestOf, Binding.finish, horigin]
  split <;> rfl

theorem uniform_send_withCustom (chain : Chain) (replacements : Replacements) (key : String)
    (texts : ι → String) :
    Except.Uniform
      (fun i => compiler.send
        { Binding.finish (chain.mapLeaf (·.withCustom key (texts i))) none none with
          replacements := replacements })
      fun f => ∃ (request : Request) (before after : String), f = fun i =>
        { request with uri := before ++ Percent.encode (texts i) ++ after } := by
  have hsend (text : String) : compiler.send
      { Binding.finish (chain.mapLeaf (·.withCustom key text)) none none with
        replacements := replacements } =
      Uri.ofChain compiler.config (chain.mapLeaf (·.withCustom key text)) >>= fun address =>
        if address.2.atMost compiler.config.maxVersion then
          (fun request => { request with uri := address.1 }) <$>
            (requestOf { Binding.finish chain none none with replacements := replacements } ""
              address.2).checked
        else throw (.protocolVersionTooLow address.2 compiler.config.maxVersion) := by
    refine congrArg _ (funext fun address => ?_)
    simp only [requestOf_withCustom]
    split
    · exact checked_map (fun request => { request with uri := address.1 }) rfl rfl rfl
    · rfl
  simp only [hsend]
  refine (Uri.uniform_ofChain_withCustom compiler.config chain key texts).bind ?_
  rintro _ ⟨before, after, version, rfl⟩
  simp only [map_eq_pure_bind]
  split
  · exact .after fun request => .ok ⟨request, before, after, rfl⟩
  · exact .error _ _

/-- Of the value of an option only the text is sent, in one place of the address. -/
theorem uniform_compile_addOption (hp : compiler.config.partialEvaluation = true)
    (h : ∀ i, (args i).Gives (values i)) (source name : Expr) (ty : Ty) :
    Except.Uniform (fun i => compiler.compile (.addOption source name (args i) ty)) fun f =>
      ∃ (request : Request) (before after : String), f = fun i =>
        { request with uri := before ++ Percent.encode (values i).optionText ++ after } := by
  have hcompile (expr : Expr) : compiler.compile expr = (do
      let reduced ← compiler.reduce expr
      let result ← (Binding.bindQuery compiler.metadata reduced.normalize.1).run 0
      compiler.send { result.1 with replacements := reduced.normalize.2 }) := by
    rw [compile_eq, bind]
    simp only [bind_assoc, pure_bind]
  simp only [hcompile]
  refine (uniform_reduce_addOption hp h source name ty).bind ?_
  rintro _ ⟨s, n, rfl⟩
  obtain ⟨s', n', replacements, hnormal⟩ := Expr.normalize_addOption s n ty
  simp only [hnormal]
  refine (Binding.uniform_bindQuery_addOption compiler.metadata values s' n' ty).bind ?_
  rintro _ ⟨chain, key, m, rfl⟩
  exact uniform_send_withCustom chain replacements key _

/-- A query that sets an option fails whatever the value is, or has a request for every value. -/
theorem compile_addOption_cases (hp : compiler.config.partialEvaluation = true)
    (source name : Expr) (ty : Ty) :
    (∃ error, ∀ arg value, arg.Gives value →
        compiler.compile (.addOption source name arg ty) = .error error) ∨
      ∃ (request : Request) (before after : String), ∀ arg value, arg.Gives value →
        compiler.compile (.addOption source name arg ty) =
          .ok { request with uri := before ++ Percent.encode value.optionText ++ after } := by
  have huniform := uniform_compile_addOption (ι := { p : Expr × Value // p.1.Gives p.2 }) hp
    (fun p => p.2) source name ty
  obtain ⟨error, he⟩ | ⟨_, ⟨request, before, after, rfl⟩, hok⟩ := huniform
  · exact .inl ⟨error, fun arg value h => he ⟨(arg, value), h⟩⟩
  · exact .inr ⟨request, before, after, fun arg value h => hok ⟨(arg, value), h⟩⟩

theorem compile_addOption_gives (hp : compiler.config.partialEvaluation = true)
    {arg : Expr} {value : Value} (h : arg.Gives value) (source name : Expr) (ty : Ty) :
    compiler.compile (.addOption source name arg ty) =
      compiler.compile (.addOption source name (.constant value) ty) := by
  have hconstant := Expr.gives_constant value
  obtain ⟨error, he⟩ | ⟨request, before, after, hok⟩ := compile_addOption_cases hp source name ty
  · rw [he _ _ h, he _ _ hconstant]
  · rw [hok _ _ h, hok _ _ hconstant]

/-- An option is sent with the text of its value and its mark. That is the text of the value as a
string if there is no mark, and only then. -/
theorem compile_addOption_concat (hp : compiler.config.partialEvaluation = true)
    (source name : Expr) (value : Value) (ty ty' : Ty) :
    compiler.compile (.addOption source name (.constant value) ty) =
        compiler.compile (.addOption source name
          (.call "Concat" [.constant value, .constant (.string value.mark)] ty') ty) ∧
      (Request.uri <$> compiler.compile (.addOption source name (.constant value) ty) =
          Request.uri <$> compiler.compile (.addOption source name
            (.call "Concat" [.constant value] ty') ty) ↔
        value.mark = "" ∨
          ∃ error, compiler.compile (.addOption source name (.constant value) ty) =
            .error error) := by
  have hdirect := Expr.gives_constant value
  have hplain : (Expr.call "Concat" [.constant value] ty').Gives (.string value.plainText) :=
    Expr.gives_concat [value] ty'
  have hmarked : (Expr.call "Concat" [.constant value, .constant (.string value.mark)] ty').Gives
      (.string value.optionText) := by
    have hjoin : Text.join "" [value.plainText, value.mark] = value.optionText := by
      simp [Text.join, Value.optionText_eq]
    rw [← hjoin]
    exact Expr.gives_concat [value, .string value.mark] ty'
  -- all three give a value, so that they fail alike or differ in its text at most
  obtain ⟨error, he⟩ | ⟨request, before, after, hok⟩ := compile_addOption_cases hp source name ty
  · rw [he _ _ hdirect, he _ _ hplain, he _ _ hmarked]
    exact ⟨rfl, iff_of_true rfl (.inr ⟨error, rfl⟩)⟩
  · rw [hok _ _ hdirect, hok _ _ hplain, hok _ _ hmarked]
    have huri : before ++ Percent.encode value.optionText ++ after =
        before ++ Percent.encode value.plainText ++ after ↔ value.mark = "" := by
      rw [String.append_left_inj, String.append_right_inj, Percent.encode_inj,
        Value.optionText_eq_plainText_iff]
    have hmap (sent : Request) :
        Request.uri <$> (.ok sent : Except CompileError Request) = .ok sent.uri := rfl
    refine ⟨rfl, ?_⟩
    rw [hmap, hmap, Except.ok.injEq]
    refine huri.trans ?_
    simp only [reduceCtorEq, exists_false, or_false]

namespace Sample

/-- The products with an option. -/
def withDepth (depth : Expr) : Expr :=
  .addOption Binding.allProducts (.constant (.string "depth")) depth
    (.collection (.entity "Product"))

/-- The text of a value. -/
def concat (value : Value) : Expr := .call "Concat" [.constant value] .string

/-- The products with the text of an option. -/
def deep (text : String) : BoundQuery :=
  Binding.finish ⟨(Resource.ofRoot 0 ⟨"Products", .entity "Product", .entitySet⟩).withCustom "depth"
    text, []⟩ none none

theorem bind_withDepth (value : Value) :
    bind ⟨{}, Binding.products⟩ (withDepth (.constant value)) = .ok (deep value.optionText) := by
  have hreduce : reduce ⟨{}, Binding.products⟩ (withDepth (.constant value)) =
      .ok (withDepth (.constant value)) := rfl
  have hsource : (Binding.bind Binding.products Binding.allProducts).run 0 =
      .ok (⟨.ofRoot 0 ⟨"Products", .entity "Product", .entitySet⟩, []⟩, 1) := rfl
  have hquery : (Binding.bindQuery Binding.products (withDepth (.constant value))).run 0 =
      .ok (deep value.optionText, 1) := by
    have hkey : "depth".startsWith "$" = false := by simp
    rw [withDepth, Binding.run_bindQuery_addOption, hsource]
    simp only [Bind.bind, Except.bind, Binding.run_bindOption, hkey]
    rfl
  exact bind_ok.2 ⟨_, _, 1, hreduce, hquery, rfl⟩

theorem compile_withDepth (value : Value) :
    compile ⟨{}, Binding.products⟩ (withDepth (.constant value)) =
      send ⟨{}, Binding.products⟩ (deep value.optionText) := by
  have hok (bound : BoundQuery) (next : BoundQuery → Except CompileError Request) :
      .ok bound >>= next = next bound := rfl
  rw [compile_eq, bind_withDepth, hok]

end Sample

open Sample

theorem compile_addOption_concat_depth :
    Request.uri <$> compile ⟨{}, Binding.products⟩ (withDepth (.constant (.string "R&D"))) =
        .ok "Products?depth=R%26D" ∧
      Request.uri <$> compile ⟨{}, Binding.products⟩ (withDepth (.constant (.string "R&D"))) =
        Request.uri <$> compile ⟨{}, Binding.products⟩ (withDepth (concat (.string "R&D"))) := by
  refine ⟨?_, (compile_addOption_concat rfl _ _ (.string "R&D") _ _).2.2 (.inl rfl)⟩
  rw [compile_withDepth]
  rfl

/-- A long number is sent with a mark that its text does not have. -/
theorem compile_addOption_marked :
    Request.uri <$> compile ⟨{}, Binding.products⟩ (withDepth (.constant (.int64 2))) =
        .ok "Products?depth=2L" ∧
      Request.uri <$> compile ⟨{}, Binding.products⟩ (withDepth (concat (.int64 2))) =
        .ok "Products?depth=2" := by
  have hgives : (concat (.int64 2)).Gives (.string "2") := Expr.gives_concat [.int64 2] .string
  have hconcat : compile ⟨{}, Binding.products⟩ (withDepth (concat (.int64 2))) =
      compile ⟨{}, Binding.products⟩ (withDepth (.constant (.string "2"))) :=
    compile_addOption_gives rfl hgives _ _ _
  rw [hconcat, compile_withDepth, compile_withDepth]
  exact ⟨rfl, rfl⟩

end Compiler

end ServiceQuery
