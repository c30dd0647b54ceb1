import Mathlib.Data.List.Nodup
import ServiceQuery.Proofs.CustomOption
import ServiceQuery.Proofs.Lookup
import ServiceQuery.Proofs.Uri.Parts

/-!
# The order of custom options

Custom options are written in the order of their names, whatever the order is in which they were set,
and a name has the value that it was given last. The order of names is that of their bytes: a text
that comes before another one has the smaller bytes.
-/

namespace ServiceQuery

/-! ### The order of bytes -/

namespace Text

/-- The bytes of a text. -/
def bytes (text : String) : List UInt8 := text.toList.flatMap String.utf8EncodeChar

/-- What is left of a number before its last `count` digits in base 64. -/
def lead : Nat → Nat → Nat
  | 0, n => n
  | count + 1, n => lead count (n / 64)

/-- A number as a leading byte above `mark` and `count` bytes with one digit in base 64 each. -/
def digits (mark : Nat) : Nat → Nat → List UInt8
  | 0, n => [UInt8.ofNat (n + mark)]
  | count + 1, n => digits mark count (n / 64) ++ [UInt8.ofNat (n % 64 + 128)]

/-- The mark of the leading byte for a character and the number of bytes that follow. -/
def layout (n : Nat) : Nat × Nat :=
  if n ≤ 0x7f then (0, 0)
  else if n ≤ 0x7ff then (0xc0, 1)
  else if n ≤ 0xffff then (0xe0, 2)
  else (0xf0, 3)

theorem digits_eq_cons (mark count n : Nat) :
    ∃ rest, digits mark count n = UInt8.ofNat (lead count n + mark) :: rest := by
  induction count generalizing n with
  | zero => exact ⟨[], rfl⟩
  | succ count ih =>
    obtain ⟨rest, h⟩ := ih (n / 64)
    exact ⟨rest ++ [UInt8.ofNat (n % 64 + 128)], by rw [digits, h]; rfl⟩

theorem ofNat_lt {m n : Nat} (h : m < n) (hn : n < UInt8.size) : UInt8.ofNat m < UInt8.ofNat n :=
  (UInt8.ofNat_lt_iff_lt (Nat.lt_trans h hn) hn).2 h

/-- A smaller leading byte decides. -/
theorem digits_lt_of_lead {mark mark' count count' m n : Nat}
    (h : lead count m + mark < lead count' n + mark') (hn : lead count' n + mark' < UInt8.size)
    (first second : List UInt8) :
    digits mark count m ++ first < digits mark' count' n ++ second := by
  obtain ⟨rest, hm⟩ := digits_eq_cons mark count m
  obtain ⟨rest', hn'⟩ := digits_eq_cons mark' count' n
  rw [hm, hn', List.cons_append, List.cons_append, List.cons_lt_cons_iff]
  exact .inl (ofNat_lt h hn)

/-- Of numbers with as many digits, the smaller one has the smaller bytes. -/
theorem digits_lt {mark count m n : Nat} (h : m < n) (hn : lead count n + mark < UInt8.size)
    (first second : List UInt8) :
    digits mark count m ++ first < digits mark count n ++ second := by
  induction count generalizing m n first second with
  | zero => exact digits_lt_of_lead (Nat.add_lt_add_right h mark) hn first second
  | succ count ih =>
    rw [digits, digits, List.append_assoc, List.append_assoc]
    obtain hlt | heq := Nat.lt_or_eq_of_le (Nat.div_le_div_right (Nat.le_of_lt h))
    · exact ih hlt hn _ _
    · -- the last digits decide
      have hlast : m % 64 + 128 < n % 64 + 128 := by omega
      rw [heq]
      refine List.append_left_lt (List.cons_lt_cons_iff.2 (.inl (ofNat_lt hlast ?_)))
      have hdigit := Nat.mod_lt n (show 0 < 64 by decide)
      change n % 64 + 128 < 256
      omega

theorem toNat_lt (c : Char) : c.val.toNat < 0x110000 := by
  have hvalid := c.valid
  simp only [UInt32.isValidChar, Nat.isValidChar] at hvalid
  omega

theorem utf8EncodeChar_eq_digits (c : Char) :
    String.utf8EncodeChar c =
      digits (layout c.val.toNat).1 (layout c.val.toNat).2 c.val.toNat := by
  have hlast := toNat_lt c
  change (if c.val.toNat ≤ 127 then [UInt8.ofNat c.val.toNat]
    else if c.val.toNat ≤ 2047 then
      [UInt8.ofNat (c.val.toNat / 64 % 32 + 192), UInt8.ofNat (c.val.toNat % 64 + 128)]
    else if c.val.toNat ≤ 65535 then
      [UInt8.ofNat (c.val.toNat / 4096 % 16 + 224), UInt8.ofNat (c.val.toNat / 64 % 64 + 128),
        UInt8.ofNat (c.val.toNat % 64 + 128)]
    else
      [UInt8.ofNat (c.val.toNat / 262144 % 8 + 240), UInt8.ofNat (c.val.toNat / 4096 % 64 + 128),
        UInt8.ofNat (c.val.toNat / 64 % 64 + 128), UInt8.ofNat (c.val.toNat % 64 + 128)]) = _
  generalize c.val.toNat = n at hlast
  rw [layout]
  split
  · rfl
  split
  · have hlead : n / 64 % 32 = n / 64 := by omega
    rw [hlead]
    rfl
  split
  · have hlead : n / 4096 % 16 = n / 64 / 64 := by omega
    rw [hlead]
    rfl
  · have hlead : n / 262144 % 8 = n / 64 / 64 / 64 := by omega
    have hnext : n / 4096 % 64 = n / 64 / 64 % 64 := by omega
    rw [hlead, hnext]
    rfl

theorem lead_layout_lt {n : Nat} (h : n < 0x110000) :
    lead (layout n).2 n + (layout n).1 < UInt8.size := by
  change _ < 256
  rw [layout]
  split
  · simp only [lead]
    omega
  split
  · simp only [lead]
    omega
  split
  · simp only [lead]
    omega
  · simp only [lead]
    omega

/-- Characters with the same number of bytes are compared by their digits, and others by the leading
byte. -/
theorem layout_eq_or_lead_lt {m n : Nat} (h : m < n) (hn : n < 0x110000) :
    layout m = layout n ∨
      lead (layout m).2 m + (layout m).1 < lead (layout n).2 n + (layout n).1 := by
  unfold layout
  repeat' split
  all_goals first
    | exact .inl rfl
    | exact .inr (by simp only [lead]; omega)

/-- The bytes of a smaller character are smaller, whatever follows them. -/
theorem utf8EncodeChar_append_lt {c d : Char} (h : c < d) (first second : List UInt8) :
    String.utf8EncodeChar c ++ first < String.utf8EncodeChar d ++ second := by
  have hlt : c.val.toNat < d.val.toNat := h
  have hsize := lead_layout_lt (toNat_lt d)
  rw [utf8EncodeChar_eq_digits, utf8EncodeChar_eq_digits]
  obtain heq | hlead := layout_eq_or_lead_lt hlt (toNat_lt d)
  · rw [heq]
    exact digits_lt hlt hsize first second
  · exact digits_lt_of_lead hlead hsize first second

theorem flatMap_utf8EncodeChar_lt {first second : List Char} (h : first < second) :
    first.flatMap String.utf8EncodeChar < second.flatMap String.utf8EncodeChar := by
  induction h with
  | nil =>
    rw [List.flatMap_cons, utf8EncodeChar_eq_digits]
    obtain ⟨rest, hcons⟩ := digits_eq_cons _ _ _
    rw [hcons]
    exact List.nil_lt_cons _ _
  | rel hlt =>
    rw [List.flatMap_cons, List.flatMap_cons]
    exact utf8EncodeChar_append_lt hlt _ _
  | cons _ ih =>
    rw [List.flatMap_cons, List.flatMap_cons]
    exact List.append_left_lt ih

/-- The order of texts is that of their bytes. -/
theorem bytes_lt {first second : String} (h : first < second) : bytes first < bytes second :=
  flatMap_utf8EncodeChar_lt h

end Text

/-! ### Custom options by name -/

namespace CustomOptions

theorem nodup_names (options : CustomOptions) : (options.entries.map Prod.fst).Nodup := by
  refine List.pairwise_map.2 (options.sorted.imp fun hlt heq => ?_)
  rw [heq] at hlt
  exact String.lt_irrefl _ hlt

/-- Custom options are determined by the values of their names. -/
theorem ext_lookup {options others : CustomOptions}
    (h : ∀ name, options.entries.lookup name = others.entries.lookup name) : options = others := by
  have hperm : options.entries.Perm others.entries := by
    rw [List.perm_ext_iff_of_nodup (List.Nodup.of_map _ options.nodup_names)
      (List.Nodup.of_map _ others.nodup_names)]
    intro option
    rw [← lookup_eq_some_iff_mem options.nodup_names, ← lookup_eq_some_iff_mem others.nodup_names,
      h]
  refine CustomOptions.ext (hperm.eq_of_pairwise (fun a b _ _ hab hba => ?_) options.sorted
    others.sorted)
  exact absurd (String.lt_trans hab hba) (String.lt_irrefl _)

theorem lookup_insertNamed (name value other : String)
    (entries : List (String × String)) :
    (insertNamed name value entries).lookup other =
      if other = name then some value else entries.lookup other := by
  induction entries with
  | nil => rw [insertNamed, lookup_cons_eq]
  | cons option rest ih =>
    rw [insertNamed]
    split
    · rw [lookup_cons_eq]
    · split
      · next heq =>
        rw [lookup_cons_eq, lookup_cons_eq, heq]
        split <;> rfl
      · next hne =>
        rw [lookup_cons_eq, ih, lookup_cons_eq]
        by_cases h : other = name
        · rw [if_pos h, if_neg (h ▸ hne), if_pos h]
        · rw [if_neg h, if_neg h]

end CustomOptions

/-! ### Custom options set one after another -/

namespace Resource

/-- Sets custom options one after another. -/
def withCustoms (resource : Resource) (calls : List (String × String)) : Resource :=
  calls.foldl (fun resource call => resource.withCustom call.1 call.2) resource

/-- The value that a name has after custom options are set: that of the last call with the name, or
else the one that it had before. -/
def valueAfter? (resource : Resource) (calls : List (String × String)) (name : String) :
    Option String :=
  (calls.reverse.lookup name).or (resource.custom.entries.lookup name)

variable {resource : Resource}

/-- A name has the value that it was given last. -/
theorem lookup_withCustoms (resource : Resource) (calls : List (String × String)) (name : String) :
    (resource.withCustoms calls).custom.entries.lookup name = resource.valueAfter? calls name := by
  induction calls generalizing resource with
  | nil => rfl
  | cons call calls ih =>
    rw [withCustoms, List.foldl_cons]
    refine (ih (resource.withCustom call.1 call.2)).trans ?_
    rw [valueAfter?, valueAfter?, withCustom, CustomOptions.entries_insert,
      CustomOptions.lookup_insertNamed, List.reverse_cons, List.lookup_append, Option.or_assoc,
      lookup_cons_eq, List.lookup_nil]
    split <;> rfl

theorem withCustoms_eq (resource : Resource) (calls : List (String × String)) :
    resource.withCustoms calls =
      { resource with custom := (resource.withCustoms calls).custom } := by
  induction calls generalizing resource with
  | nil => rfl
  | cons call calls ih => exact ih (resource.withCustom call.1 call.2)

/-- Calls that leave the same values leave the same resource. -/
theorem withCustoms_congr {first second : List (String × String)}
    (hvalue : ∀ name, resource.valueAfter? first name = resource.valueAfter? second name) :
    resource.withCustoms first = resource.withCustoms second := by
  have hcustom : (resource.withCustoms first).custom = (resource.withCustoms second).custom := by
    refine CustomOptions.ext_lookup fun name => ?_
    rw [lookup_withCustoms, lookup_withCustoms, hvalue]
  rw [withCustoms_eq, hcustom, ← withCustoms_eq]

/-- The order of calls with distinct names makes no difference. -/
theorem valueAfter?_of_perm {first second : List (String × String)} (hp : first.Perm second)
    (hn : (first.map Prod.fst).Nodup) (name : String) :
    resource.valueAfter? first name = resource.valueAfter? second name := by
  have hreverse : (first.reverse.map Prod.fst).Nodup := by
    rw [List.map_reverse]
    exact List.nodup_reverse.2 hn
  have hperm : first.reverse.Perm second.reverse :=
    (List.reverse_perm first).trans (hp.trans (List.reverse_perm second).symm)
  rw [valueAfter?, valueAfter?, lookup_eq_of_perm hreverse hperm]

end Resource

namespace Uri

/-- Sequences of calls after which all names have the same values give the same address, or fail
alike, as calls with distinct names do in any order. The address is that without custom options,
followed by each name once with its last value, in the order of the bytes of the names. -/
theorem ofChain_withCustoms (config : Config) (chain : Chain) :
    (∀ first second, (∀ name, chain.leaf.valueAfter? first name =
          chain.leaf.valueAfter? second name) →
        ofChain config (chain.mapLeaf (·.withCustoms first)) =
          ofChain config (chain.mapLeaf (·.withCustoms second))) ∧
      (∀ first second, first.Perm second → (first.map Prod.fst).Nodup →
        ofChain config (chain.mapLeaf (·.withCustoms first)) =
          ofChain config (chain.mapLeaf (·.withCustoms second))) ∧
      ∀ calls uri version,
        ofChain config (chain.mapLeaf (·.withCustoms calls)) = .ok (uri, version) →
        ∃ (path : String) (texts : List String) (custom : List (String × String)),
          ofChain config (chain.mapLeaf ({ · with custom := {} })) =
            .ok (addressOf config path texts, version) ∧
          uri = addressOf config path (texts ++ custom.map customText) ∧
          custom.Pairwise (fun a b => Text.bytes a.1 < Text.bytes b.1) ∧
          ∀ name value, (name, value) ∈ custom ↔
            chain.leaf.valueAfter? calls name = some value := by
  have hcongr (first second : List (String × String)) (hvalue : ∀ name,
      chain.leaf.valueAfter? first name = chain.leaf.valueAfter? second name) :
      ofChain config (chain.mapLeaf (·.withCustoms first)) =
        ofChain config (chain.mapLeaf (·.withCustoms second)) := by
    rw [Chain.mapLeaf, Resource.withCustoms_congr hvalue]
    rfl
  refine ⟨hcongr, fun first second hp hn => ?_, fun calls uri version hok => ?_⟩
  · exact hcongr first second (Resource.valueAfter?_of_perm hp hn)
  · obtain ⟨others, written, hcustom⟩ := ofChain_custom config chain
    have hmap : chain.mapLeaf (·.withCustoms calls) =
        chain.mapLeaf ({ · with custom := (chain.leaf.withCustoms calls).custom }) :=
      congrArg (Chain.mk · chain.ancestors) (Resource.withCustoms_eq chain.leaf calls)
    rw [hmap, hcustom] at hok
    simp only [Except.bind_eq_ok, Except.pure_eq_ok, Prod.mk.injEq] at hok
    obtain ⟨path, hpath, texts, htexts, rfl, rfl⟩ := hok
    let options := (chain.leaf.withCustoms calls).custom
    refine ⟨path, texts, options.entries, ?_, rfl, ?_, fun name value => ?_⟩
    · rw [hcustom, hpath, htexts]
      simp only [List.map_nil, List.append_nil]
      rfl
    · exact options.sorted.imp Text.bytes_lt
    · rw [← lookup_eq_some_iff_mem options.nodup_names, Resource.lookup_withCustoms]

namespace Sample

/-- The products, with an option that was set before. -/
def tagged : Chain :=
  ⟨((Resource.ofRoot 0 ⟨"Products", .entity "Product", .entitySet⟩).withCustom "b" "0").addOption
    (.take 5), []⟩

/-- Calls that set one name twice. -/
def calls : List (String × String) := [("é", "1"), ("a&b", "2"), ("b", "3"), ("a&b", "4")]

/-- Other calls that leave the same values. -/
def others : List (String × String) := [("b", "3"), ("a&b", "4"), ("é", "1")]

theorem valueAfter?_calls (name : String) :
    tagged.leaf.valueAfter? calls name = tagged.leaf.valueAfter? others name := by
  simp only [Resource.valueAfter?, calls, others, List.reverse_cons, List.reverse_nil,
    List.nil_append, List.cons_append, lookup_cons_eq, List.lookup_nil]
  split_ifs <;> simp_all

end Sample

theorem ofChain_withCustoms_tagged :
    (∀ name, Sample.tagged.leaf.valueAfter? Sample.calls name =
        Sample.tagged.leaf.valueAfter? Sample.others name) ∧
      ofChain {} (Sample.tagged.mapLeaf (·.withCustoms Sample.calls)) =
        .ok ("Products?$top=5&a%26b=4&b=3&%C3%A9=1", .v40) ∧
      ofChain {} (Sample.tagged.mapLeaf (·.withCustoms Sample.calls)) =
        ofChain {} (Sample.tagged.mapLeaf (·.withCustoms Sample.others)) :=
  ⟨Sample.valueAfter?_calls, by
      set_option maxRecDepth 4000 in rfl,
    (ofChain_withCustoms {} Sample.tagged).1 _ _ Sample.valueAfter?_calls⟩

end Uri

end ServiceQuery
