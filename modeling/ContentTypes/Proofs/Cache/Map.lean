import Mathlib.Data.Set.Card
import ContentTypes.Proofs.Cache.Order

/-! # The map that a cache is

A cache is read as a map from sets of names to effective types (`Cache.types`). Each operation on the cache
is the operation of that name on the map (`types_put`, `types_erase`, `types_invalidate`), a look-up by a
key is one by its names (`get?_eq_types`), and entries are counted by their sets of names (`ncard_domain`,
`ncard_dependents`). All this rests on keys of one numbering having the same bits exactly if they have the
same names. -/

namespace ContentTypes

/-! ### Maps -/

/-- Effective types at sets of names. -/
abbrev TypeMap := NameSet → Option EffectiveType

namespace TypeMap

/-- The sets that a map has a type at. -/
def domain (m : TypeMap) : Set NameSet := {names | (m names).isSome}

/-- The sets with a name or with a type that includes it. -/
def dependents (m : TypeMap) (n : Name) : Set NameSet :=
  {names | ∃ type, m names = some type ∧ (n ∈ names ∨ n ∈ type.allTypes)}

/-- The map without the types at sets that depend on a name. -/
def without (m : TypeMap) (n : Name) : TypeMap := fun names =>
  (m names).filter fun type => decide (¬ (n ∈ names ∨ n ∈ type.allTypes))

end TypeMap

/-! ### Reading a cache -/

namespace Cache

/-- The cache as a map. -/
def types (c : Cache) : TypeMap := fun names =>
  (c.entries.find? fun e => e.key.names = names).map (·.type)

variable {c : Cache} {key : Key} {names : NameSet} {type : EffectiveType} {n : Name}

theorem types_eq_some_iff (hc : c.Keyed) (ho : c.Ordered) :
    c.types names = some type ↔ c.Holds names type := by
  constructor
  · intro h
    obtain ⟨e, he, rfl⟩ := Option.map_eq_some_iff.1 h
    have hnames := List.find?_some he
    exact ⟨e, List.mem_of_find?_eq_some he, of_decide_eq_true hnames, rfl⟩
  · intro h
    cases hfound : c.types names with
    | none =>
      obtain ⟨e, he, hnames, -⟩ := h
      rw [types, Option.map_eq_none_iff, List.find?_eq_none] at hfound
      exact absurd (decide_eq_true hnames) (hfound e he)
    | some type' =>
      obtain ⟨e, he, rfl⟩ := Option.map_eq_some_iff.1 hfound
      have hnames := List.find?_some he
      have hheld : c.Holds names e.type := ⟨e, List.mem_of_find?_eq_some he, of_decide_eq_true hnames, rfl⟩
      exact congrArg some (hheld.unique ho hc h)

/-- Looking a key up is looking its names up. -/
theorem get?_eq_types (hc : c.Keyed) (ho : c.Ordered) (hk : key.Numbered c.numbering) :
    c.get? key = c.types key.names := by
  cases hfound : c.get? key with
  | some type => exact ((types_eq_some_iff hc ho).2 (holds_of_get? hc hk hfound)).symm
  | none =>
    refine (Option.eq_none_iff_forall_ne_some.2 fun type htype => ?_).symm
    exact not_holds_of_get? hc hk hfound ((types_eq_some_iff hc ho).1 htype)

theorem contains_eq_types (hc : c.Keyed) (ho : c.Ordered) (hk : key.Numbered c.numbering) :
    c.contains key = (c.types key.names).isSome := by
  rw [← get?_eq_types hc ho hk, get?, Option.isSome_map, contains]

theorem types_put (hc : c.Keyed) (ho : c.Ordered) (hk : key.Numbered c.numbering) (type : EffectiveType) :
    (c.put key type).types = Function.update c.types key.names (some type) := by
  have hput := hc.put hk type
  have hordered := ho.put key type
  funext names
  by_cases hnames : names = key.names
  · rw [hnames, Function.update_self, types_eq_some_iff hput hordered]
    exact holds_put_self c key type
  · rw [Function.update_of_ne hnames]
    refine Option.ext fun type' => ?_
    rw [types_eq_some_iff hput hordered, types_eq_some_iff hc ho]
    refine ⟨fun h => ?_, holds_put_of_ne hc hk hnames⟩
    rcases holds_put h with ⟨hself, -⟩ | h
    · exact absurd hself hnames
    · exact h

/-! ### Removing from it -/

theorem types_erase (hc : c.Keyed) (ho : c.Ordered) (hk : key.Numbered c.numbering) :
    (c.erase key).types = Function.update c.types key.names none := by
  have herase : (c.erase key).Keyed := hc.filter _
  have hstays : ∀ e ∈ c.entries, (!e.key.same key) = true ↔ e.key.names ≠ key.names := fun e he => by
    have hiff := Key.same_iff hc.valid (hc.entries e he).key hk
    rw [Bool.not_eq_true', ← Bool.not_eq_true, hiff]
  funext names
  refine Option.ext fun type => ?_
  rw [types_eq_some_iff herase (ho.erase key)]
  have hheld : (c.erase key).Holds names type ↔ c.Holds names type ∧ names ≠ key.names :=
    holds_filter (q := fun names _ => names ≠ key.names) hstays
  by_cases hnames : names = key.names
  · rw [hnames, Function.update_self, ← hnames, hheld]
    simp [hnames]
  · rw [Function.update_of_ne hnames, types_eq_some_iff hc ho, hheld]
    simp [hnames]

theorem types_invalidate (hc : c.Keyed) (ho : c.Ordered) (n : Name) :
    (c.invalidate n).2.types = c.types.without n := by
  funext names
  refine Option.ext fun type => ?_
  rw [types_eq_some_iff (hc.invalidate n) (ho.invalidate n), holds_invalidate_iff hc, TypeMap.without,
    Option.filter_eq_some_iff, types_eq_some_iff hc ho, decide_eq_true_eq]

/-! ### Counting it -/

/-- No two entries have keys of the same names. -/
theorem nodup_names (hc : c.Keyed) (ho : c.Ordered) : (c.entries.map (·.key.names)).Nodup := by
  refine List.pairwise_map.2 (List.Pairwise.imp_of_mem (fun {a b} ha hb hlt => ?_) ho)
  intro heq
  rw [(Key.compare_eq_iff hc.valid (hc.entries a ha).key (hc.entries b hb).key).2 heq] at hlt
  cases hlt

/-- There are as many entries of a kind as sets of names that they are for. -/
theorem ncard_eq_countP (hc : c.Keyed) (ho : c.Ordered) (p : Entry → Bool) :
    {names | ∃ e ∈ c.entries, p e = true ∧ e.key.names = names}.ncard = c.entries.countP p := by
  have hnodup : ((c.entries.filter p).map (·.key.names)).Nodup :=
    (nodup_names hc ho).sublist (List.filter_sublist.map _)
  have hset : {names | ∃ e ∈ c.entries, p e = true ∧ e.key.names = names} =
      ((c.entries.filter p).map (·.key.names)).toFinset := by
    ext names
    simp [and_assoc]
  rw [hset, Set.ncard_coe_finset, List.toFinset_card_of_nodup hnodup, List.length_map,
    List.countP_eq_length_filter]

theorem mem_domain_iff (hc : c.Keyed) (ho : c.Ordered) :
    names ∈ c.types.domain ↔ ∃ e ∈ c.entries, e.key.names = names := by
  rw [TypeMap.domain, Set.mem_ofPred_eq, Option.isSome_iff_exists]
  constructor
  · rintro ⟨type, h⟩
    obtain ⟨e, he, hnames, -⟩ := (types_eq_some_iff hc ho).1 h
    exact ⟨e, he, hnames⟩
  · rintro ⟨e, he, hnames⟩
    exact ⟨e.type, (types_eq_some_iff hc ho).2 ⟨e, he, hnames, rfl⟩⟩

theorem ncard_domain (hc : c.Keyed) (ho : c.Ordered) : c.types.domain.ncard = c.size := by
  have hset : c.types.domain = {names | ∃ e ∈ c.entries, true = true ∧ e.key.names = names} := by
    ext names
    simp [mem_domain_iff hc ho]
  rw [hset, ncard_eq_countP hc ho fun _ => true, List.countP_true, size]

theorem ncard_dependents (hc : c.Keyed) (ho : c.Ordered) (n : Name) :
    (c.types.dependents n).ncard = (c.invalidate n).1 := by
  have hset : c.types.dependents n =
      {names | ∃ e ∈ c.entries, e.dependsOn n = true ∧ e.key.names = names} := by
    ext names
    constructor
    · rintro ⟨type, htype, hn⟩
      obtain ⟨e, he, rfl, rfl⟩ := (types_eq_some_iff hc ho).1 htype
      exact ⟨e, he, (dependsOn_iff (hc.entries e he)).2 hn, rfl⟩
    · rintro ⟨e, he, hn, rfl⟩
      exact ⟨e.type, (types_eq_some_iff hc ho).2 ⟨e, he, rfl, rfl⟩, (dependsOn_iff (hc.entries e he)).1 hn⟩
  rw [hset, ncard_eq_countP hc ho, invalidate]

end Cache

end ContentTypes
