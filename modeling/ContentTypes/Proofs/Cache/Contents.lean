import ContentTypes.Cache
import ContentTypes.Proofs.Key.Numbered

/-! # What a cache holds

A cache whose keys are numbered by its own numbering (`Cache.Keyed`) is read as a relation between sets
of names and effective types, `Cache.Holds`. Every operation keeps `Keyed`; what it does to the relation
is said by `holds_put`, `holds_put_self`, `holds_put_of_ne`, `holds_invalidate`, and what a look-up finds
by `holds_of_get?`, `not_holds_of_get?` and `holds_of_largest`. -/

namespace ContentTypes

namespace Cache

/-- A type is cached under a set of names. -/
def Holds (c : Cache) (names : NameSet) (type : EffectiveType) : Prop :=
  ∃ e ∈ c.entries, e.key.names = names ∧ e.type = type

/-- Both keys of the entry are keys of one set under the numbering. -/
structure Entry.Numbered (t : Numbering) (e : Entry) : Prop where
  key : e.key.Numbered t
  firstKey : e.firstKey.Numbered t
  names_eq : e.firstKey.names = e.key.names

/-- The numbering of the cache is valid and all keys are numbered by it. -/
structure Keyed (c : Cache) : Prop where
  valid : c.numbering.Valid
  entries : ∀ e ∈ c.entries, e.Numbered c.numbering

theorem keyed_empty : ({} : Cache).Keyed := ⟨Numbering.valid_empty, by simp⟩

theorem not_holds_empty (names : NameSet) (type : EffectiveType) :
    ¬ ({} : Cache).Holds names type := by
  rintro ⟨e, he, -⟩
  cases he

/-! ### Keys -/

theorem keyFor_keyed {c : Cache} (hc : c.Keyed) (names : List Name) : (c.keyFor names).2.Keyed := by
  obtain ⟨hv, hg, -, -⟩ := Numbering.keyFor_spec hc.valid names
  refine ⟨hv, fun e he => ?_⟩
  have h := hc.entries e he
  exact ⟨h.key.mono hg, h.firstKey.mono hg, h.names_eq⟩

theorem keyFor_grows {c : Cache} (hc : c.Keyed) (names : List Name) :
    c.numbering.Grows (c.keyFor names).2.numbering :=
  (Numbering.keyFor_spec hc.valid names).2.1

theorem keyFor_numbered {c : Cache} (hc : c.Keyed) (names : List Name) :
    (c.keyFor names).1.Numbered (c.keyFor names).2.numbering :=
  (Numbering.keyFor_spec hc.valid names).2.2.1

theorem names_keyFor (c : Cache) (names : List Name) :
    (c.keyFor names).1.names = .ofList names := rfl

theorem ofList_toList (s : NameSet) : NameSet.ofList s.toList = s :=
  NameSet.ext_mem fun _ => NameSet.mem_ofList

/-- The key that a type is cached under by `putMerged` is that of its merged types. -/
theorem names_keyFor_mergedTypes (c : Cache) (type : EffectiveType) :
    (c.keyFor type.mergedTypes.toList).1.names = type.mergedTypes :=
  ofList_toList type.mergedTypes

theorem holds_keyFor (c : Cache) (ns : List Name) (names : NameSet) (type : EffectiveType) :
    (c.keyFor ns).2.Holds names type ↔ c.Holds names type := Iff.rfl

/-! ### Putting -/

theorem mem_place {key : Key} {type : EffectiveType} {e : Entry} : ∀ {l : List Entry},
    e ∈ place key type l → e = ⟨key, key, type⟩ ∨
      (∃ f ∈ l, key.compare f.key = .eq ∧ e = ⟨key, f.firstKey, type⟩) ∨ e ∈ l
  | [], h => Or.inl (List.mem_singleton.1 h)
  | f :: l, h => by
    rw [place] at h
    split at h
    · rcases List.mem_cons.1 h with rfl | h
      · exact Or.inl rfl
      · exact Or.inr (Or.inr h)
    · next heq =>
      rcases List.mem_cons.1 h with rfl | h
      · exact Or.inr (Or.inl ⟨f, List.mem_cons_self, heq, rfl⟩)
      · exact Or.inr (Or.inr (List.mem_cons_of_mem f h))
    · rcases List.mem_cons.1 h with rfl | h
      · exact Or.inr (Or.inr List.mem_cons_self)
      · rcases mem_place h with rfl | ⟨g, hg, heq, rfl⟩ | h
        · exact Or.inl rfl
        · exact Or.inr (Or.inl ⟨g, List.mem_cons_of_mem f hg, heq, rfl⟩)
        · exact Or.inr (Or.inr (List.mem_cons_of_mem f h))

theorem exists_mem_place (key : Key) (type : EffectiveType) : ∀ l : List Entry,
    ∃ e ∈ place key type l, e.key = key ∧ e.type = type
  | [] => ⟨_, List.mem_singleton_self _, rfl, rfl⟩
  | f :: l => by
    rw [place]
    split
    · exact ⟨_, List.mem_cons_self, rfl, rfl⟩
    · exact ⟨_, List.mem_cons_self, rfl, rfl⟩
    · obtain ⟨e, he, h⟩ := exists_mem_place key type l
      exact ⟨e, List.mem_cons_of_mem f he, h⟩

theorem mem_place_of_ne {key : Key} {type : EffectiveType} {e : Entry}
    (hne : key.compare e.key ≠ .eq) : ∀ {l : List Entry}, e ∈ l → e ∈ place key type l
  | f :: l, h => by
    rw [place]
    split
    · exact List.mem_cons_of_mem _ h
    · next heq =>
      rcases List.mem_cons.1 h with rfl | h
      · exact absurd heq hne
      · exact List.mem_cons_of_mem _ h
    · rcases List.mem_cons.1 h with rfl | h
      · exact List.mem_cons_self
      · exact List.mem_cons_of_mem _ (mem_place_of_ne hne h)

variable {c : Cache} {key : Key} {names : NameSet} {type type' : EffectiveType}

theorem Keyed.put (hc : c.Keyed) (hk : key.Numbered c.numbering) (type : EffectiveType) :
    (c.put key type).Keyed := by
  refine ⟨hc.valid, fun e he => ?_⟩
  rcases mem_place he with rfl | ⟨f, hf, heq, rfl⟩ | he
  · exact ⟨hk, hk, rfl⟩
  · have h := hc.entries f hf
    have hnames := (Key.compare_eq_iff hc.valid hk h.key).1 heq
    exact ⟨hk, h.firstKey, h.names_eq.trans hnames.symm⟩
  · exact hc.entries e he

/-- What is held after putting is what was put or was held before. -/
theorem holds_put (h : (c.put key type).Holds names type') :
    (names = key.names ∧ type' = type) ∨ c.Holds names type' := by
  obtain ⟨e, he, rfl, rfl⟩ := h
  rcases mem_place he with rfl | ⟨f, -, -, rfl⟩ | he
  · exact Or.inl ⟨rfl, rfl⟩
  · exact Or.inl ⟨rfl, rfl⟩
  · exact Or.inr ⟨e, he, rfl, rfl⟩

theorem holds_put_self (c : Cache) (key : Key) (type : EffectiveType) :
    (c.put key type).Holds key.names type := by
  obtain ⟨e, he, hk, ht⟩ := exists_mem_place key type c.entries
  exact ⟨e, he, by rw [hk], ht⟩

/-- Putting under one set of names takes no other set away. -/
theorem holds_put_of_ne (hc : c.Keyed) (hk : key.Numbered c.numbering) (hne : names ≠ key.names)
    (h : c.Holds names type') : (c.put key type).Holds names type' := by
  obtain ⟨e, he, rfl, rfl⟩ := h
  refine ⟨e, mem_place_of_ne (fun heq => hne ?_) he, rfl, rfl⟩
  exact ((Key.compare_eq_iff hc.valid hk (hc.entries e he).key).1 heq).symm

/-- Putting a type takes it away nowhere. -/
theorem holds_put_same (hc : c.Keyed) (hk : key.Numbered c.numbering) (h : c.Holds names type) :
    (c.put key type).Holds names type := by
  by_cases hne : names = key.names
  · rw [hne]
    exact holds_put_self c key type
  · exact holds_put_of_ne hc hk hne h

/-- Putting takes no set of names away. -/
theorem exists_holds_put (hc : c.Keyed) (hk : key.Numbered c.numbering)
    (h : ∃ type', c.Holds names type') : ∃ type', (c.put key type).Holds names type' := by
  obtain ⟨type', h⟩ := h
  by_cases hne : names = key.names
  · exact ⟨type, hne ▸ holds_put_self c key type⟩
  · exact ⟨type', holds_put_of_ne hc hk hne h⟩

/-! ### Looking up -/

/-- What is found depends on the bits of a key alone. -/
theorem find?_of_bits (c : Cache) {k l : Key} (h : ∀ b, hasBit k.words b = hasBit l.words b) :
    c.find? k = c.find? l := by
  have hsame : ∀ j : Key, j.same k = j.same l := fun j => by
    rw [Bool.eq_iff_iff, Key.same_iff_bits, Key.same_iff_bits]
    simp only [h]
  simp only [find?, hsame]

theorem findBest?_of_bits (c : Cache) {k l : Key} (h : ∀ b, hasBit k.words b = hasBit l.words b) :
    c.findBest? k = c.findBest? l := by
  have hcontains : ∀ j : Key, k.contains j = l.contains j := fun j => by
    rw [Bool.eq_iff_iff, Key.contains, Key.contains, all_contains_iff, all_contains_iff]
    simp only [h]
  simp only [findBest?, c.find?_of_bits h, hcontains]

/-- Keys of one set of names have the same bits, whenever they were made. -/
theorem findBest?_keyFor (hc : c.Keyed) (names : List Name) :
    ((c.keyFor names).2.keyFor names).2.findBest? ((c.keyFor names).2.keyFor names).1 =
      (c.keyFor names).2.findBest? (c.keyFor names).1 := by
  have hc₁ := keyFor_keyed hc names
  have hc₂ := keyFor_keyed hc₁ names
  have hk₁ := (keyFor_numbered hc names).mono (keyFor_grows hc₁ names)
  have hbits := (Key.bits_eq_iff hc₂.valid (keyFor_numbered hc₁ names) hk₁).2 rfl
  exact (c.keyFor names).2.findBest?_of_bits hbits

theorem holds_of_get? (hc : c.Keyed) (hk : key.Numbered c.numbering) (h : c.get? key = some type) :
    c.Holds key.names type := by
  obtain ⟨e, he, rfl⟩ := Option.map_eq_some_iff.1 h
  have hmem := List.mem_of_find?_eq_some he
  have hsame := List.find?_some he
  exact ⟨e, hmem, (Key.same_iff hc.valid (hc.entries e hmem).key hk).1 hsame, rfl⟩

theorem not_holds_of_get? (hc : c.Keyed) (hk : key.Numbered c.numbering) (h : c.get? key = none) :
    ¬ c.Holds key.names type := by
  rintro ⟨e, he, hnames, -⟩
  rw [get?, Option.map_eq_none_iff, find?, List.find?_eq_none] at h
  exact h e he ((Key.same_iff hc.valid (hc.entries e he).key hk).2 hnames)

/-- What the search gives is the key that it finds and what is found under it. -/
theorem found_of_largest {best : Key}
    (h : ((c.findBest? key).bind fun best => (c.get? best).map (best, ·)) = some (best, type)) :
    c.findBest? key = some best ∧ c.get? best = some type := by
  obtain ⟨b, hb, h⟩ := Option.bind_eq_some_iff.1 h
  obtain ⟨ty, hty, heq⟩ := Option.map_eq_some_iff.1 h
  obtain ⟨rfl, rfl⟩ := Prod.mk.inj heq
  exact ⟨hb, hty⟩

/-- The key that `findBest?` gives is that of a held subset. -/
theorem holds_of_largest {best : Key} (hc : c.Keyed) (hk : key.Numbered c.numbering)
    (h : ((c.findBest? key).bind fun best => (c.get? best).map (best, ·)) = some (best, type)) :
    best.Numbered c.numbering ∧ (∀ n ∈ best.names, n ∈ key.names) ∧ c.Holds best.names type := by
  obtain ⟨hb, hty⟩ := found_of_largest h
  suffices hb' : best.Numbered c.numbering ∧ ∀ n ∈ best.names, n ∈ key.names from
    ⟨hb'.1, hb'.2, holds_of_get? hc hb'.1 hty⟩
  rw [findBest?] at hb
  split at hb
  · next e he =>
    obtain rfl := Option.some.inj hb
    have hmem := List.mem_of_find?_eq_some he
    have hsame := List.find?_some he
    have hn := hc.entries e hmem
    refine ⟨hn.firstKey, fun n hin => ?_⟩
    rw [← (Key.same_iff hc.valid hn.key hk).1 hsame, ← hn.names_eq]
    exact hin
  · obtain ⟨e, he, rfl⟩ := Option.map_eq_some_iff.1 hb
    have hmem := List.mem_of_find?_eq_some he
    have hcont := List.find?_some he
    have hn := hc.entries e hmem
    exact ⟨hn.key, (Key.contains_iff hc.valid hk hn.key).1 hcont⟩

/-! ### Removing -/

theorem Keyed.filter (hc : c.Keyed) (p : Entry → Bool) :
    ({ c with entries := c.entries.filter p } : Cache).Keyed :=
  ⟨hc.valid, fun e he => hc.entries e (List.mem_filter.1 he).1⟩

theorem Keyed.invalidate (hc : c.Keyed) (n : Name) : (c.invalidate n).2.Keyed := hc.filter _

/-- What is held after removing entries is what entries hold that stay. -/
theorem holds_filter {p : Entry → Bool} {q : NameSet → EffectiveType → Prop}
    (hp : ∀ e ∈ c.entries, p e = true ↔ q e.key.names e.type) :
    ({ c with entries := c.entries.filter p } : Cache).Holds names type ↔
      c.Holds names type ∧ q names type := by
  constructor
  · rintro ⟨e, he, rfl, rfl⟩
    obtain ⟨he, hpe⟩ := List.mem_filter.1 he
    exact ⟨⟨e, he, rfl, rfl⟩, (hp e he).1 hpe⟩
  · rintro ⟨⟨e, he, rfl, rfl⟩, hq⟩
    exact ⟨e, List.mem_filter.2 ⟨he, (hp e he).2 hq⟩, rfl, rfl⟩

theorem dependsOn_iff {e : Entry} {n : Name} (he : e.Numbered c.numbering) :
    e.dependsOn n = true ↔ n ∈ e.key.names ∨ n ∈ e.type.allTypes := by
  rw [Entry.dependsOn, Bool.or_eq_true, EffectiveType.includes_iff, Key.includes, NameSet.contains_iff,
    he.names_eq, or_comm]

/-- Invalidating a name takes away exactly what depends on it. -/
theorem holds_invalidate_iff (hc : c.Keyed) {n : Name} : (c.invalidate n).2.Holds names type ↔
    c.Holds names type ∧ ¬ (n ∈ names ∨ n ∈ type.allTypes) := by
  refine holds_filter (q := fun names type => ¬ (n ∈ names ∨ n ∈ type.allTypes)) fun e he => ?_
  rw [Bool.not_eq_true', ← Bool.not_eq_true, dependsOn_iff (hc.entries e he)]

/-- What is still held after invalidating a name does not include it. -/
theorem holds_invalidate {n : Name} (h : (c.invalidate n).2.Holds names type) :
    c.Holds names type ∧ n ∉ type.allTypes := by
  obtain ⟨e, he, rfl, rfl⟩ := h
  obtain ⟨he, hdep⟩ := List.mem_filter.1 he
  refine ⟨⟨e, he, rfl, rfl⟩, fun hn => ?_⟩
  simp [Entry.dependsOn, EffectiveType.includes_iff.2 hn] at hdep

/-- Invalidating a name takes away only what depends on it. -/
theorem holds_invalidate_of (hc : c.Keyed) {n : Name} (h : c.Holds names type) (ht : n ∉ type.allTypes)
    (hn : n ∉ names) : (c.invalidate n).2.Holds names type :=
  (holds_invalidate_iff hc).2 ⟨h, not_or.2 ⟨hn, ht⟩⟩

end Cache

end ContentTypes
