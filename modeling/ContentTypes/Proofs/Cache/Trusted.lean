import ContentTypes.Proofs.Cache.Contents
import ContentTypes.Proofs.Effective.Harmony

/-! # Caches that can be trusted

After a change of its declaration a name is *pending* until it is invalidated. An effective type
`Answers` for a set of names if it includes them and is their effective type under the declarations now,
unless one of its types is pending. A cache is `Trusted` if every type in it answers for the names it is
cached under, and at least `Sturdy`, which says nothing of the declarations now. The merged types of an
answer are answered for too (`Answers.merged`), and answers are combined by merging (`Answers.merge`,
`Answers.declared`), so whatever is made of the contents of a trusted cache can be put back
(`Trusted.put`, `Trusted.putMerged`). -/

namespace ContentTypes

open EffectiveType

namespace Registry

/-- **`e` answers for the set `s`**: it is made of declarations and includes `s`, and unless one of its
types is pending it is the effective type of `s`, whose inheritance is sound. -/
structure Answers (r : Registry) (pending : Set Name) (s : Set Name) (e : EffectiveType) : Prop where
  built : Built e
  includes : ∀ n ∈ s, n ∈ e.allTypes
  yields : (∀ t ∈ e.allTypes, t ∉ pending) → r.Yields s e ∧ r.Sound s

variable {r : Registry} {pending : Set Name} {s s' z : Set Name} {n : Name} {d : Declaration}
  {e o m : EffectiveType}

theorem Answers.merged (h : r.Answers pending s e) : r.Answers pending {n | n ∈ e.mergedTypes} e where
  built := h.built
  includes n hn := (h.built.wellFormed.all_iff n).2 (Or.inl hn)
  yields hp := by
    obtain ⟨hy, hs⟩ := h.yields hp
    exact ⟨hy.of_merged h.built.wellFormed,
      hs.mono fun n hn => r.subset_closure s (hy.merged_mem n hn)⟩

theorem Answers.merge (he : r.Answers pending s e) (ho : r.Answers pending s' o)
    (hs : r.Sound (s ∪ s')) (h : e.merge o .aggregate = .ok m) : r.Answers pending (s ∪ s') m := by
  have hm := merges_of_merge he.built.wellFormed.toTidy ho.built.wellFormed h
  refine ⟨he.built.merge ho.built h, fun n hn => (hm.all_iff n).2 ?_, fun hp => ?_⟩
  · exact hn.imp (he.includes n) (ho.includes n)
  · have hye := he.yields fun t ht => hp t ((hm.all_iff t).2 (Or.inl ht))
    have hyo := ho.yields fun t ht => hp t ((hm.all_iff t).2 (Or.inr ht))
    exact ⟨hye.1.merge he.built.wellFormed ho.built.wellFormed hyo.1 h, hs⟩

/-- The type of a declaration without supertypes answers for its name. -/
theorem Answers.root (hs : r.Sound {n}) (hd : r.find? n = some d) (hnil : d.supertypes = [])
    (h : ofDeclaration d = .ok e) : r.Answers pending {n} e where
  built := .ofDeclaration h
  includes _ ht := (mem_allTypes_ofDeclaration h).2 (ht.trans (name_of_find? hd).symm)
  yields _ := ⟨yields_root hd hnil h, hs⟩

/-- A declaration merged with what answers for its supertypes answers for its name. -/
theorem Answers.declared (hs : r.Sound {n}) (hd : r.find? n = some d) (hne : d.supertypes ≠ [])
    (he : ofDeclaration d = .ok e) (ho : r.Answers pending {u | u ∈ d.supertypes} o)
    (h : e.merge o .supertype = .ok m) : r.Answers pending {n} m := by
  have hw := wellFormed_ofDeclaration he
  have hm := merges_of_merge hw.toTidy ho.built.wellFormed h
  refine ⟨(Built.ofDeclaration he).merge ho.built h, fun t ht => ?_, fun hp => ⟨?_, hs⟩⟩
  · obtain rfl := Set.mem_singleton_iff.1 ht
    exact (hm.all_iff t).2 (Or.inl ((mem_allTypes_ofDeclaration he).2 (name_of_find? hd).symm))
  · have hyo := ho.yields fun t ht => hp t ((hm.all_iff t).2 (Or.inr ht))
    exact yields_declared hd (hs.acyclic n (r.subset_closure _ rfl)) hne he ho.built.wellFormed hyo.1 h

/-- An answer stays one under other declarations and with other names pending, if among its types only
pending ones have changed. -/
theorem Answers.change {r' : Registry} {pending' : Set Name} (h : r.Answers pending s e)
    (hp : ∀ t ∈ e.allTypes, t ∉ pending' → t ∉ pending ∧ r.find? t = r'.find? t) :
    r'.Answers pending' s e where
  built := h.built
  includes := h.includes
  yields hno := by
    obtain ⟨hy, hs⟩ := h.yields fun t ht => (hp t ht (hno t ht)).1
    -- its types are the whole closure, so nothing in the closure has changed
    have hagree : r.AgreeOn r' (r.closure s) := fun t ht => by
      have hte := (hy.all_iff t).2 ht
      exact (hp t hte (hno t hte)).2
    exact ⟨hy.congr hagree, hs.congr hagree⟩

end Registry

namespace Cache

variable {c : Cache} {r : Registry} {pending : Set Name} {key : Key} {type : EffectiveType}

/-! ### Sturdy caches -/

/-- **A sturdy cache**: its keys are numbered by it and not empty, and its types are made of declarations. -/
structure Sturdy (c : Cache) : Prop where
  keyed : c.Keyed
  nonempty : ∀ {names type}, c.Holds names type → ∃ n, n ∈ names
  built : ∀ {names type}, c.Holds names type → Built type

theorem Sturdy.keyFor (h : c.Sturdy) (names : List Name) : (c.keyFor names).2.Sturdy where
  keyed := keyFor_keyed h.keyed names
  nonempty hh := h.nonempty ((holds_keyFor c names _ _).1 hh)
  built hh := h.built ((holds_keyFor c names _ _).1 hh)

theorem Sturdy.put (h : c.Sturdy) (hk : key.Numbered c.numbering) (hne : ∃ n, n ∈ key.names)
    (ht : Built type) : (c.put key type).Sturdy where
  keyed := h.keyed.put hk type
  nonempty hh := by
    rcases holds_put hh with ⟨rfl, -⟩ | hh
    · exact hne
    · exact h.nonempty hh
  built hh := by
    rcases holds_put hh with ⟨-, rfl⟩ | hh
    · exact ht
    · exact h.built hh

/-- No entry of a sturdy cache has an empty key. -/
theorem Sturdy.isEmpty_key (h : c.Sturdy) {e : Entry} (he : e ∈ c.entries) :
    e.key.isEmpty = false ∧ e.firstKey.isEmpty = false := by
  obtain ⟨hkey, hfirst, hnames⟩ := h.keyed.entries e he
  obtain ⟨n, hn⟩ := h.nonempty ⟨e, he, rfl, rfl⟩
  rw [Bool.eq_false_iff, Bool.eq_false_iff, ne_eq, ne_eq, Key.isEmpty_iff hkey, Key.isEmpty_iff hfirst,
    hnames]
  exact ⟨fun h => h n hn, fun h => h n hn⟩

/-! ### Trusted caches -/

/-- **A cache that can be trusted**: its keys are numbered by it and not empty, and what is held under a
set of names answers for it. -/
structure Trusted (c : Cache) (r : Registry) (pending : Set Name) : Prop where
  keyed : c.Keyed
  nonempty : ∀ {names type}, c.Holds names type → ∃ n, n ∈ names
  answers : ∀ {names type}, c.Holds names type → r.Answers pending {n | n ∈ names} type

/-- What is trusted is sturdy, whatever is pending. -/
theorem Trusted.sturdy (h : c.Trusted r pending) : c.Sturdy :=
  ⟨h.keyed, h.nonempty, fun hh => (h.answers hh).built⟩

theorem trusted_empty (r : Registry) (pending : Set Name) : ({} : Cache).Trusted r pending where
  keyed := keyed_empty
  nonempty h := absurd h (not_holds_empty _ _)
  answers h := absurd h (not_holds_empty _ _)

theorem Trusted.keyFor (h : c.Trusted r pending) (names : List Name) :
    (c.keyFor names).2.Trusted r pending where
  keyed := keyFor_keyed h.keyed names
  nonempty := (h.sturdy.keyFor names).nonempty
  answers hh := h.answers ((holds_keyFor c names _ _).1 hh)

theorem Trusted.put (h : c.Trusted r pending) (hk : key.Numbered c.numbering)
    (hne : ∃ n, n ∈ key.names) (ht : r.Answers pending {n | n ∈ key.names} type) :
    (c.put key type).Trusted r pending where
  keyed := h.keyed.put hk type
  nonempty := (h.sturdy.put hk hne ht.built).nonempty
  answers hh := by
    rcases holds_put hh with ⟨rfl, rfl⟩ | hh
    · exact ht
    · exact h.answers hh

/-- A type that answers for something may be cached under its merged types. -/
theorem Trusted.putMerged {s : Set Name} (h : c.Trusted r pending) (ht : r.Answers pending s type) :
    (c.putMerged type).2.Trusted r pending := by
  have hnames := c.names_keyFor_mergedTypes type
  have hne : ∃ n, n ∈ (c.keyFor type.mergedTypes.toList).1.names := by
    rw [hnames]
    exact ht.built.wellFormed.merged
  have hans : r.Answers pending {n | n ∈ (c.keyFor type.mergedTypes.toList).1.names} type := by
    rw [hnames]
    exact ht.merged
  exact (h.keyFor _).put (keyFor_numbered h.keyed _) hne hans

/-- A cache stays trusted if among the types that are held only pending ones have changed. -/
theorem Trusted.change {r' : Registry} {pending' : Set Name} (h : c.Trusted r pending)
    (hp : ∀ {names type}, c.Holds names type → ∀ t ∈ type.allTypes, t ∉ pending' →
      t ∉ pending ∧ r.find? t = r'.find? t) : c.Trusted r' pending' where
  keyed := h.keyed
  nonempty := h.nonempty
  answers hh := (h.answers hh).change (hp hh)

theorem Trusted.invalidate (h : c.Trusted r pending) (n : Name) :
    (c.invalidate n).2.Trusted r pending where
  keyed := h.keyed.invalidate n
  nonempty hh := h.nonempty (holds_invalidate hh).1
  answers hh := h.answers (holds_invalidate hh).1

end Cache

end ContentTypes
