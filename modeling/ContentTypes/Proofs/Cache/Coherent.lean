import ContentTypes.Proofs.Cache.Order
import ContentTypes.Proofs.Effective.TypeSets

/-! # Coherent caches

What is cached need not agree with the declarations now: a name may have been registered anew and not
invalidated since. Still, all cached types agree with each other. A cache is `Coherent` with a registry, if
every type in it is the effective type of the names it is cached under, by the declarations of that
registry; and every type that one of them includes is cached by itself. So a declaration that is read later
is one of a type that nothing cached includes, and the registry can be brought up to date for it
(`Coherent.update`).

A cached type can be replaced by another one. What is cached in a cache `Keeps` if it is cached in a later one
too, as it was or followed by a type that is alike; it is another type only if the old one was `Exposed` to a
list of names that was merged in the meantime. -/

namespace ContentTypes

open EffectiveType

namespace Cache

/-- A type is cached by itself. -/
def Knows (c : Cache) (n : Name) : Prop := ∃ e, c.Holds (.singleton n) e

/-- **`e` fits into the cache** as effective type of the set `s` under the declarations of `w`: the types
that it includes are cached by themselves, and if it merges a single one, it is what is cached for that. -/
structure Fits (c : Cache) (w : Registry) (s : Set Name) (e : EffectiveType) : Prop where
  built : Built e
  yields : w.Yields s e
  closed : ∀ t ∈ e.allTypes, c.Knows t
  single : ∀ n, e.mergedTypes = .singleton n → c.Holds (.singleton n) e

/-- **A coherent cache**: what is held under a set of names fits into it as effective type of the set. -/
structure Coherent (c : Cache) (w : Registry) : Prop where
  keyed : c.Keyed
  ordered : c.Ordered
  nonempty : ∀ {names type}, c.Holds names type → ∃ n, n ∈ names
  fits : ∀ {names type}, c.Holds names type → c.Fits w {n | n ∈ names} type

variable {c c' : Cache} {w w' v r : Registry} {s s' : Set Name} {e o m type old : EffectiveType}
  {key : Key} {n : Name} {names : NameSet}

/-! ### Fitting types -/

theorem Fits.wellFormed (h : c.Fits w s e) : e.WellFormed := h.built.wellFormed

theorem Fits.mono (h : c.Fits w s e) (hc : ∀ n o, c.Holds (.singleton n) o → c'.Holds (.singleton n) o) :
    c'.Fits w s e where
  built := h.built
  yields := h.yields
  closed t ht := by
    obtain ⟨o, ho⟩ := h.closed t ht
    exact ⟨o, hc t o ho⟩
  single n hn := hc n e (h.single n hn)

theorem Fits.merged (h : c.Fits w s e) : c.Fits w {n | n ∈ e.mergedTypes} e :=
  ⟨h.built, h.yields.of_merged h.wellFormed, h.closed, h.single⟩

/-- The registry matters only for types that are cached. -/
theorem Fits.congr (h : c.Fits w s e) (hw : ∀ n, c.Knows n → w.find? n = w'.find? n) :
    c.Fits w' s e where
  built := h.built
  yields := h.yields.congr fun t ht => hw t (h.closed t ((h.yields.all_iff t).2 ht))
  closed := h.closed
  single := h.single

theorem setOf_names (h : names = .singleton n) : {t | t ∈ names} = ({n} : Set Name) := by
  rw [h]
  exact Set.ext fun _ => NameSet.mem_singleton

/-- A type of one name merges that name alone. -/
theorem mergedTypes_eq_singleton (he : e.WellFormed) (h : ∀ t ∈ e.mergedTypes, t = n) :
    e.mergedTypes = .singleton n := by
  obtain ⟨t, ht⟩ := he.merged
  refine NameSet.ext_mem fun u => ⟨fun hu => NameSet.mem_singleton.2 (h u hu), fun hu => ?_⟩
  rw [NameSet.mem_singleton.1 hu, ← h t ht]
  exact ht

namespace Coherent

theorem unique (h : c.Coherent w) (he : c.Holds names e) (ho : c.Holds names o) : e = o :=
  he.unique h.ordered h.keyed ho

/-- What fits as effective type of a single name is what is held for the name. -/
theorem eq_of_single (h : c.Coherent w) (he : c.Fits w {n} e) (ho : c.Holds (.singleton n) o) : e = o :=
  h.unique (he.single n (mergedTypes_eq_singleton he.wellFormed he.yields.merged_mem)) ho

/-- **Fitting types merged** fit as effective type of the union. -/
theorem merge (h : c.Coherent w) (he : c.Fits w s e) (ho : c.Fits w s' o)
    (hm : e.merge o .aggregate = .ok m) : c.Fits w (s ∪ s') m := by
  have hmerges := merges_of_merge he.wellFormed.toTidy ho.wellFormed hm
  have hbuilt := he.built.merge ho.built hm
  refine ⟨hbuilt, he.yields.merge he.wellFormed ho.wellFormed ho.yields hm, fun t ht => ?_,
    fun n hn => ?_⟩
  · exact ((hmerges.all_iff t).1 ht).elim (he.closed t) (ho.closed t)
  · rcases hmerges.types with ⟨-, rfl⟩ | ⟨⟨t, hto, hte⟩, hmerged, -⟩
    · exact he.single n hn
    · -- both merge `n` alone, so they are the same type, and there is nothing new
      have hone : ∀ t, t ∈ e.mergedTypes ∨ t ∈ o.mergedTypes → t = n := fun t ht => by
        rw [← hmerged, hn] at ht
        exact NameSet.mem_singleton.1 ht
      have hen := he.single n (mergedTypes_eq_singleton he.wellFormed fun t ht => hone t (Or.inl ht))
      have hon := ho.single n (mergedTypes_eq_singleton ho.wellFormed fun t ht => hone t (Or.inr ht))
      rw [h.unique hen hon] at hte
      exact absurd hto hte

/-! ### Operations -/

theorem keyFor (h : c.Coherent w) (names : List Name) : (c.keyFor names).2.Coherent w where
  keyed := keyFor_keyed h.keyed names
  ordered := h.ordered
  nonempty hh := h.nonempty ((holds_keyFor c names _ _).1 hh)
  fits hh := (h.fits ((holds_keyFor c names _ _).1 hh)).mono fun _ _ ho => ho

/-- What is held for single names stays, if a type that is put for a single name is the one held. -/
theorem holds_single_put (h : c.Coherent w) (hk : key.Numbered c.numbering)
    (hsame : ∀ n old, key.names = .singleton n → c.Holds (.singleton n) old → old = type)
    (hn : c.Holds (.singleton n) o) : (c.put key type).Holds (.singleton n) o := by
  by_cases hname : key.names = .singleton n
  · rw [hsame n o hname hn, ← hname]
    exact holds_put_self c key type
  · exact holds_put_of_ne h.keyed hk (Ne.symm hname) hn

theorem put_of_fits_after (h : c.Coherent w) (hk : key.Numbered c.numbering)
    (hne : ∃ n, n ∈ key.names)
    (hsame : ∀ n old, key.names = .singleton n → c.Holds (.singleton n) old → old = type)
    (hfits : (c.put key type).Fits w {n | n ∈ key.names} type) : (c.put key type).Coherent w where
  keyed := h.keyed.put hk type
  ordered := h.ordered.put key type
  nonempty hh := by
    rcases holds_put hh with ⟨rfl, -⟩ | hh
    · exact hne
    · exact h.nonempty hh
  fits hh := by
    rcases holds_put hh with ⟨rfl, rfl⟩ | hh
    · exact hfits
    · exact (h.fits hh).mono fun _ _ ho => h.holds_single_put hk hsame ho

/-- What fits for a single name already is what is held for it. -/
theorem same_of_fits (h : c.Coherent w) (hfits : c.Fits w {n | n ∈ key.names} type) :
    ∀ n old, key.names = .singleton n → c.Holds (.singleton n) old → old = type := by
  intro n old hname hold
  rw [setOf_names hname] at hfits
  exact (h.eq_of_single hfits hold).symm

/-- **A type that fits may be put.** -/
theorem put (h : c.Coherent w) (hk : key.Numbered c.numbering) (hne : ∃ n, n ∈ key.names)
    (hfits : c.Fits w {n | n ∈ key.names} type) : (c.put key type).Coherent w := by
  have hsame := h.same_of_fits hfits
  exact h.put_of_fits_after hk hne hsame (hfits.mono fun _ _ ho => h.holds_single_put hk hsame ho)

/-- **A type that is new to the cache may be put**, once the types above it are cached. -/
theorem put_new (h : c.Coherent w) (hk : key.Numbered c.numbering) (hname : key.names = .singleton n)
    (hnew : ¬ c.Knows n) (hbuilt : Built type) (hyields : w.Yields {n} type)
    (hclosed : ∀ t ∈ type.allTypes, t = n ∨ c.Knows t) :
    (c.put key type).Coherent w ∧ (c.put key type).Fits w {n} type := by
  have hsame : ∀ m old, key.names = .singleton m → c.Holds (.singleton m) old → old = type := by
    intro m old hm hold
    have hmn : m ∈ NameSet.singleton n := by
      rw [← hname, hm]
      exact NameSet.mem_singleton.2 rfl
    rw [NameSet.mem_singleton.1 hmn] at hold
    exact absurd ⟨old, hold⟩ hnew
  have hself : (c.put key type).Holds (.singleton n) type := by
    rw [← hname]
    exact holds_put_self c key type
  have hfits : (c.put key type).Fits w {n} type := by
    refine ⟨hbuilt, hyields, fun t ht => ?_, fun m hm => ?_⟩
    · rcases hclosed t ht with rfl | ⟨o, ho⟩
      · exact ⟨type, hself⟩
      · exact ⟨o, h.holds_single_put hk hsame ho⟩
    · have hmn : m ∈ type.mergedTypes := by
        rw [hm]
        exact NameSet.mem_singleton.2 rfl
      rw [hyields.merged_mem m hmn]
      exact hself
  refine ⟨h.put_of_fits_after hk ⟨n, by simp [hname]⟩ hsame ?_, hfits⟩
  rw [setOf_names hname]
  exact hfits

theorem invalidate (h : c.Coherent w) (n : Name) : (c.invalidate n).2.Coherent w where
  keyed := h.keyed.invalidate n
  ordered := h.ordered.invalidate n
  nonempty hh := h.nonempty (holds_invalidate hh).1
  fits {names type} hh := by
    obtain ⟨hheld, hno⟩ := holds_invalidate hh
    have hfits := h.fits hheld
    -- what is cached for a type that is included does not include `n` either
    have hkeep : ∀ t o, t ∈ type.allTypes → c.Holds (.singleton t) o →
        (c.invalidate n).2.Holds (.singleton t) o := fun t o ht ho => by
      refine holds_invalidate_of h.keyed ho (fun hn => hno ?_) fun hn => hno ?_
      · have hclosure := ((h.fits ho).yields.all_iff n).1 hn
        rw [hfits.yields.all_iff] at ht ⊢
        refine Registry.closure_subset (fun u hu => ?_) hclosure
        rw [NameSet.mem_singleton.1 hu]
        exact ht
      · rw [NameSet.mem_singleton.1 hn]
        exact ht
    refine ⟨hfits.built, hfits.yields, fun t ht => ?_, fun m hm => ?_⟩
    · obtain ⟨o, ho⟩ := hfits.closed t ht
      exact ⟨o, hkeep t o ht ho⟩
    · refine hkeep m type ((hfits.wellFormed.all_iff m).2 (Or.inl ?_)) (hfits.single m hm)
      rw [hm]
      exact NameSet.mem_singleton.2 rfl

end Coherent

theorem coherent_empty (w : Registry) : ({} : Cache).Coherent w where
  keyed := keyed_empty
  ordered := ordered_empty
  nonempty h := absurd h (not_holds_empty _ _)
  fits h := absurd h (not_holds_empty _ _)

/-! ### Bringing the registry up to date -/

/-- A registry with the declarations of `v` for some names and those of `r` for all others. -/
theorem exists_overlay (v r : Registry) : ∀ names : List Name,
    ∃ w : Registry, (∀ n ∈ names, w.find? n = v.find? n) ∧ ∀ n, n ∉ names → w.find? n = r.find? n
  | [] => ⟨r, by simp, fun _ _ => rfl⟩
  | m :: names => by
    obtain ⟨w, hin, hout⟩ := exists_overlay v r names
    obtain ⟨w', hself, hother⟩ : ∃ w' : Registry, w'.find? m = v.find? m ∧
        ∀ n, n ≠ m → w'.find? n = w.find? n := by
      cases hd : v.find? m with
      | some d =>
        have hname := Registry.name_of_find? hd
        refine ⟨w.register d, ?_, fun n hn => w.find?_register_of_ne (hname ▸ hn)⟩
        simp [Registry.find?, Registry.register, hname]
      | none =>
        exact ⟨w.unregister m, by simp [Registry.find?, Registry.unregister],
          fun n hn => w.find?_unregister_of_ne hn⟩
    refine ⟨w', fun n hn => ?_, fun n hn => ?_⟩
    · by_cases hnm : n = m
      · rw [hnm, hself]
      · rw [hother n hnm, hin n ((List.mem_cons.1 hn).resolve_left hnm)]
    · rw [hother n fun hnm => hn (hnm ▸ List.mem_cons_self),
        hout n fun h => hn (List.mem_cons_of_mem m h)]

/-- The names that are cached by themselves, as a list. -/
theorem exists_known (c : Cache) : ∃ names : List Name, ∀ n, n ∈ names ↔ c.Knows n := by
  classical
  refine ⟨(c.entries.flatMap (·.key.names.toList)).filter (c.Knows ·), fun n => ?_⟩
  rw [List.mem_filter, decide_eq_true_iff]
  refine and_iff_right_of_imp ?_
  rintro ⟨_, e, he, hnames, -⟩
  refine List.mem_flatMap.2 ⟨e, he, ?_⟩
  rw [hnames]
  exact NameSet.mem_singleton.2 rfl

/-- **A coherent cache is coherent with a registry that is up to date** for every type not cached by
itself. -/
theorem Coherent.update (h : c.Coherent v) (r : Registry) :
    ∃ w, c.Coherent w ∧ ∀ n, ¬ c.Knows n → w.find? n = r.find? n := by
  obtain ⟨known, hknown⟩ := c.exists_known
  obtain ⟨w, hin, hout⟩ := exists_overlay v r known
  refine ⟨w, ⟨h.keyed, h.ordered, h.nonempty, fun hh => ?_⟩, fun n hn => hout n (hn ∘ (hknown n).1)⟩
  exact (h.fits hh).congr fun n hn => (hin n ((hknown n).2 hn)).symm

/-! ### What becomes of cached types -/

section keeping
variable {begins : List Name → NameSet → Prop} {c'' c₀ : Cache} {e' e'' : EffectiveType}

/-- **Another part of a list rivals a set of names** within it that is cached with the type `e`. The set is of
more than one name; the part is not the whole list, has at least as many names as the set, and `e` includes
all of them. When the types of the list are merged, beginning with what is cached for the part, a result may
come under the names of the set. -/
structure Rivals (l : List Name) (first names : NameSet) (e : EffectiveType) : Prop where
  several : ∀ n, names ≠ .singleton n
  within : ∀ n ∈ names, n ∈ l
  part : ∀ n ∈ first, n ∈ l
  proper : first ≠ .ofList l
  other : first ≠ names
  size : names.size ≤ first.size
  included : ∀ n ∈ first, n ∈ e.allTypes

/-- A list of names is merged beginning with a cached part that rivals the set and its type. Here `begins`
tells which lists are merged, and with which parts they begin. -/
def Exposed (begins : List Name → NameSet → Prop) (c : Cache) (names : NameSet) (e : EffectiveType) : Prop :=
  ∃ l first, begins l first ∧ (∃ o, c.Holds first o) ∧ Rivals l first names e

/-- **What may become of a type** that is cached under a set of names: a type that is alike, and another one
only if the type is exposed. -/
structure Follows (begins : List Name → NameSet → Prop) (c : Cache) (names : NameSet)
    (e e' : EffectiveType) : Prop where
  alike : e.Alike e'
  same : e' = e ∨ Exposed begins c names e

/-- Every set of names that is cached in `c` is cached in `c'`. -/
def Lasts (c c' : Cache) : Prop := ∀ names, (∃ o, c.Holds names o) → ∃ o, c'.Holds names o

/-- What is cached in `c` is cached in `c'`, as it was or followed by another type. -/
structure Keeps (begins : List Name → NameSet → Prop) (c c' : Cache) : Prop where
  held : ∀ {names e}, c.Holds names e → ∃ e', c'.Holds names e' ∧ Follows begins c' names e e'

theorem Exposed.congr (h : Exposed begins c names e) (hall : e'.allTypes = e.allTypes) :
    Exposed begins c names e' := by
  obtain ⟨l, first, hb, ho, hrivals⟩ := h
  exact ⟨l, first, hb, ho, { hrivals with included := hall ▸ hrivals.included }⟩

theorem Exposed.mono (h : Exposed begins c names e) (hlasts : c.Lasts c') : Exposed begins c' names e := by
  obtain ⟨l, first, hb, ho, hrivals⟩ := h
  exact ⟨l, first, hb, hlasts first ho, hrivals⟩

theorem Follows.refl (begins : List Name → NameSet → Prop) (c : Cache) (names : NameSet)
    (e : EffectiveType) : Follows begins c names e e := ⟨.refl e, Or.inl rfl⟩

theorem Follows.mono (h : Follows begins c names e e') (hlasts : c.Lasts c') :
    Follows begins c' names e e' :=
  ⟨h.alike, h.same.imp_right fun hexposed => hexposed.mono hlasts⟩

theorem Follows.trans (h : Follows begins c names e e') (h' : Follows begins c names e' e'') :
    Follows begins c names e e'' := by
  refine ⟨h.alike.trans h'.alike, ?_⟩
  rcases h'.same with rfl | hexposed
  · exact h.same
  · -- what is exposed now was exposed before, for the same types were included
    exact Or.inr (hexposed.congr h.alike.all.symm)

theorem lasts_put (hc : c.Keyed) (hk : key.Numbered c.numbering) : c.Lasts (c.put key type) :=
  fun _ ho => exists_holds_put hc hk ho

theorem Keeps.refl (begins : List Name → NameSet → Prop) (c : Cache) : c.Keeps begins c :=
  ⟨fun {_ e} h => ⟨e, h, .refl _ _ _ _⟩⟩

theorem keeps_keyFor (c : Cache) (names : List Name) : c.Keeps begins (c.keyFor names).2 :=
  ⟨fun {_ e} h => ⟨e, h, .refl _ _ _ _⟩⟩

theorem Keeps.lasts (h : c.Keeps begins c') : c.Lasts c' := by
  rintro names ⟨o, ho⟩
  obtain ⟨o', ho', -⟩ := h.held ho
  exact ⟨o', ho'⟩

theorem Keeps.trans (h : c.Keeps begins c') (h' : c'.Keeps begins c'') : c.Keeps begins c'' where
  held hheld := by
    obtain ⟨e', he', hf⟩ := h.held hheld
    obtain ⟨e'', he'', hf'⟩ := h'.held he'
    exact ⟨e'', he'', (hf.mono h'.lasts).trans hf'⟩

/-- What is cached for a single name stays as it is. -/
theorem Keeps.single (h : c.Keeps begins c') (hn : c.Holds (.singleton n) e) :
    c'.Holds (.singleton n) e := by
  obtain ⟨e', he', hf⟩ := h.held hn
  rcases hf.same with rfl | ⟨l, first, -, -, hrivals⟩
  · exact he'
  · exact absurd rfl (hrivals.several n)

/-- Putting keeps what was cached at the start, if what is put may follow what was cached there. -/
theorem Keeps.put (h : c₀.Keeps begins c) (hc : c.Keyed) (hk : key.Numbered c.numbering)
    (hfollows : ∀ e, c₀.Holds key.names e → Follows begins c key.names e type) :
    c₀.Keeps begins (c.put key type) where
  held {names e} hheld := by
    by_cases hname : names = key.names
    · subst hname
      exact ⟨type, holds_put_self c key type, (hfollows e hheld).mono (lasts_put hc hk)⟩
    · obtain ⟨e', he', hf⟩ := h.held hheld
      exact ⟨e', holds_put_of_ne hc hk hname he', hf.mono (lasts_put hc hk)⟩

end keeping

end Cache

end ContentTypes
