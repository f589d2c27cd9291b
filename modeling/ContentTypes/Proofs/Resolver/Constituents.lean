import ContentTypes.Proofs.Resolver.Repeat

/-! # Constituents of what is cached

An aggregate is built of cached types, and an invalidation that drops one of them drops the aggregate too:
the entry of a type alone includes what the type inherits, so whatever depends on a name drops together with
all that is built on it. So every type that some entry includes is cached by itself
(`Cache.Coherent.exists_constituent`), after any run and whatever is pending (`constituents_cached`). -/

namespace ContentTypes

open Registry

namespace Cache

/-- **The entry of a type alone**: its keys have no other name, and it merges no other type. -/
structure Entry.IsOf (single : Entry) (t : Name) : Prop where
  names : single.key.names = .singleton t
  firstNames : single.firstKey.names = .singleton t
  merged : single.type.mergedTypes = .singleton t

variable {c : Cache} {w r : Registry} {entry single : Entry} {t : Name}

theorem holds_of_mem (hentry : entry ∈ c.entries) : c.Holds entry.key.names entry.type :=
  ⟨entry, hentry, rfl, rfl⟩

theorem Coherent.firstNames (h : c.Coherent w) (hentry : entry ∈ c.entries) :
    entry.firstKey.names = entry.key.names :=
  (h.keyed.entries entry hentry).names_eq

/-- Whatever is cached for a type by itself is the entry of the type alone. -/
theorem Coherent.exists_isOf (h : c.Coherent w) (ht : c.Knows t) :
    ∃ single ∈ c.entries, single.IsOf t := by
  obtain ⟨_, single, hsingle, hnames, rfl⟩ := ht
  have hfits := h.fits (holds_of_mem hsingle)
  rw [setOf_names hnames] at hfits
  exact ⟨single, hsingle, hnames, (h.firstNames hsingle).trans hnames,
    mergedTypes_eq_singleton hfits.wellFormed hfits.yields.merged_mem⟩

/-- The types of the entry of `t` alone are the closure of `t`. -/
theorem Coherent.all_iff_of_isOf (h : c.Coherent w) (hsingle : single ∈ c.entries)
    (hof : single.IsOf t) (u : Name) : u ∈ single.type.allTypes ↔ u ∈ w.closure {t} := by
  have hyields := (h.fits (holds_of_mem hsingle)).yields
  rw [setOf_names hof.names] at hyields
  exact hyields.all_iff u

/-- **Constituents.** A type that an entry includes has an entry of its own, and what that one includes the
first includes too. -/
theorem Coherent.exists_constituent (h : c.Coherent w) (hentry : entry ∈ c.entries)
    (ht : t ∈ entry.type.allTypes) : ∃ single ∈ c.entries, single.IsOf t ∧
      ∀ u ∈ single.type.allTypes, u ∈ entry.type.allTypes := by
  have hfits := h.fits (holds_of_mem hentry)
  obtain ⟨single, hsingle, hof⟩ := h.exists_isOf (hfits.closed t ht)
  refine ⟨single, hsingle, hof, fun u hu => ?_⟩
  rw [h.all_iff_of_isOf hsingle hof] at hu
  rw [hfits.yields.all_iff] at ht ⊢
  exact closure_subset (fun v hv => Set.mem_singleton_iff.1 hv ▸ ht) hu

/-- A request for a type alone is answered by its entry. -/
theorem Coherent.resolve_of_isOf (h : c.Coherent w) (hsingle : single ∈ c.entries)
    (hof : single.IsOf t) : (c.resolve r [t]).1 = .ok ⟨single.type, true⟩ := by
  have hfits := h.fits (holds_of_mem hsingle)
  have ht : t ∈ single.type.allTypes :=
    (h.all_iff_of_isOf hsingle hof t).2 (subset_closure _ _ (Set.mem_singleton t))
  have hne : t ≠ "" := (hfits.yields.proper t ht).1
  refine h.resolve_of_holds (checkNames_ok_iff.2 ⟨by simp, by simpa using hne.symm⟩) ?_
  exact ⟨single, hsingle, hof.names, rfl⟩

end Cache

namespace Resolver

/-- **The cache is closed under constituents.** After any run, whatever is pending, a cached type includes
the names of its key, and every type that it includes is cached by itself: that entry merges the type alone,
includes no more than the aggregate, and answers a request for the type. -/
theorem constituents_cached (r : Registry) (events : List Event) :
    ∀ entry ∈ ((fresh r).run events).cache.entries,
      entry.firstKey.names = entry.key.names ∧ (∀ n ∈ entry.key.names, n ∈ entry.type.allTypes) ∧
      ∀ t ∈ entry.type.allTypes, ∃ single ∈ ((fresh r).run events).cache.entries,
        single.IsOf t ∧ (∀ u ∈ single.type.allTypes, u ∈ entry.type.allTypes) ∧
        (((fresh r).run events).cache.resolve ((fresh r).run events).registry [t]).1 =
          .ok ⟨single.type, true⟩ := by
  obtain ⟨w, h⟩ := coherent_run r events
  intro entry hentry
  have hyields := (h.fits (Cache.holds_of_mem hentry)).yields
  refine ⟨h.firstNames hentry, fun n hn => ?_, fun t ht => ?_⟩
  · exact (hyields.all_iff n).2 (subset_closure _ _ hn)
  · obtain ⟨single, hsingle, hof, hwithin⟩ := h.exists_constituent hentry ht
    exact ⟨single, hsingle, hof, hwithin, h.resolve_of_isOf hsingle hof⟩

/-- The title is renamed, but only drafts are invalidated and aggregated again. -/
def redrafted : List Event :=
  [.resolve ["page", "draft"],
    .register (({ name := "base" } : Declaration).withProperty "headline" .string),
    .invalidate "draft", .resolve ["page", "draft"]]

/-- While the base is pending, a page that is a draft is cached with it, and the base is cached alone. -/
theorem constituents_cached_redrafted :
    (fresh pages).Pending redrafted "base" ∧
    ∃ entry ∈ ((fresh pages).run redrafted).cache.entries, entry.key.names.toList = ["draft", "page"] ∧
      "base" ∈ entry.type.allTypes ∧
      ∃ single ∈ ((fresh pages).run redrafted).cache.entries, single.IsOf "base" ∧
        (((fresh pages).run redrafted).cache.resolve ((fresh pages).run redrafted).registry
          ["base"]).1 = .ok ⟨single.type, true⟩ := by
  refine ⟨⟨[.resolve ["page", "draft"]], _, _, rfl, rfl, by simp⟩, ?_⟩
  obtain ⟨entry, hentry, hkey, hbase⟩ : ∃ entry ∈ ((fresh pages).run redrafted).cache.entries,
      entry.key.names.toList = ["draft", "page"] ∧ "base" ∈ entry.type.allTypes := by
    decide +kernel
  obtain ⟨single, hsingle, hof, -, hhit⟩ :=
    (constituents_cached pages redrafted entry hentry).2.2 "base" hbase
  exact ⟨entry, hentry, hkey, hbase, single, hsingle, hof, hhit⟩

end Resolver

end ContentTypes
