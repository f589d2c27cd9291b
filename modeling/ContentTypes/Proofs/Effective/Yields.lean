import ContentTypes.Proofs.Effective.Merge
import ContentTypes.Proofs.Registry.Nearest

/-! # The effective type of a set of types

`Registry.Yields r s e` says that `e` is what the declarations of `r` make of the set `s`: its types are
the closure of `s`, and it holds of each of them the definitions that are declared now, in their order.

The effective type of a declared type is made of its own definitions and of the effective type of its
supertypes (`yields_declared`), that of a union by merging (`Yields.merge`); and the merged types alone
already yield the whole (`Yields.of_merged`). What is yielded holds every definition of the closure once
(`Yields.definitions_perm`), so none of them clash (`Yields.compatible`). Two things depend on the order
of merging and not on the set alone: which merged type says what mixins are supported (`Yields.mixins`),
and which of the nearest types comes first with a definition (`Yields.first`). -/

namespace ContentTypes

open EffectiveType

namespace Registry

/-- The declaration of `t` has a name and declares its own definitions. -/
def Proper (r : Registry) (t : Name) : Prop :=
  t ≠ "" ∧ ∃ d, r.find? t = some d ∧ ∀ i ∈ d.items, i.declaringType = t

/-- What `e` holds of `t` under each name is what `t` declares under it, in the same order. -/
def Carries (r : Registry) (e : EffectiveType) (t : Name) : Prop :=
  ∀ k, (e.under k).filter (·.declaringType = t) = (r.items t).filter (·.name = k)

/-- **`e` is the effective type of the set `s`** under the declarations of `r`. -/
structure Yields (r : Registry) (s : Set Name) (e : EffectiveType) : Prop where
  all_iff : ∀ t, t ∈ e.allTypes ↔ t ∈ r.closure s
  proper : ∀ t ∈ e.allTypes, r.Proper t
  carries : ∀ t ∈ e.allTypes, r.Carries e t
  merged_mem : ∀ n ∈ e.mergedTypes, n ∈ s
  inherited_iff : ∀ t, t ∈ e.inheritedTypes ↔ ∃ n ∈ e.mergedTypes, Relation.TransGen r.Extends n t
  mixins : ∃ n ∈ e.mergedTypes, ∃ d, r.find? n = some d ∧
    e.supportedMixins = d.supportedMixins.map .ofList
  first : ∀ k p i, FirstWith p (e.under k) i →
    r.Decides (fun i => i.name = k ∧ p i) {n | n ∈ e.mergedTypes} i

variable {r r' : Registry} {s s' : Set Name} {e o m : EffectiveType} {kind : MergeKind} {n t : Name}
  {p : ItemDef → Prop} {i : ItemDef} {k : Option Name}

theorem Proper.declaringType {i : ItemDef} (h : r.Proper t) (hi : i ∈ r.items t) :
    i.declaringType = t := by
  obtain ⟨-, d, hd, hown⟩ := h
  rw [items_of_find? hd] at hi
  exact hown i hi

/-! ### Merging -/

theorem carries_merge_left (ht : t ∈ e.allTypes) (hm : Merges e o kind m)
    (h : r.Carries e t) : r.Carries m t := by
  intro k
  have hnone : ((o.under k).filter fun d => !e.includes d.declaringType).filter
      (·.declaringType = t) = [] := by
    rw [List.filter_filter]
    refine List.filter_eq_nil_iff.2 fun d _ => ?_
    by_cases hd : d.declaringType = t
    · simp [hd, ht]
    · simp [hd]
  rw [hm.under, List.filter_append, h k, hnone, List.append_nil]

theorem carries_merge_right (he : e.WellFormed) (ht : t ∉ e.allTypes) (hm : Merges e o kind m)
    (h : r.Carries o t) : r.Carries m t := by
  intro k
  have hnone : (e.under k).filter (·.declaringType = t) = [] := by
    refine List.filter_eq_nil_iff.2 fun d hd => ?_
    have := he.declared k d hd
    simp only [decide_eq_true_eq]
    rintro rfl
    exact ht this
  rw [hm.under, List.filter_append, hnone, List.nil_append, List.filter_filter, ← h k]
  refine List.filter_congr fun d _ => ?_
  by_cases hd : d.declaringType = t
  · simp [hd, ht]
  · simp [hd]

theorem carries_merge (he : e.WellFormed) (hm : Merges e o kind m)
    (hce : ∀ t ∈ e.allTypes, r.Carries e t) (hco : ∀ t ∈ o.allTypes, r.Carries o t) :
    ∀ t ∈ m.allTypes, r.Carries m t := by
  intro t ht
  by_cases hte : t ∈ e.allTypes
  · exact carries_merge_left hte hm (hce t hte)
  · exact carries_merge_right he hte hm (hco t (((hm.all_iff t).1 ht).resolve_left hte))

/-- The first type merged decides which mixins are supported. -/
theorem mixins_merge (hm : Merges e o kind m)
    (h : ∃ n ∈ e.mergedTypes, ∃ d, r.find? n = some d ∧
      e.supportedMixins = d.supportedMixins.map .ofList) :
    ∃ n ∈ m.mergedTypes, ∃ d, r.find? n = some d ∧
      m.supportedMixins = d.supportedMixins.map .ofList := by
  obtain ⟨n, hn, d, hd, hs⟩ := h
  refine ⟨n, ?_, d, hd, hm.mixins.trans hs⟩
  rcases hm.types with ⟨-, rfl⟩ | ⟨-, ht⟩
  · exact hn
  · cases kind with
    | aggregate => exact (ht.1 n).2 (Or.inl hn)
    | supertype => exact ht.1 ▸ hn

/-- The first definition with `p` after a merge is the receiver's, or else the first of the other side. -/
theorem first_merge (ho : o.WellFormed) (hm : Merges e o kind m) (hce : ∀ t ∈ e.allTypes, r.Carries e t)
    (hco : ∀ t ∈ o.allTypes, r.Carries o t) (hi : FirstWith p (m.under k) i) :
    FirstWith p (e.under k) i ∨ ((∀ j ∈ e.under k, ¬ p j) ∧ FirstWith p (o.under k) i) := by
  rw [hm.under, firstWith_append, firstWith_filter] at hi
  refine hi.imp id fun ⟨hno, hi⟩ => ⟨hno, hi.congr fun j hj => and_iff_right_of_imp fun hpj => ?_⟩
  -- a definition of a type that the receiver includes is held by the receiver
  rw [Bool.not_eq_true', includes_eq_false_iff]
  intro hje
  have hmem : j ∈ (o.under k).filter (·.declaringType = j.declaringType) :=
    List.mem_filter.2 ⟨hj, by simp⟩
  rw [hco _ (ho.declared k j hj), ← hce _ hje] at hmem
  exact hno j (List.mem_filter.1 hmem).1 hpj

/-- **Merging effective types** gives the effective type of the union. -/
theorem Yields.merge (he : e.WellFormed) (ho : o.WellFormed) (hye : r.Yields s e) (hyo : r.Yields s' o)
    (h : e.merge o .aggregate = .ok m) : r.Yields (s ∪ s') m := by
  have hm := merges_of_merge he.toTidy ho h
  refine ⟨fun t => ?_, fun t ht => ?_, carries_merge he hm hye.carries hyo.carries, fun n hn => ?_,
    fun t => ?_, mixins_merge hm hye.mixins, fun k p i hi => ?_⟩
  · rw [hm.all_iff, hye.all_iff, hyo.all_iff, closure_union]; rfl
  · rcases (hm.all_iff t).1 ht with ht | ht
    · exact hye.proper t ht
    · exact hyo.proper t ht
  · rcases hm.types with ⟨-, rfl⟩ | ⟨-, ht, -⟩
    · exact Or.inl (hye.merged_mem n hn)
    · rcases (ht n).1 hn with hn | hn
      · exact Or.inl (hye.merged_mem n hn)
      · exact Or.inr (hyo.merged_mem n hn)
  · rcases hm.types with ⟨-, rfl⟩ | ⟨-, hmt, hit⟩
    · exact hye.inherited_iff t
    · rw [hit, hye.inherited_iff, hyo.inherited_iff]
      constructor
      · rintro (⟨n, hn, h⟩ | ⟨n, hn, h⟩)
        · exact ⟨n, (hmt n).2 (Or.inl hn), h⟩
        · exact ⟨n, (hmt n).2 (Or.inr hn), h⟩
      · rintro ⟨n, hn, h⟩
        rcases (hmt n).1 hn with hn | hn
        · exact Or.inl ⟨n, hn, h⟩
        · exact Or.inr ⟨n, hn, h⟩
  · rcases hm.types with ⟨-, rfl⟩ | ⟨-, hmt, -⟩
    · exact hye.first k p i hi
    · rcases first_merge ho hm hye.carries hyo.carries hi with hi | ⟨-, hi⟩
      · exact (hye.first k p i hi).mono fun n hn => (hmt n).2 (Or.inl hn)
      · exact (hyo.first k p i hi).mono fun n hn => (hmt n).2 (Or.inr hn)

/-! ### A declared type -/

theorem mem_allTypes_ofDeclaration {d : Declaration} (h : ofDeclaration d = .ok e) :
    t ∈ e.allTypes ↔ t = d.name := by
  obtain ⟨-, -, -, rfl⟩ := ofDeclaration_ok_iff.1 h
  simp [bare]

theorem mem_mergedTypes_ofDeclaration {d : Declaration} (h : ofDeclaration d = .ok e) :
    t ∈ e.mergedTypes ↔ t = d.name := by
  obtain ⟨-, -, -, rfl⟩ := ofDeclaration_ok_iff.1 h
  simp [bare]

theorem under_ofDeclaration {d : Declaration} (hd : r.find? n = some d) (h : ofDeclaration d = .ok e)
    (k : Option Name) : e.under k = (r.items n).filter (·.name = k) := by
  obtain ⟨-, -, -, rfl⟩ := ofDeclaration_ok_iff.1 h
  rw [under_pushAll, under_bare, List.nil_append, items_of_find? hd]

theorem carries_ofDeclaration {d : Declaration} (hd : r.find? n = some d)
    (h : ofDeclaration d = .ok e) : r.Carries e n := by
  obtain ⟨-, hown, -, -⟩ := ofDeclaration_ok_iff.1 h
  intro k
  rw [under_ofDeclaration hd h, items_of_find? hd, List.filter_filter]
  refine List.filter_congr fun i hi => ?_
  simp [hown i hi, name_of_find? hd]

theorem proper_of_ofDeclaration {d : Declaration} (hd : r.find? n = some d)
    (h : ofDeclaration d = .ok e) : r.Proper n := by
  obtain ⟨hne, hown, -, -⟩ := ofDeclaration_ok_iff.1 h
  obtain rfl := name_of_find? hd
  exact ⟨hne, d, hd, hown⟩

theorem mixins_ofDeclaration {d : Declaration} (hd : r.find? n = some d) (h : ofDeclaration d = .ok e) :
    ∃ n ∈ e.mergedTypes, ∃ d, r.find? n = some d ∧
      e.supportedMixins = d.supportedMixins.map .ofList := by
  refine ⟨n, (mem_mergedTypes_ofDeclaration h).2 (name_of_find? hd).symm, d, hd, ?_⟩
  obtain ⟨-, -, -, rfl⟩ := ofDeclaration_ok_iff.1 h
  simp [bare]

theorem first_ofDeclaration {d : Declaration} (hd : r.find? n = some d) (h : ofDeclaration d = .ok e)
    (hi : FirstWith p (e.under k) i) : r.Decides (fun i => i.name = k ∧ p i) {n} i := by
  rw [under_ofDeclaration hd h, firstWith_filter] at hi
  exact decides_self (by simpa using hi)

/-- A type without supertypes yields its own declaration. -/
theorem yields_root {d : Declaration} (hd : r.find? n = some d) (hs : d.supertypes = [])
    (h : ofDeclaration d = .ok e) : r.Yields {n} e := by
  have hname := name_of_find? hd
  have hnone : ∀ u, ¬ r.Extends n u := by
    rintro u ⟨d', hd', hu⟩
    rw [hd] at hd'
    obtain rfl := Option.some.inj hd'
    simp [hs] at hu
  have htrans : ∀ u, ¬ Relation.TransGen r.Extends n u := fun u hu => by
    obtain ⟨v, hv, -⟩ := Relation.TransGen.head'_iff.1 hu
    exact hnone v hv
  refine ⟨fun t => ?_, fun t ht => ?_, fun t ht => ?_, fun t ht => ?_, fun t => ?_,
    mixins_ofDeclaration hd h, fun k p i hi => (first_ofDeclaration hd h hi).mono ?_⟩
  · rw [mem_allTypes_ofDeclaration h, mem_closure_singleton hd, hs, hname]
    simp [closure]
  · obtain rfl := ((mem_allTypes_ofDeclaration h).1 ht).trans hname
    exact proper_of_ofDeclaration hd h
  · obtain rfl := ((mem_allTypes_ofDeclaration h).1 ht).trans hname
    exact carries_ofDeclaration hd h
  · exact ((mem_mergedTypes_ofDeclaration h).1 ht).trans hname
  · have hinh : e.inheritedTypes = ∅ := by
      obtain ⟨-, -, -, rfl⟩ := ofDeclaration_ok_iff.1 h
      simp [bare]
    rw [hinh]
    refine ⟨fun ht => absurd ht (NameSet.not_mem_empty t), ?_⟩
    rintro ⟨u, hu, hut⟩
    rw [(mem_mergedTypes_ofDeclaration h).1 hu, hname] at hut
    exact absurd hut (htrans t)
  · rintro u rfl
    exact (mem_mergedTypes_ofDeclaration h).2 hname.symm

/-- **A declared type** yields its own definitions merged with what its supertypes yield. -/
theorem yields_declared {d : Declaration} (hd : r.find? n = some d)
    (hacyclic : ¬ Relation.TransGen r.Extends n n) (hs : d.supertypes ≠ [])
    (h : ofDeclaration d = .ok e) (ho : o.WellFormed) (hyo : r.Yields {u | u ∈ d.supertypes} o)
    (hmerge : e.merge o .supertype = .ok m) : r.Yields {n} m := by
  have he := wellFormed_ofDeclaration h
  have hm := merges_of_merge he.toTidy ho hmerge
  have hname := name_of_find? hd
  have hall : ∀ t, t ∈ e.allTypes ↔ t = n := fun t => by rw [mem_allTypes_ofDeclaration h, hname]
  have hmerged : m.mergedTypes = e.mergedTypes := by
    rcases hm.types with ⟨-, rfl⟩ | ⟨-, ht⟩
    · rfl
    · exact ht.1
  have hself : ∀ t, t ∈ m.mergedTypes ↔ t = n := fun t => by
    rw [hmerged, mem_mergedTypes_ofDeclaration h, hname]
  -- the supertypes are new: otherwise the type would be its own supertype
  have hnew : ¬ ∀ t ∈ o.allTypes, t ∈ e.allTypes := fun hall' => by
    obtain ⟨u, hu⟩ := List.exists_mem_of_ne_nil _ hs
    have huo := (hyo.all_iff u).2 (r.subset_closure _ hu)
    have hun := (hall u).1 (hall' u huo)
    exact hacyclic (Relation.TransGen.single ⟨d, hd, hun ▸ hu⟩)
  have hce : ∀ t ∈ e.allTypes, r.Carries e t := fun t ht => by
    rw [(hall t).1 ht]
    exact carries_ofDeclaration hd h
  refine ⟨fun t => ?_, fun t ht => ?_, carries_merge he hm hce hyo.carries, fun t ht => (hself t).1 ht,
    fun t => ?_, mixins_merge hm (mixins_ofDeclaration hd h), fun k p i hi => ?_⟩
  · rw [hm.all_iff, hall, hyo.all_iff, mem_closure_singleton hd]
  · rcases (hm.all_iff t).1 ht with ht | ht
    · rw [(hall t).1 ht]
      exact proper_of_ofDeclaration hd h
    · exact hyo.proper t ht
  · have hinh : e.inheritedTypes = ∅ := by
      obtain ⟨-, -, -, rfl⟩ := ofDeclaration_ok_iff.1 h
      simp [bare]
    rcases hm.types with ⟨hred, -⟩ | ⟨-, -, hit⟩
    · exact absurd hred hnew
    · rw [hit, hinh, ← ho.all_iff, hyo.all_iff, ← transGen_iff hd]
      simp [hself]
  · -- the type's own definitions come first; without one, what decided for the supertypes decides
    have hdecides : r.Decides (fun i => i.name = k ∧ p i) {n} i := by
      rcases first_merge ho hm hce hyo.carries hi with hi | ⟨hno, hi⟩
      · exact first_ofDeclaration hd h hi
      · refine (hyo.first k p i hi).declared hd (fun j hj hpj => hno j ?_ hpj.2) hyo.merged_mem
        rw [under_ofDeclaration hd h]
        exact List.mem_filter.2 ⟨hj, by simpa using hpj.1⟩
    refine hdecides.mono ?_
    rintro u rfl
    exact (hself u).2 rfl

/-! ### The merged types -/

/-- The merged types yield the whole. -/
theorem Yields.of_merged (he : e.WellFormed) (h : r.Yields s e) :
    r.Yields {n | n ∈ e.mergedTypes} e := by
  refine ⟨fun t => ?_, h.proper, h.carries, fun n hn => hn, h.inherited_iff, h.mixins, h.first⟩
  rw [he.all_iff, h.inherited_iff]
  constructor
  · rintro (ht | ⟨n, hn, hnt⟩)
    · exact r.subset_closure _ ht
    · exact ⟨n, hn, hnt.to_reflTransGen⟩
  · rintro ⟨n, hn, hnt⟩
    rcases Relation.reflTransGen_iff_eq_or_transGen.1 hnt with rfl | hnt
    · exact Or.inl hn
    · exact Or.inr ⟨n, hn, hnt⟩

theorem Yields.congr (h : r.Yields s e) (hr : r.AgreeOn r' (r.closure s)) : r'.Yields s e := by
  have hfind : ∀ t ∈ e.allTypes, r.find? t = r'.find? t := fun t ht => hr t ((h.all_iff t).1 ht)
  have hmem : ∀ n ∈ e.mergedTypes, n ∈ r.closure s := fun n hn => r.subset_closure s (h.merged_mem n hn)
  have hr' : r'.AgreeOn r (r'.closure s) := fun t ht => (hr t (by rwa [← hr.closure_eq])).symm
  refine ⟨fun t => by rw [hr.closure_eq, h.all_iff], fun t ht => ?_, fun t ht k => ?_, h.merged_mem,
    fun t => ?_, ?_, fun k p i hi => ?_⟩
  · obtain ⟨hne, d, hd, hown⟩ := h.proper t ht
    exact ⟨hne, d, hfind t ht ▸ hd, hown⟩
  · rw [h.carries t ht, items, items, hfind t ht]
  · rw [h.inherited_iff]
    refine exists_congr fun n => and_congr_right fun hn => ⟨fun hnt => ?_, fun hnt => ?_⟩
    · exact hr'.transGen (by rw [hr.closure_eq]; exact hmem n hn) hnt
    · exact hr.transGen (hmem n hn) hnt
  · obtain ⟨n, hn, d, hd, hs⟩ := h.mixins
    exact ⟨n, hn, d, hr n (hmem n hn) ▸ hd, hs⟩
  · exact (hr.mono hmem).decides (h.first k p i hi)

/-! ### The definitions -/

theorem Yields.mem_definitions (he : e.WellFormed) (h : r.Yields s e) {i : ItemDef} :
    i ∈ e.definitions ↔ ∃ t ∈ e.allTypes, i ∈ r.items t := by
  rw [he.mem_definitions]
  constructor
  · intro hi
    have ht := he.declared _ i hi
    refine ⟨i.declaringType, ht, ?_⟩
    have : i ∈ (e.under i.name).filter (·.declaringType = i.declaringType) :=
      List.mem_filter.2 ⟨hi, by simp⟩
    rw [h.carries _ ht] at this
    exact (List.mem_filter.1 this).1
  · rintro ⟨t, ht, hi⟩
    have : i ∈ (r.items t).filter (·.name = i.name) := List.mem_filter.2 ⟨hi, by simp⟩
    rw [← h.carries t ht] at this
    exact (List.mem_filter.1 this).1

/-- What an effective type holds under a name are the definitions of that name in the closure. -/
theorem Yields.mem_under (he : e.WellFormed) (h : r.Yields s e) :
    i ∈ e.under k ↔ i.name = k ∧ ∃ t ∈ r.closure s, i ∈ r.items t := by
  have hmem : (∃ t ∈ r.closure s, i ∈ r.items t) ↔ i ∈ e.under i.name := by
    rw [← he.mem_definitions, h.mem_definitions he]
    simp only [h.all_iff]
  rw [hmem]
  constructor
  · intro hi
    obtain rfl := he.name_eq k i hi
    exact ⟨rfl, hi⟩
  · rintro ⟨rfl, hi⟩
    exact hi

theorem Yields.compatible_items (he : e.WellFormed) (h : r.Yields s e) (ht : t ∈ e.allTypes) :
    (r.items t).Pairwise fun a b => ¬ a.Clashes b :=
  pairwise_of_filter_name fun k => by
    rw [← h.carries t ht]
    exact (he.compatible k).filter _

/-- **The definitions of the closure**, each once, are what an effective type holds. -/
theorem Yields.definitions_perm (he : e.WellFormed) (h : r.Yields s e) :
    e.definitions.Perm (e.allTypes.toList.flatMap r.items) := by
  refine (List.perm_ext_iff_of_nodup he.nodup_definitions ?_).2 fun i => ?_
  · refine List.nodup_flatMap.2 ⟨fun t ht => ?_, ?_⟩
    · refine (h.compatible_items he ht).imp ?_
      rintro a b hab rfl
      exact hab a.clashes_self
    · -- a definition carries the name of its type, so no two types share one
      refine e.allTypes.sorted.imp_of_mem fun {t u} ht hu htu i hit hiu => ?_
      have h1 := (h.proper t ht).declaringType hit
      have h2 := (h.proper u hu).declaringType hiu
      exact String.lt_irrefl t (h1.symm.trans h2 ▸ htu)
  · rw [h.mem_definitions he, List.mem_flatMap]
    rfl

/-- Definitions of two types of the closure do not clash. -/
theorem Yields.compatible (he : e.WellFormed) (h : r.Yields s e) {u : Name} (ht : t ∈ e.allTypes)
    (hu : u ∈ e.allTypes) (htu : t ≠ u) {i j : ItemDef} (hi : i ∈ r.items t) (hj : j ∈ r.items u) :
    ¬ i.Clashes j := by
  have hmem : ∀ {t i}, t ∈ e.allTypes → i ∈ r.items t → i ∈ e.named.items ++ e.residual :=
    fun ht hi => List.perm_append_comm.mem_iff.1 ((h.mem_definitions he).2 ⟨_, ht, hi⟩)
  refine he.compatible_all.forall (hmem ht hi) (hmem hu hj) ?_
  rintro rfl
  exact htu (((h.proper t ht).declaringType hi).symm.trans ((h.proper u hu).declaringType hj))

end Registry

end ContentTypes
