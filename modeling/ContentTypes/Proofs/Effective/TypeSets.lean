import ContentTypes.Proofs.Effective.Yields

/-! # What two effective types of a set share

The type sets of an effective type are read off the declarations (`Registry.TypeSets`): the merged types
are some of the set, the inherited types are the proper supertypes of the merged ones, and a type of the
set that is not merged is one of these. So two effective types of one set are `Alike`: they have the same
types, the same inherited types and the same definitions, those of each type in the same order. They can
differ in which types count as merged that others inherit, in the order between definitions of different
types, and in the mixins they support. -/

namespace ContentTypes

open EffectiveType

namespace Registry

/-- **The type sets of an effective type of the set `s`.** -/
structure TypeSets (r : Registry) (s : Set Name) (e : EffectiveType) : Prop where
  nonempty : ∃ n, n ∈ e.mergedTypes
  requested : ∀ n ∈ e.mergedTypes, n ∈ s
  inherited : ∀ t, t ∈ e.inheritedTypes ↔ ∃ n ∈ e.mergedTypes, Relation.TransGen r.Extends n t
  all : ∀ t, t ∈ e.allTypes ↔ t ∈ e.mergedTypes ∨ t ∈ e.inheritedTypes
  absorbed : ∀ n ∈ s, n ∉ e.mergedTypes → ∃ m ∈ e.mergedTypes, Relation.TransGen r.Extends m n

variable {r r' : Registry} {pending s : Set Name} {e e' : EffectiveType} {n t : Name}

theorem Yields.typeSets (he : e.WellFormed) (h : r.Yields s e) : r.TypeSets s e where
  nonempty := he.merged
  requested := h.merged_mem
  inherited := h.inherited_iff
  all := he.all_iff
  absorbed n hn hno := by
    have hall : n ∈ e.allTypes := (h.all_iff n).2 (r.subset_closure s hn)
    exact (h.inherited_iff n).1 (((he.all_iff n).1 hall).resolve_left hno)

theorem TypeSets.congr (h : r.TypeSets s e) (hfind : ∀ n, r.find? n = r'.find? n) : r'.TypeSets s e := by
  have hext : r.Extends = r'.Extends := by
    funext n t
    unfold Extends
    rw [hfind n]
  obtain ⟨h1, h2, h3, h4, h5⟩ := h
  rw [hext] at h3 h5
  exact ⟨h1, h2, h3, h4, h5⟩

/-- The inherited types are the proper supertypes of the requested ones, merged or not. -/
theorem TypeSets.mem_inherited (h : r.TypeSets s e) :
    t ∈ e.inheritedTypes ↔ ∃ n ∈ s, Relation.TransGen r.Extends n t := by
  rw [h.inherited]
  constructor
  · rintro ⟨n, hn, hnt⟩
    exact ⟨n, h.requested n hn, hnt⟩
  · rintro ⟨n, hn, hnt⟩
    by_cases hmerged : n ∈ e.mergedTypes
    · exact ⟨n, hmerged, hnt⟩
    · -- what is above an absorbed type is above the type that absorbed it
      obtain ⟨m, hm, hmn⟩ := h.absorbed n hn hmerged
      exact ⟨m, hm, hmn.trans hnt⟩

theorem TypeSets.inherited_eq (h : r.TypeSets s e) (h' : r.TypeSets s e') :
    e.inheritedTypes = e'.inheritedTypes :=
  NameSet.ext_mem fun _ => by rw [h.mem_inherited, h'.mem_inherited]

/-- A requested type that is merged in one answer and not in another is inherited in both. -/
theorem TypeSets.redundant (h : r.TypeSets s e) (h' : r.TypeSets s e') (hn : n ∈ e.mergedTypes)
    (hno : n ∉ e'.mergedTypes) : n ∈ s ∧ n ∈ e.inheritedTypes := by
  have hs := h.requested n hn
  obtain ⟨m, hm, hmn⟩ := h'.absorbed n hs hno
  exact ⟨hs, h.mem_inherited.2 ⟨m, h'.requested m hm, hmn⟩⟩

theorem TypeSets.all_eq (h : r.TypeSets s e) (h' : r.TypeSets s e') : e.allTypes = e'.allTypes := by
  have hinh := h.inherited_eq h'
  refine NameSet.ext_mem fun t => ?_
  rw [h.all, h'.all, hinh]
  constructor
  · rintro (ht | ht)
    · by_cases ht' : t ∈ e'.mergedTypes
      · exact Or.inl ht'
      · exact Or.inr (hinh ▸ (h.redundant h' ht ht').2)
    · exact Or.inr ht
  · rintro (ht | ht)
    · by_cases ht' : t ∈ e.mergedTypes
      · exact Or.inl ht'
      · exact Or.inr (h'.redundant h ht ht').2
    · exact Or.inr ht

end Registry

/-! ### Alike -/

/-- **Effective types that are alike**: the same types and inherited types, and the same definitions, where
those of one type and name come in the same order. -/
structure EffectiveType.Alike (e e' : EffectiveType) : Prop where
  all : e'.allTypes = e.allTypes
  inherited : e'.inheritedTypes = e.inheritedTypes
  definitions : e'.definitions.Perm e.definitions
  order : ∀ k t, (e'.under k).filter (·.declaringType = t) = (e.under k).filter (·.declaringType = t)

theorem EffectiveType.Alike.refl (e : EffectiveType) : e.Alike e := ⟨rfl, rfl, .refl _, fun _ _ => rfl⟩

theorem EffectiveType.Alike.trans {e e' e'' : EffectiveType} (h : e.Alike e') (h' : e'.Alike e'') :
    e.Alike e'' :=
  ⟨h'.all.trans h.all, h'.inherited.trans h.inherited, h'.definitions.trans h.definitions,
    fun k t => (h'.order k t).trans (h.order k t)⟩

theorem EffectiveType.Alike.symm {e e' : EffectiveType} (h : e.Alike e') : e'.Alike e :=
  ⟨h.all.symm, h.inherited.symm, h.definitions.symm, fun k t => (h.order k t).symm⟩

/-- What only one of them counts as merged is inherited in both. -/
theorem EffectiveType.Alike.mem_inherited {e e' : EffectiveType} {n : Name} (h : e.Alike e')
    (he : e.WellFormed) (he' : e'.WellFormed) (hn : n ∈ e'.mergedTypes) (hno : n ∉ e.mergedTypes) :
    n ∈ e.inheritedTypes := by
  have hall : n ∈ e.allTypes := by
    rw [← h.all]
    exact (he'.all_iff n).2 (Or.inl hn)
  exact ((he.all_iff n).1 hall).resolve_left hno

/-- **Effective types of one set are alike.** -/
theorem Registry.Yields.alike {r : Registry} {s : Set Name} {e e' : EffectiveType} (he : e.WellFormed)
    (he' : e'.WellFormed) (h : r.Yields s e) (h' : r.Yields s e') : e.Alike e' := by
  have hall : e'.allTypes = e.allTypes := (h'.typeSets he').all_eq (h.typeSets he)
  have hinherited : e'.inheritedTypes = e.inheritedTypes :=
    (h'.typeSets he').inherited_eq (h.typeSets he)
  refine ⟨hall, hinherited, ?_, fun k t => ?_⟩
  · have hdefs := h'.definitions_perm he'
    rw [hall] at hdefs
    exact hdefs.trans (h.definitions_perm he).symm
  · by_cases ht : t ∈ e.allTypes
    · rw [h.carries t ht k, h'.carries t (hall ▸ ht) k]
    · -- nothing is held of a type that is not included
      have hnone : ∀ {f : EffectiveType}, f.WellFormed → t ∉ f.allTypes →
          (f.under k).filter (·.declaringType = t) = [] := fun hf hno => by
        refine List.filter_eq_nil_iff.2 fun d hd => ?_
        simp only [decide_eq_true_eq]
        rintro rfl
        exact hno (hf.declared k d hd)
      rw [hnone he ht, hnone he' (hall ▸ ht)]

end ContentTypes
