import ContentTypes.Proofs.Effective.Harmony

/-! # Which conflict is reported

A refused merge reports one conflict. `ItemDef.conflictWith` is the conflict that a definition to be added
meets in one that is held, and a merge reports that of an incoming definition, of a type that is new to the
receiver, with a definition of the receiver (`merge_error`); definitions that came in before it in the same
merge are never reported, for they do not clash with it.

In terms of the declarations, what building for a set of types can report (`Registry.Reports`) is the refusal
of a declaration of the closure, or the conflict of definitions of two types of the closure, where the type
of the incoming definition is not below that of the other (`reports_of_aggregate`, `reports_of_supertype`).
Harmonious declarations give nothing to report (`Reports.not_harmonious`). -/

namespace ContentTypes

open EffectiveType

/-! ### The conflict of two definitions -/

/-- The conflict that adding `i` meets in a definition `j` that is held, if the two clash. -/
def ItemDef.conflictWith (i j : ItemDef) : Option Conflict :=
  if i.name = j.name then
    match i.name with
    | some n => namedConflict n i j
    | none => residualConflict i j
  else none

theorem ItemDef.conflictWith_eq_none {i j : ItemDef} : i.conflictWith j = none ↔ ¬ i.Clashes j := by
  unfold conflictWith Clashes
  by_cases h : i.name = j.name
  · rw [if_pos h]
    cases hi : i.name with
    | none => simp [residualConflict_eq_none, ← h, hi]
    | some n => simp [namedConflict_eq_none, ← h, hi]
  · simp [h]

theorem ItemDef.clashes_of_conflictWith {i j : ItemDef} {c : Conflict} (h : i.conflictWith j = some c) :
    i.Clashes j := by
  by_contra hno
  rw [conflictWith_eq_none.2 hno] at h
  cases h

namespace EffectiveType

variable {e o : EffectiveType} {kind : MergeKind} {c : Conflict} {ds : List ItemDef} {d : ItemDef}

theorem exists_conflictWith (he : e.Tidy) (h : e.conflict? d = some c) :
    ∃ j ∈ e.under d.name, d.conflictWith j = some c := by
  have hname : ∀ j ∈ e.under d.name, d.name = j.name := fun j hj => (he.name_eq _ j hj).symm
  unfold conflict? at h
  cases hd : d.name with
  | none =>
    rw [hd] at h hname
    obtain ⟨j, hj, hc⟩ := List.exists_of_findSome?_eq_some h
    refine ⟨j, hj, ?_⟩
    rw [ItemDef.conflictWith, hd, if_pos (hname j hj)]
    exact hc
  | some n =>
    rw [hd] at h hname
    obtain ⟨j, hj, hc⟩ := List.exists_of_findSome?_eq_some h
    refine ⟨j, hj, ?_⟩
    rw [ItemDef.conflictWith, hd, if_pos (hname j hj)]
    exact hc

/-- Adding definitions that do not clash with each other reports a conflict with one held before. -/
theorem addItems_error (he : e.Tidy) (hds : ds.Pairwise fun a b => ¬ a.Clashes b)
    (h : e.addItems ds = .error c) : ∃ i ∈ ds, ∃ j ∈ e.under i.name, i.conflictWith j = some c := by
  unfold addItems at h
  induction ds generalizing e with
  | nil => cases h
  | cons d ds ih =>
    obtain ⟨hd, hds⟩ := List.pairwise_cons.1 hds
    rw [List.foldlM_cons, addItem_eq] at h
    cases hc : e.conflict? d with
    | some c' =>
      rw [hc] at h
      cases h
      obtain ⟨j, hj, hdj⟩ := exists_conflictWith he hc
      exact ⟨d, List.mem_cons_self, j, hj, hdj⟩
    | none =>
      rw [hc] at h
      obtain ⟨i, hi, j, hj, hij⟩ := ih (he.push d) hds h
      refine ⟨i, List.mem_cons_of_mem d hi, j, ?_, hij⟩
      rw [under_push, List.mem_append] at hj
      rcases hj with hj | hj
      · exact hj
      · -- `d` itself was added just before
        obtain rfl := List.mem_singleton.1 (List.mem_filter.1 hj).1
        exact absurd (ItemDef.clashes_of_conflictWith hij).symm (hd i hi)

/-- **What a refused merge reports**: the conflict of a definition of a type that is new to the receiver
with a definition of the receiver. -/
theorem merge_error (he : e.Tidy) (ho : o.WellFormed) (h : e.merge o kind = .error c) :
    ∃ i ∈ o.definitions, i.declaringType ∉ e.allTypes ∧
      ∃ j ∈ e.definitions, i.conflictWith j = some c := by
  unfold merge at h
  split at h
  · cases h
  · have hadd : e.addItems (e.incoming o) = .error c := by
      cases hadd : e.addItems (e.incoming o) with
      | ok f => rw [hadd] at h; cases h
      | error c' => rw [hadd] at h; cases h; rfl
    obtain ⟨i, hi, j, hj, hij⟩ := addItems_error he (ho.compatible_all.filter _) hadd
    obtain ⟨hi, hnew⟩ := List.mem_filter.1 hi
    refine ⟨i, List.perm_append_comm.mem_iff.1 hi, by simpa using hnew, j, ?_, hij⟩
    rw [he.mem_definitions, ← (ItemDef.clashes_of_conflictWith hij).1]
    exact hj

end EffectiveType

namespace Registry

/-! ### What building can report -/

/-- **An error that building for the set `s` can report**: the refusal of a declaration, or the conflict of
a definition of a type `t` with one of a type `u` that is not above `t`. -/
inductive Reports (r : Registry) (s : Set Name) : Error → Prop where
  | refusal {t : Name} {d : Declaration} {x : Error} : t ∈ r.closure s → r.find? t = some d →
      ofDeclaration d = .error x → r.Reports s x
  | clash {t u : Name} {i j : ItemDef} {c : Conflict} : t ∈ r.closure s → u ∈ r.closure s → t ≠ u →
      ¬ Relation.TransGen r.Extends t u → i ∈ r.items t → j ∈ r.items u → i.conflictWith j = some c →
      r.Reports s (.conflict c)

variable {r : Registry} {s s' z : Set Name} {n : Name} {d : Declaration} {e o : EffectiveType}
  {kind : MergeKind} {c : Conflict} {x : Error}

theorem Reports.ofBuilding (h : r.Reports s x) : x.OfBuilding := by
  cases h with
  | refusal _ _ hx => exact ofDeclaration_error hx
  | clash => exact Or.inl ⟨_, rfl⟩

theorem Reports.not_harmonious (h : r.Reports s x) : ¬ r.Harmonious s := by
  intro hh
  cases h with
  | refusal ht hd hx =>
    obtain ⟨e, he⟩ := hh.ofDeclaration_ok ht hd
    rw [hx] at he
    cases he
  | clash ht hu htu _ hi hj hc =>
    exact hh.apart _ ht _ hu htu _ hi _ hj (ItemDef.clashes_of_conflictWith hc)

/-- Merging what two sets of types yield. -/
theorem reports_of_aggregate (he : e.WellFormed) (ho : o.WellFormed) (hye : r.Yields s' e)
    (hyo : r.Yields z o) (hs' : s' ⊆ r.closure s) (hz : z ⊆ r.closure s)
    (h : e.merge o kind = .error c) : r.Reports s (.conflict c) := by
  obtain ⟨i, hi, hnew, j, hj, hij⟩ := merge_error he.toTidy ho h
  obtain ⟨t, hto, ht, hit⟩ := hyo.drawn ho hz i hi
  obtain ⟨u, hue, hu, hju⟩ := hye.drawn he hs' j hj
  rw [(hyo.proper t hto).declaringType hit] at hnew
  have htu : t ≠ u := by
    rintro rfl
    exact hnew hue
  refine .clash ht hu htu (fun habove => ?_) hit hju hij
  -- if `u` were above `t`, the incoming type would hold both definitions
  have huo : u ∈ o.allTypes := by
    rw [hyo.all_iff] at hto ⊢
    obtain ⟨n, hn, hnt⟩ := hto
    exact ⟨n, hn, hnt.trans habove.to_reflTransGen⟩
  exact hyo.compatible ho hto huo htu hit hju (ItemDef.clashes_of_conflictWith hij)

/-- Merging what the supertypes of a declaration yield into the declaration. -/
theorem reports_of_supertype (hd : r.find? n = some d) (hn : n ∈ r.closure s)
    (hacyclic : ¬ Relation.TransGen r.Extends n n) (he : ofDeclaration d = .ok e) (ho : o.WellFormed)
    (hyo : r.Yields {u | u ∈ d.supertypes} o) (h : e.merge o kind = .error c) :
    r.Reports s (.conflict c) := by
  have hw := wellFormed_ofDeclaration he
  have hsub : {u | u ∈ d.supertypes} ⊆ r.closure s := fun u hu => closure_of_extends hn ⟨d, hd, hu⟩
  obtain ⟨i, hi, hnew, j, hj, hij⟩ := merge_error hw.toTidy ho h
  obtain ⟨t, hto, ht, hit⟩ := hyo.drawn ho hsub i hi
  rw [(hyo.proper t hto).declaringType hit, mem_allTypes_ofDeclaration he, name_of_find? hd] at hnew
  refine .clash ht hn hnew (fun hbelow => ?_) hit (mem_definitions_ofDeclaration hd he hj) hij
  rw [hyo.all_iff, ← transGen_iff hd] at hto
  exact hacyclic (hto.trans hbelow)

end Registry

end ContentTypes
