import ContentTypes.Proofs.Effective.Yields

/-! # Harmonious declarations

A set of types is `Harmonious` if the declarations of its closure are proper and no two of their
definitions clash. Such declarations are all taken (`Harmonious.ofDeclaration_ok`), and a set that yields an
effective type is harmonious (`Yields.harmonious`). -/

namespace ContentTypes

open EffectiveType

namespace Registry

/-- **The declarations above a set of types are harmonious**: each has a name and declares its own
definitions, and no two different definitions clash, be they of one declaration or of two. -/
structure Harmonious (r : Registry) (s : Set Name) : Prop where
  proper : ∀ t ∈ r.closure s, r.Proper t
  own : ∀ t ∈ r.closure s, (r.items t).Pairwise fun i j => ¬ i.Clashes j
  apart : ∀ t ∈ r.closure s, ∀ u ∈ r.closure s, t ≠ u → ∀ i ∈ r.items t, ∀ j ∈ r.items u, ¬ i.Clashes j

variable {r : Registry} {s s' : Set Name} {n : Name} {d : Declaration} {e : EffectiveType}

theorem Yields.harmonious (he : e.WellFormed) (h : r.Yields s e) : r.Harmonious s where
  proper t ht := h.proper t ((h.all_iff t).2 ht)
  own t ht := h.compatible_items he ((h.all_iff t).2 ht)
  apart t ht u hu htu _ hi _ hj :=
    h.compatible he ((h.all_iff t).2 ht) ((h.all_iff u).2 hu) htu hi hj

/-! ### Declarations -/

theorem Harmonious.ofDeclaration_ok (h : r.Harmonious s) (hn : n ∈ r.closure s)
    (hd : r.find? n = some d) : ∃ e, ofDeclaration d = .ok e := by
  obtain ⟨hne, d', hd', hown⟩ := h.proper n hn
  rw [hd] at hd'
  obtain rfl := Option.some.inj hd'
  have hname := name_of_find? hd
  have hpw := h.own n hn
  rw [items_of_find? hd] at hpw
  exact ⟨_, ofDeclaration_ok_iff.2 ⟨hname ▸ hne, hname ▸ hown, hpw, rfl⟩⟩

/-- What a single declaration holds are its own definitions. -/
theorem mem_definitions_ofDeclaration (hd : r.find? n = some d) (h : ofDeclaration d = .ok e)
    {i : ItemDef} (hi : i ∈ e.definitions) : i ∈ r.items n := by
  have hname := name_of_find? hd
  have he := wellFormed_ofDeclaration h
  rw [he.mem_definitions] at hi
  have htype : i.declaringType = n :=
    ((mem_allTypes_ofDeclaration h).1 (he.declared _ i hi)).trans hname
  have hmem : i ∈ (e.under i.name).filter (·.declaringType = n) :=
    List.mem_filter.2 ⟨hi, by simpa using htype⟩
  rw [carries_ofDeclaration hd h] at hmem
  exact (List.mem_filter.1 hmem).1

/-- What is yielded are definitions of the closure. -/
theorem Yields.drawn (he : e.WellFormed) (h : r.Yields s' e) (hs : s' ⊆ r.closure s) :
    ∀ i ∈ e.definitions, ∃ t ∈ e.allTypes, t ∈ r.closure s ∧ i ∈ r.items t := by
  intro i hi
  obtain ⟨t, ht, hit⟩ := (h.mem_definitions he).1 hi
  exact ⟨t, ht, closure_subset hs ((h.all_iff t).1 ht), hit⟩

end Registry

/-! ### Errors of building -/

/-- The errors of building: definitions clash, or a declaration cannot be taken. -/
def Error.OfBuilding (e : Error) : Prop := (∃ c, e = .conflict c) ∨ ∃ b, e = .badArgument b

theorem addOwnItem_error {type : Name} {e : EffectiveType} {i : ItemDef} {x : Error}
    (h : addOwnItem type e i = .error x) : x.OfBuilding := by
  unfold addOwnItem at h
  split at h
  · cases hadd : e.addItem i with
    | ok m => rw [hadd] at h; cases h
    | error c => rw [hadd] at h; cases h; exact Or.inl ⟨c, rfl⟩
  · cases h; exact Or.inr ⟨_, rfl⟩

theorem addOwnItems_error {type : Name} {x : Error} : ∀ {l : List ItemDef} {e : EffectiveType},
    l.foldlM (addOwnItem type) e = .error x → x.OfBuilding
  | [], _, h => by cases h
  | i :: l, e, h => by
    rw [List.foldlM_cons] at h
    cases hadd : addOwnItem type e i with
    | ok m => rw [hadd] at h; exact addOwnItems_error h
    | error y => rw [hadd] at h; cases h; exact addOwnItem_error hadd

theorem ofDeclaration_error {d : Declaration} {x : Error} (h : ofDeclaration d = .error x) :
    x.OfBuilding := by
  unfold ofDeclaration at h
  split at h
  · cases h; exact Or.inr ⟨_, rfl⟩
  · exact addOwnItems_error h

end ContentTypes
