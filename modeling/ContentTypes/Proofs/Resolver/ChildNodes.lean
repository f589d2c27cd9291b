import ContentTypes.Proofs.Resolver.Outcome

/-! # Which definition decides on a child node

A child node definition `Takes` children of a type if the type includes all types it requires. For a
child of a given name, the definitions of that name come before the residual ones, and among either the
first that takes the child decides. In terms of the declarations this is a definition of that name, or, if
none of them takes the child, the first residual definition of one of the nearest types with one that does
(`DecidesChild`): what is chosen is such a definition (`decidesChild_of_choose`), and something is chosen
if there is one (`exists_choose`). -/

namespace ContentTypes

open EffectiveType

/-- Items of the definition may be added by hand. -/
def ItemDef.Addable (i : ItemDef) : Prop := i.isProtected = false ∧ i.isAutoCreated = false

namespace Registry

/-- A child node definition that takes children of the type `primary`. -/
def Takes (r : Registry) (primary : Name) (i : ItemDef) : Prop :=
  i.definesNode = true ∧ ∀ t ∈ i.requiredPrimaryTypes, t ∈ r.closure {primary}

/-- `i` is a definition of the name `child` above the types `s` that takes children of the type
`primary`. -/
def DecidesNamed (r : Registry) (s : Set Name) (child primary : Name) (i : ItemDef) : Prop :=
  i.name = some child ∧ r.Takes primary i ∧ ∃ t ∈ r.closure s, i ∈ r.items t

/-- No definition of the name `child` takes the child, and `i` is the first residual one that takes it of
one of the types nearest to `s`. -/
def DecidesResidual (r : Registry) (s : Set Name) (child primary : Name) (i : ItemDef) : Prop :=
  (∀ j, ¬ r.DecidesNamed s child primary j) ∧
    r.Decides (fun i => i.name = none ∧ r.Takes primary i) s i

/-- **`i` can decide on a child** of the name `child` and the type `primary` below the types `s`. -/
def DecidesChild (r : Registry) (s : Set Name) (child primary : Name) (i : ItemDef) : Prop :=
  r.DecidesNamed s child primary i ∨ r.DecidesResidual s child primary i

end Registry

namespace Resolver

open Registry

variable {r : Registry} {s : Set Name} {e target : EffectiveType} {child primary : Name} {i : ItemDef}

/-- The candidates are the child node definitions of the name and then the residual ones. -/
theorem candidates_eq (e : EffectiveType) (child : Name) :
    candidates e child = (e.under (some child) ++ e.under none).filter (·.definesNode) := by
  rw [List.filter_append]
  rfl

/-- The first candidate that takes the child. -/
theorem choose_eq_ok_iff (ht : ∀ t, t ∈ target.allTypes ↔ t ∈ r.closure {primary}) :
    choose e child (target.includesAll ·.requiredPrimaryTypes) = .ok i ↔
      FirstWith (r.Takes primary) (e.under (some child) ++ e.under none) i := by
  have hfind : choose e child (target.includesAll ·.requiredPrimaryTypes) = .ok i ↔
      (candidates e child).find? (target.includesAll ·.requiredPrimaryTypes) = some i := by
    unfold choose
    cases (candidates e child).find? (target.includesAll ·.requiredPrimaryTypes) <;> simp
  rw [hfind, ← firstWith_iff_find?, candidates_eq, firstWith_filter]
  have htakes : ∀ j : ItemDef, (j.definesNode = true ∧
      target.includesAll j.requiredPrimaryTypes = true) ↔ r.Takes primary j := fun j => by
    rw [includesAll_iff, Takes]
    simp only [ht]
  exact ⟨fun h => h.congr fun j _ => htakes j, fun h => h.congr fun j _ => (htakes j).symm⟩

/-- What is chosen decides in terms of the declarations. -/
theorem decidesChild_of_choose (he : e.WellFormed) (hy : r.Yields s e)
    (ht : ∀ t, t ∈ target.allTypes ↔ t ∈ r.closure {primary})
    (h : choose e child (target.includesAll ·.requiredPrimaryTypes) = .ok i) :
    r.DecidesChild s child primary i := by
  rw [choose_eq_ok_iff ht, firstWith_append] at h
  rcases h with h | ⟨hno, h⟩
  · obtain ⟨hname, hi⟩ := (hy.mem_under he).1 h.mem
    obtain ⟨a, b, -, htakes, -⟩ := h
    exact Or.inl ⟨hname, htakes, hi⟩
  · refine Or.inr ⟨?_, (hy.first none _ i h).mono hy.merged_mem⟩
    rintro j ⟨hname, htakes, hj⟩
    exact hno j ((hy.mem_under he).2 ⟨hname, hj⟩) htakes

/-- Something is chosen if there is a definition to decide. -/
theorem exists_choose (he : e.WellFormed) (hy : r.Yields s e)
    (ht : ∀ t, t ∈ target.allTypes ↔ t ∈ r.closure {primary})
    (h : r.DecidesChild s child primary i) :
    ∃ j, choose e child (target.includesAll ·.requiredPrimaryTypes) = .ok j := by
  have hmem : i ∈ e.under (some child) ++ e.under none ∧ r.Takes primary i := by
    rw [List.mem_append, hy.mem_under he, hy.mem_under he]
    -- a nearest type lies in the closure, so what it declares is held
    rcases h with ⟨hname, htakes, hi⟩ | ⟨-, t, hnear, a, b, heq, ⟨hname, htakes⟩, -⟩
    · exact ⟨Or.inl ⟨hname, hi⟩, htakes⟩
    · exact ⟨Or.inr ⟨hname, t, hnear.mem_closure, by simp [heq]⟩, htakes⟩
  obtain ⟨j, hj⟩ := exists_firstWith hmem.1 hmem.2
  exact ⟨j, (choose_eq_ok_iff ht).2 hj⟩

/-- Two child node definitions of one name would clash. -/
theorem decidesNamed_unique (he : e.WellFormed) (hy : r.Yields s e) {j : ItemDef}
    (hi : r.DecidesNamed s child primary i) (hj : r.DecidesNamed s child primary j) : i = j := by
  obtain ⟨hni, hti, hi⟩ := hi
  obtain ⟨hnj, htj, hj⟩ := hj
  have hiu := (hy.mem_under he).2 ⟨hni, hi⟩
  have hju := (hy.mem_under he).2 ⟨hnj, hj⟩
  have hclash : i.Clashes j := by
    refine ⟨hni.trans hnj.symm, ?_⟩
    rw [hni, if_pos Option.isSome_some]
    exact Or.inr (Or.inr (Or.inl ⟨hti.1, htj.1⟩))
  by_contra hij
  exact (he.compatible (some child)).forall hiu hju hij hclash

/-- The definitions that can decide agree in what the residual ones among them agree in. -/
theorem decidesChild_agree {q : ItemDef → Prop} (he : e.WellFormed) (hy : r.Yields s e)
    (hagree : ∀ i j, r.DecidesResidual s child primary i → r.DecidesResidual s child primary j →
      (q i ↔ q j)) {j : ItemDef}
    (hi : r.DecidesChild s child primary i) (hj : r.DecidesChild s child primary j) : q i ↔ q j := by
  rcases hi with hi | hi
  · rcases hj with hj | hj
    · rw [decidesNamed_unique he hy hi hj]
    · exact absurd hi (hj.1 i)
  · rcases hj with hj | hj
    · exact absurd hj (hi.1 j)
    · exact hagree i j hi hj

/-! ### The verdict -/

/-- A type that is registered and no mixin is resolved, and among the candidates is chosen. -/
theorem typedChildDefinition_of_primary {s : Resolver} {d : Declaration}
    (hd : s.registry.find? primary = some d) (hm : d.isMixin = false) :
    (s.typedChildDefinition e child primary).1 = (s.resolve [primary]).1 >>= fun target =>
      choose e child (target.includesAll ·.requiredPrimaryTypes) := by
  simp only [typedChildDefinition, hd, hm]
  rfl

theorem typedChildDefinition_ok_iff {s : Resolver} :
    (s.typedChildDefinition e child primary).1 = .ok i ↔
      ∃ d target, s.registry.find? primary = some d ∧ d.isMixin = false ∧
        (s.resolve [primary]).1 = .ok target ∧
        choose e child (target.includesAll ·.requiredPrimaryTypes) = .ok i := by
  cases hd : s.registry.find? primary with
  | none => simp [typedChildDefinition, hd]
  | some d =>
    cases hm : d.isMixin with
    | true => simp [typedChildDefinition, hd, hm]
    | false =>
      rw [typedChildDefinition_of_primary hd hm, bind_ok_iff]
      simp [hm]

theorem checkAddTyped_ok_iff {found : Except Error ItemDef} :
    EffectiveType.checkAddTyped child found = .ok () ↔ ∃ i, found = .ok i ∧ i.Addable := by
  unfold EffectiveType.checkAddTyped ItemDef.Addable
  cases found with
  | error x => simp
  | ok i => cases hp : i.isProtected <;> cases ha : i.isAutoCreated <;> simp [hp, ha]

/-- **When a child of a given type may be added**: the type is declared, no mixin and resolves, and the
definition that is chosen is addable. -/
theorem checkAdd_typed_ok_iff {s : Resolver} :
    (s.checkAdd e child (some primary)).1 = .ok () ↔
      ∃ d target i, s.registry.find? primary = some d ∧ d.isMixin = false ∧
        (s.resolve [primary]).1 = .ok target ∧
        choose e child (target.includesAll ·.requiredPrimaryTypes) = .ok i ∧ i.Addable := by
  show EffectiveType.checkAddTyped child (s.typedChildDefinition e child primary).1 = .ok () ↔ _
  rw [checkAddTyped_ok_iff]
  constructor
  · rintro ⟨i, hi, hadd⟩
    obtain ⟨d, target, hd, hm, ht, hi⟩ := typedChildDefinition_ok_iff.1 hi
    exact ⟨d, target, i, hd, hm, ht, hi, hadd⟩
  · rintro ⟨d, target, i, hd, hm, ht, hi, hadd⟩
    exact ⟨i, typedChildDefinition_ok_iff.2 ⟨d, target, hd, hm, ht, hi⟩, hadd⟩

end Resolver

end ContentTypes
