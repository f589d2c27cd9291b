import Mathlib.Data.Set.Card
import Mathlib.Logic.Relation
import ContentTypes.Guard
import ContentTypes.Registry

/-! # The supertypes of a set of types

`Registry.Extends` is the step from a type to an immediate supertype, `Registry.closure` the types reached
from a set of types by any number of steps. A set of types is `Sound` if its closure is registered,
without cycles and not too large, and no chain from the set is too long: what a request has to fulfil
before anything is built for it. Soundness passes to every set within the closure (`Sound.mono`), and all
of this depends on the declarations of the closure only (`AgreeOn.closure_eq`, `Sound.congr`). -/

namespace ContentTypes.Registry

/-- `s` is an immediate supertype of `n`. -/
def Extends (r : Registry) (n s : Name) : Prop := ∃ d, r.find? n = some d ∧ s ∈ d.supertypes

/-- **The supertype closure**: the types reached by zero or more steps to an immediate supertype. -/
def closure (r : Registry) (s : Set Name) : Set Name :=
  {t | ∃ n ∈ s, Relation.ReflTransGen r.Extends n t}

variable {r r' : Registry} {s s' : Set Name} {n t : Name}

theorem subset_closure (r : Registry) (s : Set Name) : s ⊆ r.closure s :=
  fun n hn => ⟨n, hn, .refl⟩

theorem closure_of_extends {u : Name} (ht : t ∈ r.closure s) (h : r.Extends t u) : u ∈ r.closure s := by
  obtain ⟨n, hn, hnt⟩ := ht
  exact ⟨n, hn, hnt.tail h⟩

/-- The closure of a set within a closure is within it. -/
theorem closure_subset (h : s' ⊆ r.closure s) : r.closure s' ⊆ r.closure s := by
  rintro t ⟨n, hn, hnt⟩
  obtain ⟨m, hm, hmn⟩ := h hn
  exact ⟨m, hm, hmn.trans hnt⟩

theorem closure_union (r : Registry) (s s' : Set Name) :
    r.closure (s ∪ s') = r.closure s ∪ r.closure s' := by
  ext t
  constructor
  · rintro ⟨n, hn | hn, h⟩
    · exact Or.inl ⟨n, hn, h⟩
    · exact Or.inr ⟨n, hn, h⟩
  · rintro (⟨n, hn, h⟩ | ⟨n, hn, h⟩)
    · exact ⟨n, Or.inl hn, h⟩
    · exact ⟨n, Or.inr hn, h⟩

/-- Above a declared type are the type itself and what is above its immediate supertypes. -/
theorem mem_closure_singleton {d : Declaration} (hd : r.find? n = some d) :
    t ∈ r.closure {n} ↔ t = n ∨ t ∈ r.closure {u | u ∈ d.supertypes} := by
  constructor
  · rintro ⟨m, rfl, h⟩
    rcases h.cases_head with rfl | ⟨u, ⟨d', hd', hu⟩, h⟩
    · exact Or.inl rfl
    · rw [hd] at hd'
      obtain rfl := Option.some.inj hd'
      exact Or.inr ⟨u, hu, h⟩
  · rintro (rfl | ⟨u, hu, h⟩)
    · exact ⟨t, rfl, .refl⟩
    · exact ⟨n, rfl, h.head ⟨d, hd, hu⟩⟩

/-- The proper supertypes of a declared type are those above its immediate supertypes. -/
theorem transGen_iff {d : Declaration} (hd : r.find? n = some d) :
    Relation.TransGen r.Extends n t ↔ t ∈ r.closure {u | u ∈ d.supertypes} := by
  rw [Relation.TransGen.head'_iff]
  constructor
  · rintro ⟨u, ⟨d', hd', hu⟩, h⟩
    rw [hd] at hd'
    obtain rfl := Option.some.inj hd'
    exact ⟨u, hu, h⟩
  · rintro ⟨u, hu, h⟩
    exact ⟨u, ⟨d, hd, hu⟩, h⟩

/-! ### Chains -/

/-- What comes next on a chain lies above its first type. -/
theorem transGen_of_isChain {l : List Name} (hl : (n :: l).IsChain r.Extends) (ht : t ∈ l) :
    Relation.TransGen r.Extends n t :=
  List.rel_of_pairwise_cons (hl.imp fun _ _ => Relation.TransGen.single).pairwise ht

/-- A chain of types none of which is on a cycle meets no type twice. -/
theorem nodup_of_isChain {l : List Name} (hl : l.IsChain r.Extends)
    (h : ∀ t ∈ l, ¬ Relation.TransGen r.Extends t t) : l.Nodup := by
  refine (hl.imp fun _ _ => Relation.TransGen.single).pairwise.imp_of_mem ?_
  rintro a b ha - hab rfl
  exact h a ha hab

/-- A chain from above goes on to a chain from below that is no shorter. -/
theorem exists_chain_of_reaches (h : Relation.ReflTransGen r.Extends n t) {l : List Name}
    (hl : (t :: l).IsChain r.Extends) :
    ∃ l', (n :: l').IsChain r.Extends ∧ (t :: l).length ≤ (n :: l').length := by
  induction h using Relation.ReflTransGen.head_induction_on with
  | refl => exact ⟨l, hl, le_rfl⟩
  | head h _ ih =>
    obtain ⟨l', hc, hlen⟩ := ih
    refine ⟨_ :: l', List.isChain_cons_cons.2 ⟨h, hc⟩, ?_⟩
    simp only [List.length_cons] at hlen ⊢
    omega

/-- From a type on a cycle there are chains of any length. -/
theorem exists_chain_of_cycle (h : Relation.TransGen r.Extends t t) :
    ∀ k, ∃ l, (t :: l).IsChain r.Extends ∧ k ≤ l.length
  | 0 => ⟨[], List.isChain_singleton t, le_rfl⟩
  | k + 1 => by
    obtain ⟨l, hl, hk⟩ := exists_chain_of_cycle h k
    obtain ⟨u, htu, hut⟩ := Relation.TransGen.head'_iff.1 h
    obtain ⟨l', hl', hlen⟩ := exists_chain_of_reaches hut hl
    refine ⟨u :: l', List.isChain_cons_cons.2 ⟨htu, hl'⟩, ?_⟩
    simp only [List.length_cons] at hlen ⊢
    omega

/-! ### Sound sets of types -/

/-- **The inheritance of a set of types is sound**: everything above it is registered and not on a
cycle, no chain of more than `maxSupertypeDepth` types starts in it, and its closure has at most
`maxSupertypeVisits` types. -/
structure Sound (r : Registry) (s : Set Name) : Prop where
  registered : ∀ t ∈ r.closure s, r.contains t = true
  acyclic : ∀ t ∈ r.closure s, ¬ Relation.TransGen r.Extends t t
  shallow : ∀ n ∈ s, ∀ l, (n :: l).IsChain r.Extends →
    (n :: l).length ≤ VisitGuard.maxSupertypeDepth
  few : (r.closure s).encard ≤ VisitGuard.maxSupertypeVisits

theorem Sound.mono (h : r.Sound s) (hs : s' ⊆ r.closure s) : r.Sound s' where
  registered t ht := h.registered t (closure_subset hs ht)
  acyclic t ht := h.acyclic t (closure_subset hs ht)
  shallow n hn l hl := by
    obtain ⟨m, hm, hmn⟩ := hs hn
    obtain ⟨l', hl', hlen⟩ := exists_chain_of_reaches hmn hl
    exact hlen.trans (h.shallow m hm l' hl')
  few := (Set.encard_le_encard (closure_subset hs)).trans h.few

/-- A set has no list of more different members than it has. -/
theorem length_le_encard {l : List Name} (hl : l.Nodup) (hs : ∀ n ∈ l, n ∈ s) :
    (l.length : ℕ∞) ≤ s.encard := by
  classical
  have hsub : (l.toFinset : Set Name) ⊆ s := fun n hn => hs n (by simpa using hn)
  have := Set.encard_le_encard hsub
  rwa [Set.encard_coe_eq_coe_finsetCard, List.toFinset_card_of_nodup hl] at this

theorem length_le_of_encard {k : ℕ} (h : s.encard ≤ k) {l : List Name} (hl : l.Nodup)
    (hs : ∀ n ∈ l, n ∈ s) : l.length ≤ k := by
  exact_mod_cast (length_le_encard hl hs).trans h

/-- A list of at most `k` names has no more than `k` members. -/
theorem encard_le_of_length {k : ℕ} {l : List Name} (h : l.length ≤ k) :
    {n | n ∈ l}.encard ≤ k := by
  classical
  have heq : {n | n ∈ l} = (l.toFinset : Set Name) := by ext n; simp
  rw [heq, Set.encard_coe_eq_coe_finsetCard]
  exact_mod_cast (List.toFinset_card_le l).trans h

/-! ### What does not change with the declarations elsewhere -/

/-- Two registries have the same declarations on a set of names. -/
def AgreeOn (r r' : Registry) (s : Set Name) : Prop := ∀ n ∈ s, r.find? n = r'.find? n

theorem AgreeOn.reaches (h : r.AgreeOn r' (r.closure s)) (hn : n ∈ s)
    (hnt : Relation.ReflTransGen r.Extends n t) : Relation.ReflTransGen r'.Extends n t := by
  induction hnt with
  | refl => exact .refl
  | @tail u v hnu huv ih =>
    obtain ⟨d, hd, hv⟩ := huv
    exact ih.tail ⟨d, by rw [← h u ⟨n, hn, hnu⟩, hd], hv⟩

theorem AgreeOn.reaches_symm (h : r.AgreeOn r' (r.closure s)) (hn : n ∈ s)
    (hnt : Relation.ReflTransGen r'.Extends n t) : Relation.ReflTransGen r.Extends n t := by
  induction hnt with
  | refl => exact .refl
  | @tail u v _ huv ih =>
    obtain ⟨d, hd, hv⟩ := huv
    exact ih.tail ⟨d, by rw [h u ⟨n, hn, ih⟩, hd], hv⟩

theorem AgreeOn.closure_eq (h : r.AgreeOn r' (r.closure s)) : r'.closure s = r.closure s := by
  ext t
  constructor
  · rintro ⟨n, hn, hnt⟩
    exact ⟨n, hn, h.reaches_symm hn hnt⟩
  · rintro ⟨n, hn, hnt⟩
    exact ⟨n, hn, h.reaches hn hnt⟩

/-- Registries that agree on a closure agree on what is within it. -/
theorem AgreeOn.mono (h : r.AgreeOn r' (r.closure s)) (hs : s' ⊆ r.closure s) :
    r.AgreeOn r' (r.closure s') :=
  fun n hn => h n (closure_subset hs hn)

theorem AgreeOn.extends_iff (h : r.AgreeOn r' (r.closure s)) (ht : t ∈ r.closure s) {u : Name} :
    r'.Extends t u ↔ r.Extends t u := by
  unfold Extends
  rw [h t ht]

theorem AgreeOn.transGen (h : r.AgreeOn r' (r.closure s)) (ht : t ∈ r.closure s) {u : Name}
    (htu : Relation.TransGen r'.Extends t u) : Relation.TransGen r.Extends t u := by
  obtain ⟨v, htv, hvu⟩ := Relation.TransGen.head'_iff.1 htu
  have htv := (h.extends_iff ht).1 htv
  have hv := closure_of_extends ht htv
  refine Relation.TransGen.head'_iff.2 ⟨v, htv, ?_⟩
  exact (h.mono (Set.singleton_subset_iff.2 hv)).reaches_symm rfl hvu

theorem AgreeOn.isChain (h : r.AgreeOn r' (r.closure s)) : ∀ {l : List Name} {n : Name},
    n ∈ r.closure s → (n :: l).IsChain r'.Extends → (n :: l).IsChain r.Extends
  | [], n, _, _ => List.isChain_singleton n
  | m :: l, n, hn, hl => by
    obtain ⟨hnm, hl⟩ := List.isChain_cons_cons.1 hl
    have hnm := (h.extends_iff hn).1 hnm
    exact List.isChain_cons_cons.2 ⟨hnm, h.isChain (closure_of_extends hn hnm) hl⟩

theorem Sound.congr (hs : r.Sound s) (h : r.AgreeOn r' (r.closure s)) : r'.Sound s where
  registered t ht := by
    rw [h.closure_eq] at ht
    obtain ⟨d, hd⟩ := contains_iff.1 (hs.registered t ht)
    exact contains_iff.2 ⟨d, by rw [← h t ht, hd]⟩
  acyclic t ht hc := by
    rw [h.closure_eq] at ht
    exact hs.acyclic t ht (h.transGen ht hc)
  shallow n hn l hl := hs.shallow n hn l (h.isChain (r.subset_closure s hn) hl)
  few := by rw [h.closure_eq]; exact hs.few

end ContentTypes.Registry
