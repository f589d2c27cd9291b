import Mathlib.Data.List.Pairwise
import ContentTypes.Proofs.Cache.Contents
import ContentTypes.Proofs.Key.Order

/-! # The order of the entries

The entries of a cache stand in the strict order of their keys (`Cache.Ordered`), which every operation
keeps. So at most one type is held under a set of names (`Holds.unique`), and of the keys within another
the first is found by a scan (`scan?`) before all others (`order_of_scan`). The cached subset that a search
finds is a largest one (`size_le_of_largest`); if it finds none there is none (`not_holds_of_largest`). -/

namespace ContentTypes

namespace Cache

/-- The entries stand in the order of their keys, no two of them with keys of the same bits. -/
def Ordered (c : Cache) : Prop := c.entries.Pairwise fun a b => a.key.compare b.key = .lt

variable {c : Cache} {key best k : Key} {names : NameSet} {type type' : EffectiveType} {a b : Entry}

theorem ordered_empty : ({} : Cache).Ordered := List.Pairwise.nil

theorem Ordered.erase (h : c.Ordered) (key : Key) : (c.erase key).Ordered := h.filter _

theorem Ordered.invalidate (h : c.Ordered) (n : Name) : (c.invalidate n).2.Ordered := h.filter _

theorem key_of_mem_place {l : List Entry} (h : b ∈ place key type l) : b.key = key ∨ b ∈ l := by
  rcases mem_place h with rfl | ⟨_, -, -, rfl⟩ | h
  · exact Or.inl rfl
  · exact Or.inl rfl
  · exact Or.inr h

theorem pairwise_place (key : Key) (type : EffectiveType) : ∀ {l : List Entry},
    l.Pairwise (fun a b => a.key.compare b.key = .lt) →
      (place key type l).Pairwise fun a b => a.key.compare b.key = .lt
  | [], _ => List.pairwise_singleton _ _
  | e :: l, h => by
    obtain ⟨he, hl⟩ := List.pairwise_cons.1 h
    rw [place]
    split
    · next hlt =>
      refine List.pairwise_cons.2 ⟨fun b hb => ?_, h⟩
      rcases List.mem_cons.1 hb with rfl | hb
      · exact hlt
      · exact Std.TransCmp.lt_trans hlt (he b hb)
    · next heq =>
      refine List.pairwise_cons.2 ⟨fun b hb => ?_, hl⟩
      exact (Std.TransCmp.congr_left heq).trans (he b hb)
    · next hgt =>
      refine List.pairwise_cons.2 ⟨fun b hb => ?_, pairwise_place key type hl⟩
      rcases key_of_mem_place hb with hb | hb
      · rw [hb]
        exact Std.OrientedCmp.gt_iff_lt.1 hgt
      · exact he b hb

theorem Ordered.put (h : c.Ordered) (key : Key) (type : EffectiveType) : (c.put key type).Ordered :=
  pairwise_place key type h

/-! ### What is held -/

/-- No two entries have keys of the same bits. -/
theorem Ordered.eq_of_compare (ho : c.Ordered) (ha : a ∈ c.entries) (hb : b ∈ c.entries)
    (h : a.key.compare b.key = .eq) : a = b := by
  have hsymm : Std.Symm fun a b : Entry => a.key.compare b.key ≠ .eq :=
    ⟨fun _ _ h h' => h (Std.OrientedCmp.eq_symm h')⟩
  have hdistinct := ho.imp (S := fun a b => a.key.compare b.key ≠ .eq) fun hlt => by simp [hlt]
  by_contra hne
  exact hdistinct.forall ha hb hne h

/-- At most one type is held under a set of names. -/
theorem Holds.unique (ho : c.Ordered) (hc : c.Keyed) (h : c.Holds names type)
    (h' : c.Holds names type') : type = type' := by
  obtain ⟨a, ha, hka, rfl⟩ := h
  obtain ⟨b, hb, hkb, rfl⟩ := h'
  have heq := (Key.compare_eq_iff hc.valid (hc.entries a ha).key (hc.entries b hb).key).2
    (hka.trans hkb.symm)
  rw [ho.eq_of_compare ha hb heq]

/-! ### Searching in order -/

/-- The first key in order that lies within a key. -/
def scan? (c : Cache) (key : Key) : Option Key := c.keys.find? key.contains

theorem Ordered.keys (h : c.Ordered) : c.keys.Pairwise fun k l => k.compare l = .lt := List.pairwise_map.2 h

theorem mem_of_scan (h : c.scan? key = some best) : best ∈ c.keys ∧ key.contains best = true :=
  ⟨List.mem_of_find?_eq_some h, List.find?_some (p := key.contains) h⟩

theorem scan?_eq_none_iff : c.scan? key = none ↔ ∀ k ∈ c.keys, key.contains k = false := by
  rw [scan?, List.find?_eq_none]
  simp

/-- A key within the requested one is the key that the scan finds, or comes after it. -/
theorem order_of_scan (ho : c.Ordered) (h : c.scan? key = some best) (hk : k ∈ c.keys)
    (hcontains : key.contains k = true) : k = best ∨ best.compare k = .lt := by
  obtain ⟨-, before, rest, hkeys, hbefore⟩ := List.find?_eq_some_iff_append.1 h
  have hordered := ho.keys
  rw [hkeys] at hk hordered
  rcases List.mem_append.1 hk with hk | hk
  · have hno := hbefore k hk
    simp [hcontains] at hno
  · have hafter := (List.pairwise_cons.1 (List.pairwise_append.1 hordered).2.1).1
    rcases List.mem_cons.1 hk with rfl | hk
    · exact Or.inl rfl
    · exact Or.inr (hafter k hk)

theorem findBest?_of_not_find? (h : c.find? key = none) : c.findBest? key = c.scan? key := by
  rw [findBest?, h, scan?, Cache.keys, List.find?_map]
  rfl

/-- The largest cached subset of the names of a list. -/
def largest? (c : Cache) (names : List Name) : Option NameSet :=
  let (key, c) := c.keyFor names
  (c.findBest? key).map (·.names)

theorem largest?_keyFor (hc : c.Keyed) (names : List Name) :
    (c.keyFor names).2.largest? names = c.largest? names :=
  congrArg (Option.map Key.names) (findBest?_keyFor hc names)

/-- No cached subset has more names than the one that a search finds. -/
theorem size_le_of_largest (ho : c.Ordered) (hc : c.Keyed) (hk : key.Numbered c.numbering)
    (h : ((c.findBest? key).bind fun best => (c.get? best).map (best, ·)) = some (best, type))
    (hheld : c.Holds names type') (hsub : ∀ n ∈ names, n ∈ key.names) : names.size ≤ best.names.size := by
  have hfound := (found_of_largest h).1
  cases hexact : c.find? key with
  | some e =>
    -- the key itself is held
    rw [findBest?, hexact] at hfound
    obtain rfl := Option.some.inj hfound
    have hn := hc.entries e (List.mem_of_find?_eq_some hexact)
    have hsame := List.find?_some (p := fun e : Entry => e.key.same key) hexact
    rw [hn.names_eq, (Key.same_iff hc.valid hn.key hk).1 hsame]
    exact NameSet.size_le hsub
  | none =>
    rw [findBest?_of_not_find? hexact] at hfound
    obtain ⟨f, hf, rfl, -⟩ := hheld
    obtain ⟨e, he, rfl⟩ := List.mem_map.1 (mem_of_scan hfound).1
    have hfn := (hc.entries f hf).key
    have hen := (hc.entries e he).key
    have hcontains := (Key.contains_iff hc.valid hk hfn).2 hsub
    rcases order_of_scan ho hfound (List.mem_map_of_mem hf) hcontains with heq | hlt
    · exact (congrArg (·.names.size) heq).le
    · -- the keys stand in the order of their sizes
      rw [← hfn.size_eq hc.valid, ← hen.size_eq hc.valid]
      rcases Key.smaller_of_compare hlt with hless | ⟨hsame, -⟩
      · exact hless.le
      · exact hsame.le

/-- The subset that a search finds is not within a larger one. -/
theorem subset_of_largest (ho : c.Ordered) (hc : c.Keyed) (hk : key.Numbered c.numbering)
    (h : ((c.findBest? key).bind fun best => (c.get? best).map (best, ·)) = some (best, type))
    (hheld : c.Holds names type') (hsub : ∀ n ∈ names, n ∈ key.names)
    (hbest : ∀ n ∈ best.names, n ∈ names) : ∀ n ∈ names, n ∈ best.names := by
  intro n hn
  by_contra hno
  have hsize := size_le_of_largest ho hc hk h hheld hsub
  exact absurd (NameSet.size_lt hbest hn hno) (Nat.not_lt.2 hsize)

/-- If the search finds nothing, no subset is held. -/
theorem not_holds_of_largest (hc : c.Keyed) (hk : key.Numbered c.numbering)
    (h : ((c.findBest? key).bind fun best => (c.get? best).map (best, ·)) = none)
    (hsub : ∀ n ∈ names, n ∈ key.names) : ¬ c.Holds names type := by
  rintro ⟨e, he, rfl, rfl⟩
  have hheld : ∀ f ∈ c.entries, ∀ k : Key, k.Numbered c.numbering → k.names = f.key.names →
      c.get? k ≠ none := fun f hf k hkn hnames hnone =>
    not_holds_of_get? hc hkn hnone ⟨f, hf, hnames.symm, rfl⟩
  rw [Option.bind_eq_none_iff] at h
  cases hexact : c.find? key with
  | some f =>
    have hf : f ∈ c.entries := List.mem_of_find?_eq_some hexact
    have hn := hc.entries f hf
    have hnone := h f.firstKey (by rw [findBest?, hexact])
    exact hheld f hf _ hn.firstKey hn.names_eq (Option.map_eq_none_iff.1 hnone)
  | none =>
    rw [findBest?_of_not_find? hexact] at h
    have hcont := (Key.contains_iff hc.valid hk (hc.entries e he).key).2 hsub
    cases hscan : c.scan? key with
    | none =>
      have hno := scan?_eq_none_iff.1 hscan e.key (List.mem_map_of_mem he)
      rw [hcont] at hno
      cases hno
    | some best =>
      obtain ⟨f, hf, rfl⟩ := List.mem_map.1 (mem_of_scan hscan).1
      exact hheld f hf _ (hc.entries f hf).key rfl (Option.map_eq_none_iff.1 (h f.key hscan))

end Cache

end ContentTypes
