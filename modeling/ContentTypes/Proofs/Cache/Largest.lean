import ContentTypes.Proofs.Cache.Containers

/-! # The largest cached subset

Whatever was done to a cache, and with whatever keys, a search for the largest cached subset of a key finds
one, if there is any at all: no other cached key within the key has more bits, and of those with as many
bits it is the one whose words are the digits of the largest number (`findBest?_largest`).

Two facts about the entries carry this. They stand in the strict order of their keys (`Cache.Ordered`), so
the first key within another is a largest one (`order_of_scan`); and the two keys of an entry have the same
bits (`Cache.Aligned`), so the key of an exact hit has the bits of the key that a scan of the keys would
find (`scan?_of_find?`). -/

namespace ContentTypes

namespace Cache

variable {c : Cache} {key best k l : Key} {e : Entry}

/-! ### Exact hits -/

/-- **The key of an exact hit** has the bits of the key that the scan finds. -/
theorem scan?_of_find? (ho : c.Ordered) (h : c.find? key = some e) : c.scan? key = some e.key := by
  obtain ⟨he, hsame⟩ := (find?_eq_some_iff ho).1 h
  have hmem : e.key ∈ c.keys := List.mem_map_of_mem he
  have hbits := Key.same_iff_bits.1 hsame
  have hcontains : key.contains e.key = true :=
    (all_contains_iff key.words e.key.words).2 fun b hb => by rwa [← hbits b]
  cases hscan : c.scan? key with
  | none =>
    have hno := scan?_eq_none_iff.1 hscan e.key hmem
    rw [hcontains] at hno
    cases hno
  | some best =>
    rcases order_of_scan ho hscan hmem hcontains with rfl | hlt
    · rfl
    · -- the key found lies within the requested one, so it cannot come before that
      have hsize : e.key.size = key.size := Key.size_eq_of_bits hbits
      have hvalue : wordsValue e.key.words = wordsValue key.words := Key.wordsValue_eq_of_bits hbits
      have hsmaller := Key.smaller_of_compare hlt
      rcases Key.size_lt_or_same_of_contains (mem_of_scan hscan).2 with hbest | hbest
      · omega
      · have hbbits := Key.same_iff_bits.1 hbest
        have hbsize : best.size = key.size := Key.size_eq_of_bits hbbits
        have hbvalue : wordsValue best.words = wordsValue key.words := Key.wordsValue_eq_of_bits hbbits
        omega

/-- What a search finds has the bits of what the scan finds. -/
theorem exists_scan_of_findBest? (ho : c.Ordered) (ha : c.Aligned) (h : c.findBest? key = some best) :
    ∃ k, c.scan? key = some k ∧ best.same k = true := by
  cases hfound : c.find? key with
  | some e =>
    rw [findBest?, hfound] at h
    obtain rfl := Option.some.inj h
    exact ⟨e.key, scan?_of_find? ho hfound, ha e (List.mem_of_find?_eq_some hfound)⟩
  | none =>
    rw [findBest?_of_not_find? hfound] at h
    exact ⟨best, h, Key.same_iff_bits.2 fun _ => rfl⟩

theorem findBest?_eq_none_iff (ho : c.Ordered) :
    c.findBest? key = none ↔ ∀ k ∈ c.keys, key.contains k = false := by
  rw [← scan?_eq_none_iff]
  cases hfound : c.find? key with
  | some e => simp [findBest?, hfound, scan?_of_find? ho hfound]
  | none => rw [findBest?_of_not_find? hfound]

theorem contains_of_same (hk : k ∈ c.keys) (h : best.same k = true) : c.contains best = true := by
  obtain ⟨e, he, rfl⟩ := List.mem_map.1 hk
  have hbits := Key.same_iff_bits.1 h
  rw [contains, find?, List.find?_isSome]
  exact ⟨e, he, Key.same_iff_bits.2 fun b => (hbits b).symm⟩

/-- **The largest cached subset.** After any operations on a cache, a search finds nothing exactly if no
cached key lies within the requested one. What it finds is cached and lies within the requested key, and
every other cached key within that has fewer bits, or as many and its words are the digits of a smaller
number. It has the bits of the first key in order within the requested one, in particular if it is found as
an exact hit. The two containers, kept apart by the same operations, find the same and have the same keys.
-/
theorem findBest?_largest (operations : List Operation) (q : Key) :
    let c := after operations
    let d := Containers.after operations
    (d.findBest? q = c.findBest? q ∧ d.index = c.keys) ∧
    (c.findBest? q = none ↔ ∀ k ∈ c.keys, q.contains k = false) ∧
    ∀ best, c.findBest? q = some best → c.contains best = true ∧ q.contains best = true ∧
      (∀ k ∈ c.keys, q.contains k = true → k.same best = true ∨ k.size < best.size ∨
        (k.size = best.size ∧ wordsValue k.words < wordsValue best.words)) ∧
      ∃ k ∈ c.keys, d.index.find? q.contains = some k ∧ best.same k = true := by
  intro c d
  obtain ⟨ho, ha⟩ := ordered_aligned_after operations
  have hjoins : d.Joins c := Containers.joins_after operations
  refine ⟨⟨hjoins.findBest?_eq ho ha q, hjoins.index⟩, findBest?_eq_none_iff ho, fun best hbest => ?_⟩
  obtain ⟨k, hscan, hsame⟩ := exists_scan_of_findBest? ho ha hbest
  obtain ⟨hk, hcontains⟩ := mem_of_scan hscan
  have hbits := Key.same_iff_bits.1 hsame
  have hsize : best.size = k.size := Key.size_eq_of_bits hbits
  have hvalue : wordsValue best.words = wordsValue k.words := Key.wordsValue_eq_of_bits hbits
  refine ⟨contains_of_same hk hsame, ?_, fun l hl hlq => ?_, k, hk, ?_, hsame⟩
  · refine (all_contains_iff q.words best.words).2 fun b hb => ?_
    rw [hbits b] at hb
    exact (all_contains_iff q.words k.words).1 hcontains b hb
  · rcases order_of_scan ho hscan hl hlq with rfl | hlt
    · exact Or.inl (Key.same_iff_bits.2 fun b => (hbits b).symm)
    · rw [hsize, hvalue]
      exact Or.inr (Key.smaller_of_compare hlt)
  · rw [hjoins.index]
    exact hscan

end Cache

end ContentTypes
