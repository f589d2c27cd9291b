import Mathlib.Data.List.Nodup
import Mathlib.Data.List.Perm.Subperm
import Mathlib.Data.Option.Basic
import ContentTypes.Numbering
import ContentTypes.Proofs.Key.Words

/-! # Keys as sets of names

Under a numbering that gives different names different numbers (`Numbering.Valid`), a key is as good as
its set of names (`Key.Numbered`): inclusion, difference, emptiness and equality of bits are those of the
names (`contains_iff`, `Numbered.subtract`, `isEmpty_iff`, `same_iff`, `compare_eq_iff`), and the key is as
large as the set (`Numbered.size_eq`). Building a key numbers its names and keeps all numbers given before
(`Numbering.Grows`), under which keys keep their meaning (`Numbered.mono`, `keyFor_numbered`). -/

namespace ContentTypes

/-! ### Sizes of sets of names -/

namespace NameSet

variable {s t : NameSet} {n : Name}

theorem nodup_toList (s : NameSet) : s.toList.Nodup :=
  s.sorted.imp fun {n m} (hlt : n < m) (heq : n = m) => String.lt_irrefl m (heq ▸ hlt)

theorem size_le (h : ∀ n ∈ s, n ∈ t) : s.size ≤ t.size :=
  (s.nodup_toList.subperm h).length_le

/-- A proper part is smaller. -/
theorem size_lt (h : ∀ n ∈ s, n ∈ t) (hn : n ∈ t) (hs : n ∉ s) : s.size < t.size := by
  have hnodup : (n :: s.toList).Nodup := List.nodup_cons.2 ⟨hs, s.nodup_toList⟩
  refine (hnodup.subperm fun m hm => ?_).length_le
  rcases List.mem_cons.1 hm with rfl | hm
  · exact hn
  · exact h m hm

end NameSet

namespace Numbering

/-- Names and numbers correspond in both directions. -/
def Valid (t : Numbering) : Prop := ∀ n b, t.lookup n = some b ↔ t.nameAt b = some n

/-- `u` keeps the numbers that `t` has given. -/
def Grows (t u : Numbering) : Prop := ∀ n b, t.lookup n = some b → u.lookup n = some b

theorem Grows.refl (t : Numbering) : t.Grows t := fun _ _ h => h

theorem Grows.trans {t u v : Numbering} (h : t.Grows u) (h' : u.Grows v) : t.Grows v :=
  fun n b hb => h' n b (h n b hb)

theorem valid_empty : ({} : Numbering).Valid := by simp [Valid, lookup, nameAt]

theorem Valid.lookup_inj {t : Numbering} (ht : t.Valid) {n m : Name} {b : Nat}
    (hn : t.lookup n = some b) (hm : t.lookup m = some b) : n = m := by
  rw [ht] at hn hm
  rw [hn] at hm
  exact Option.some.inj hm

/-! ### Numbering one name -/

theorem bitFor_of_lookup {t : Numbering} {n : Name} {b : Nat} (h : t.lookup n = some b) :
    t.bitFor n = (b, t) := by
  rw [bitFor, h]

theorem bitFor_of_new {t : Numbering} {n : Name} (h : t.lookup n = none) :
    t.bitFor n =
      (t.names.size, { numbers := t.numbers.insert n t.names.size, names := t.names.push n }) := by
  rw [bitFor, h]

theorem lookup_bitFor (t : Numbering) (n : Name) : (t.bitFor n).2.lookup n = some (t.bitFor n).1 := by
  cases h : t.lookup n with
  | some b => rw [bitFor_of_lookup h]; exact h
  | none => rw [bitFor_of_new h]; simp [lookup]

theorem bitFor_grows (t : Numbering) (n : Name) : t.Grows (t.bitFor n).2 := by
  cases h : t.lookup n with
  | some b => rw [bitFor_of_lookup h]; exact Grows.refl t
  | none =>
    rw [bitFor_of_new h]
    intro m b hm
    have hne : n ≠ m := by rintro rfl; rw [h] at hm; cases hm
    simpa [lookup, Std.TreeMap.getElem?_insert, hne] using hm

theorem Valid.bitFor {t : Numbering} (ht : t.Valid) (n : Name) : (t.bitFor n).2.Valid := by
  cases h : t.lookup n with
  | some b => rw [bitFor_of_lookup h]; exact ht
  | none =>
    rw [bitFor_of_new h]
    intro m b
    have hm := ht m b
    simp only [lookup, nameAt, Std.TreeMap.getElem?_insert, Std.compare_eq_iff_eq,
      Array.getElem?_push] at hm ⊢
    by_cases hb : b = t.names.size
    · subst hb
      rw [if_pos rfl]
      by_cases hne : n = m
      · simp [hne]
      · rw [if_neg hne, hm]
        simp [hne]
    · rw [if_neg hb]
      by_cases hne : n = m
      · subst hne
        rw [if_pos rfl, ← hm]
        rw [lookup] at h
        simp [h, Ne.symm hb]
      · rw [if_neg hne, hm]

/-! ### Numbering a list of names -/

theorem setBits_spec : ∀ (names : List Name) (t : Numbering) (ws : List UInt64), t.Valid →
    (t.setBits ws names).2.Valid ∧ t.Grows (t.setBits ws names).2 ∧
      (∀ n ∈ names, ∃ b, (t.setBits ws names).2.lookup n = some b) ∧
      ∀ b, hasBit (t.setBits ws names).1 b ↔
        hasBit ws b ∨ ∃ n ∈ names, (t.setBits ws names).2.lookup n = some b
  | [], t, ws, ht => ⟨ht, Grows.refl t, by simp, by simp [setBits]⟩
  | n :: names, t, ws, ht => by
    obtain ⟨h1, h2, h3, h4⟩ :=
      setBits_spec names (t.bitFor n).2 (setBit ws (t.bitFor n).1) (ht.bitFor n)
    rw [setBits]
    have hn := h2 _ _ (lookup_bitFor t n)
    refine ⟨h1, (bitFor_grows t n).trans h2, ?_, fun b => ?_⟩
    · rintro m hm
      rcases List.mem_cons.1 hm with rfl | hm
      · exact ⟨_, hn⟩
      · exact h3 m hm
    · rw [h4, hasBit_setBit, Bool.or_eq_true, decide_eq_true_eq, or_comm (a := b = _), or_assoc]
      refine or_congr_right ⟨?_, ?_⟩
      · rintro (rfl | ⟨m, hm, hb⟩)
        · exact ⟨n, List.mem_cons_self, hn⟩
        · exact ⟨m, List.mem_cons_of_mem n hm, hb⟩
      · rintro ⟨m, hm, hb⟩
        rcases List.mem_cons.1 hm with rfl | hm
        · exact Or.inl (Option.some.inj (hb.symm.trans hn))
        · exact Or.inr ⟨m, hm, hb⟩

theorem hasBit_blankWords (t : Numbering) (count b : Nat) : hasBit (t.blankWords count) b = false := by
  have := hasBit_append_zeros [] ((t.size + count) / 64 + 1) b
  rwa [hasBit_nil, List.nil_append] at this

end Numbering

namespace Key

/-- The bits of the key are the numbers of its names. -/
structure Numbered (t : Numbering) (k : Key) : Prop where
  lookup : ∀ n ∈ k.names, ∃ b, t.lookup n = some b
  hasBit : ∀ b, hasBit k.words b ↔ ∃ n ∈ k.names, t.lookup n = some b

variable {t u : Numbering} {k l : Key}

theorem Numbered.mono (hk : k.Numbered t) (h : t.Grows u) : k.Numbered u where
  lookup n hn := by
    obtain ⟨b, hb⟩ := hk.lookup n hn
    exact ⟨b, h n b hb⟩
  hasBit b := by
    rw [hk.hasBit]
    refine exists_congr fun n => and_congr_right fun hn => ⟨h n b, fun hb => ?_⟩
    obtain ⟨c, hc⟩ := hk.lookup n hn
    rw [h n c hc] at hb
    rw [hc, hb]

/-- A key has the number of a name exactly if it has the name. -/
theorem Numbered.hasBit_iff (hk : k.Numbered t) (ht : t.Valid) {n : Name} {b : Nat}
    (hb : t.lookup n = some b) : ContentTypes.hasBit k.words b ↔ n ∈ k.names := by
  rw [hk.hasBit]
  refine ⟨?_, fun hn => ⟨n, hn, hb⟩⟩
  rintro ⟨m, hm, hmb⟩
  exact ht.lookup_inj hmb hb ▸ hm

theorem contains_iff (ht : t.Valid) (hk : k.Numbered t) (hl : l.Numbered t) :
    k.contains l = true ↔ ∀ n ∈ l.names, n ∈ k.names := by
  rw [contains, all_contains_iff]
  constructor
  · intro h n hn
    obtain ⟨b, hb⟩ := hl.lookup n hn
    exact (hk.hasBit_iff ht hb).1 (h b ((hl.hasBit_iff ht hb).2 hn))
  · intro h b hb
    obtain ⟨n, hn, hnb⟩ := (hl.hasBit b).1 hb
    exact (hk.hasBit b).2 ⟨n, h n hn, hnb⟩

theorem names_subtract (k l : Key) : (k.subtract l).names = k.names.diff l.names := rfl

theorem Numbered.subtract (ht : t.Valid) (hk : k.Numbered t) (hl : l.Numbered t) :
    (k.subtract l).Numbered t where
  lookup n hn := hk.lookup n (NameSet.mem_diff.1 hn).1
  hasBit b := by
    rw [Key.subtract, hasBit_subtract, Bool.and_eq_true, hk.hasBit]
    constructor
    · rintro ⟨⟨n, hn, hb⟩, hl'⟩
      refine ⟨n, NameSet.mem_diff.2 ⟨hn, fun hnl => ?_⟩, hb⟩
      rw [(hl.hasBit_iff ht hb).2 hnl] at hl'
      cases hl'
    · rintro ⟨n, hn, hb⟩
      obtain ⟨hn, hnl⟩ := NameSet.mem_diff.1 hn
      refine ⟨⟨n, hn, hb⟩, ?_⟩
      rw [Bool.not_eq_true']
      exact Bool.eq_false_iff.2 fun h => hnl ((hl.hasBit_iff ht hb).1 h)

theorem bits_eq_iff (ht : t.Valid) (hk : k.Numbered t) (hl : l.Numbered t) :
    (∀ b, ContentTypes.hasBit k.words b = ContentTypes.hasBit l.words b) ↔ k.names = l.names := by
  constructor
  · refine fun h => NameSet.ext_mem fun n => ⟨fun hn => ?_, fun hn => ?_⟩
    · obtain ⟨b, hb⟩ := hk.lookup n hn
      rwa [← hl.hasBit_iff ht hb, ← h, hk.hasBit_iff ht hb]
    · obtain ⟨b, hb⟩ := hl.lookup n hn
      rwa [← hk.hasBit_iff ht hb, h, hl.hasBit_iff ht hb]
  · intro h b
    rw [Bool.eq_iff_iff, hk.hasBit, hl.hasBit, h]

/-- Keys of the same bits have the same size. -/
theorem size_eq_of_bits (h : ∀ b, ContentTypes.hasBit k.words b = ContentTypes.hasBit l.words b) :
    k.size = l.size := by
  rw [k.size_eq, l.size_eq]
  refine (List.perm_ext_iff_of_nodup ?_ ?_ |>.2 fun b => ?_).length_eq
  · exact (bitsFrom_sorted _ _).imp Nat.ne_of_lt
  · exact (bitsFrom_sorted _ _).imp Nat.ne_of_lt
  · rw [mem_bitsFrom, mem_bitsFrom, h]

/-- Keys are the same if they have the same bits. -/
theorem same_iff_bits : k.same l = true ↔
    ∀ b, ContentTypes.hasBit k.words b = ContentTypes.hasBit l.words b := by
  rw [same, Bool.and_eq_true, beq_iff_eq, beq_iff_eq, significant_eq_iff]
  exact and_iff_right_of_imp size_eq_of_bits

/-- The order of keys tells them apart by their bits. -/
theorem compare_eq_iff_bits : k.compare l = .eq ↔
    ∀ b, ContentTypes.hasBit k.words b = ContentTypes.hasBit l.words b := by
  rw [compare, Ordering.then_eq_eq, compareWords_eq_iff, Std.LawfulEqCmp.compare_eq_iff_eq]
  exact and_iff_right_of_imp fun h => (size_eq_of_bits h).symm

theorem same_iff (ht : t.Valid) (hk : k.Numbered t) (hl : l.Numbered t) :
    k.same l = true ↔ k.names = l.names := by
  rw [same_iff_bits, bits_eq_iff ht hk hl]

theorem compare_eq_iff (ht : t.Valid) (hk : k.Numbered t) (hl : l.Numbered t) :
    k.compare l = .eq ↔ k.names = l.names := by
  rw [compare_eq_iff_bits, bits_eq_iff ht hk hl]

theorem isEmpty_iff (hk : k.Numbered t) : k.isEmpty = true ↔ ∀ n, n ∉ k.names := by
  rw [isEmpty, beq_iff_eq, k.size_eq, List.length_eq_zero_iff, List.eq_nil_iff_forall_not_mem]
  constructor
  · intro h n hn
    obtain ⟨b, hb⟩ := hk.lookup n hn
    exact h b (mem_bitsFrom.2 ⟨Nat.zero_le b, (hk.hasBit b).2 ⟨n, hn, hb⟩⟩)
  · intro h b hb
    obtain ⟨n, hn, -⟩ := (hk.hasBit b).1 (mem_bitsFrom.1 hb).2
    exact h n hn

/-! ### The names at the bits -/

theorem bits_sorted (k : Key) : k.bits.Pairwise (· < ·) := bitsFrom_sorted k.words 0

theorem Numbered.mem_bits_iff (hk : k.Numbered t) {b : Nat} :
    b ∈ k.bits ↔ ∃ n ∈ k.names, t.lookup n = some b := by
  rw [bits, mem_bitsFrom, ← hk.hasBit]
  simp

/-- What a valid numbering has at the bits of a key are the names of the key, each once. -/
theorem Numbered.names_at_bits (ht : t.Valid) (hk : k.Numbered t) :
    (k.bits.map t.nameAt).Perm (k.names.toList.map some) := by
  have hname : ∀ b ∈ k.bits, ∃ n ∈ k.names, t.nameAt b = some n := fun b hb => by
    obtain ⟨n, hn, hnb⟩ := hk.mem_bits_iff.1 hb
    exact ⟨n, hn, (ht n b).1 hnb⟩
  refine (List.perm_ext_iff_of_nodup ?_ ?_).2 fun x => ?_
  · refine List.Nodup.map_on (fun b hb c hc hbc => ?_) (k.bits_sorted.imp Nat.ne_of_lt)
    obtain ⟨n, -, hbn⟩ := hname b hb
    have hb' := (ht n b).2 hbn
    have hc' := (ht n c).2 (hbc ▸ hbn)
    exact Option.some.inj (hb'.symm.trans hc')
  · exact k.names.nodup_toList.map (Option.some_injective _)
  · rw [List.mem_map, List.mem_map]
    constructor
    · rintro ⟨b, hb, rfl⟩
      obtain ⟨n, hn, hbn⟩ := hname b hb
      exact ⟨n, hn, hbn.symm⟩
    · rintro ⟨n, hn, rfl⟩
      obtain ⟨b, hb⟩ := hk.lookup n hn
      exact ⟨b, hk.mem_bits_iff.2 ⟨n, hn, hb⟩, (ht n b).1 hb⟩

/-- The size of a key is the number of its names. -/
theorem Numbered.size_eq (ht : t.Valid) (hk : k.Numbered t) : k.size = k.names.size := by
  have hlength := (hk.names_at_bits ht).length_eq
  rw [List.length_map, List.length_map] at hlength
  rw [k.size_eq]
  exact hlength

end Key

/-- **Building a key** numbers its names and keeps the numbers given before. -/
theorem Numbering.keyFor_spec {t : Numbering} (ht : t.Valid) (names : List Name) :
    (t.keyFor names).2.Valid ∧ t.Grows (t.keyFor names).2 ∧
      (t.keyFor names).1.Numbered (t.keyFor names).2 ∧
      ∀ n, n ∈ (t.keyFor names).1.names ↔ n ∈ names := by
  obtain ⟨h1, h2, h3, h4⟩ := setBits_spec names t (t.blankWords names.length) ht
  refine ⟨h1, h2, ⟨fun n hn => h3 n (NameSet.mem_ofList.1 hn), fun b => ?_⟩,
    fun n => NameSet.mem_ofList⟩
  have := h4 b
  rw [hasBit_blankWords] at this
  simpa [Numbering.keyFor] using this

end ContentTypes
