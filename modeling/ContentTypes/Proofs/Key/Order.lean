import Mathlib.Data.Finset.Card
import ContentTypes.Proofs.Key.Numbered

/-! # The order of keys

The words of a key are the digits of a number (`wordsValue`), and to compare two keys is to compare their
sizes and then these numbers, the larger first (`Key.compare_eq`). So the order is a strict order up to
equal bits, and no key comes before a larger one (`Key.smaller_of_compare`). -/

namespace ContentTypes

/-- The number of which the words are the digits, the lowest first. -/
def wordsValue : List UInt64 → Nat
  | [] => 0
  | w :: ws => w.toNat + UInt64.size * wordsValue ws

/-- The low digit decides only if the numbers of the high digits are equal. -/
theorem compare_digits {base a b : Nat} (ha : a < base) (hb : b < base) (m n : Nat) :
    (Ord.compare m n).then (Ord.compare a b) = Ord.compare (a + base * m) (b + base * n) := by
  rcases Nat.lt_trichotomy m n with h | rfl | h
  · have hbase := Nat.mul_le_mul_left base (Nat.succ_le_of_lt h)
    rw [Nat.mul_succ] at hbase
    have hsum : a + base * m < b + base * n := by omega
    rw [Nat.compare_eq_lt.2 h, Nat.compare_eq_lt.2 hsum]
    rfl
  · rw [Nat.compare_eq_eq.2 rfl]
    simp [Nat.compare_eq_ite_lt]
  · have hbase := Nat.mul_le_mul_left base (Nat.succ_le_of_lt h)
    rw [Nat.mul_succ] at hbase
    have hsum : b + base * n < a + base * m := by omega
    rw [Nat.compare_eq_gt.2 h, Nat.compare_eq_gt.2 hsum]
    rfl

theorem compare_word (v w : UInt64) : Ord.compare v w = Ord.compare v.toNat w.toNat := by
  rw [Nat.compare_eq_ite_lt]
  show compareOfLessAndEq v w = _
  unfold compareOfLessAndEq
  simp only [UInt64.lt_iff_toNat_lt]
  split
  · rfl
  · split
    · next heq => simp [heq]
    · next hlt hne =>
      rw [if_pos]
      have : v.toNat ≠ w.toNat := fun h => hne (UInt64.toNat_inj.1 h)
      omega

namespace Key

/-- Words side by side compare as the numbers of which they are the digits. -/
theorem compareWords_eq (vs ws : List UInt64) :
    compareWords (zipWords vs ws) = Ord.compare (wordsValue ws) (wordsValue vs) := by
  have hlt : ∀ w : UInt64, w.toNat < UInt64.size := fun w => w.toNat_lt_size
  have step : ∀ (v w : UInt64) (m n : Nat), (Ord.compare m n).then (Ord.compare w v) =
      Ord.compare (w.toNat + UInt64.size * m) (v.toNat + UInt64.size * n) := fun v w m n => by
    rw [compare_word, compare_digits (hlt w) (hlt v)]
  induction vs generalizing ws with
  | nil =>
    induction ws with
    | nil => rfl
    | cons w ws ih =>
      have hzip : zipWords [] (w :: ws) = (0, w) :: zipWords [] ws := by simp [zipWords]
      rw [hzip, compareWords_cons, ih, step]
      rfl
  | cons v vs ih =>
    cases ws with
    | nil =>
      have hzip : zipWords (v :: vs) [] = (v, 0) :: zipWords vs [] := by cases vs <;> simp [zipWords]
      rw [hzip, compareWords_cons, ih, step]
      rfl
    | cons w ws =>
      rw [zipWords, compareWords_cons, ih, step]
      rfl

/-- **The order of keys** is that of their sizes and then of their numbers, the larger first. -/
theorem compare_eq (k l : Key) : k.compare l =
    (Ord.compare l.size k.size).then (Ord.compare (wordsValue l.words) (wordsValue k.words)) := by
  rw [compare, compareWords_eq]

instance : Std.TransCmp Key.compare := by
  have heq : Key.compare = fun k l => compareLex (compareOn Key.size)
      (compareOn fun k => wordsValue k.words) l k := by
    funext k l
    exact compare_eq k l
  rw [heq]
  infer_instance

variable {t : Numbering} {k l : Key}

/-- A key that comes after another is smaller, or as large and a smaller number. -/
theorem smaller_of_compare (h : k.compare l = .lt) :
    l.size < k.size ∨ (l.size = k.size ∧ wordsValue l.words < wordsValue k.words) := by
  rw [compare_eq, Ordering.then_eq_lt, Nat.compare_eq_lt, Nat.compare_eq_eq, Nat.compare_eq_lt] at h
  exact h

theorem wordsValue_eq_of_bits (h : ∀ b, hasBit k.words b = hasBit l.words b) :
    wordsValue k.words = wordsValue l.words := by
  have heq := (compareWords_eq_iff k.words l.words).2 h
  rw [compareWords_eq, Nat.compare_eq_eq] at heq
  exact heq.symm

/-- A key with fewer bits is smaller. -/
theorem size_lt_of_bits (hsub : ∀ b, hasBit l.words b → hasBit k.words b)
    (hne : ∃ b, hasBit k.words b ∧ ¬ hasBit l.words b) : l.size < k.size := by
  have hnodup : ∀ ws : List UInt64, (bitsFrom 0 ws).Nodup := fun ws =>
    (bitsFrom_sorted ws 0).imp Nat.ne_of_lt
  have hmem : ∀ {k : Key} {b : Nat}, b ∈ (bitsFrom 0 k.words).toFinset ↔ hasBit k.words b := fun {k b} => by
    rw [List.mem_toFinset, mem_bitsFrom]
    simp
  rw [k.size_eq, l.size_eq, ← List.toFinset_card_of_nodup (hnodup _),
    ← List.toFinset_card_of_nodup (hnodup _)]
  refine Finset.card_lt_card (Finset.ssubset_iff_subset_ne.2 ⟨fun b hb => ?_, fun heq => ?_⟩)
  · exact hmem.2 (hsub b (hmem.1 hb))
  · obtain ⟨b, hb, hno⟩ := hne
    have hkb := hmem.2 hb
    rw [← heq] at hkb
    exact hno (hmem.1 hkb)

/-- A key within another is smaller or has the same bits. -/
theorem size_lt_or_same_of_contains (h : k.contains l = true) : l.size < k.size ∨ l.same k = true := by
  have hsub := (all_contains_iff k.words l.words).1 h
  by_cases hne : ∃ b, hasBit k.words b ∧ ¬ hasBit l.words b
  · exact Or.inl (size_lt_of_bits hsub hne)
  · refine Or.inr (same_iff_bits.2 fun b => Bool.eq_iff_iff.2 ⟨hsub b, fun hb => ?_⟩)
    by_contra hno
    exact hne ⟨b, hb, hno⟩

/-- Taking a name off makes a key smaller. -/
theorem size_subtract_lt (ht : t.Valid) (hk : k.Numbered t) (hl : l.Numbered t) {n : Name}
    (hn : n ∈ k.names) (hnl : n ∈ l.names) : (k.subtract l).size < k.size := by
  rw [(hk.subtract ht hl).size_eq ht, hk.size_eq ht]
  exact NameSet.size_diff_lt hn hnl

end Key

end ContentTypes
