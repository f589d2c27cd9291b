import Mathlib.Data.List.DropRight
import Mathlib.Data.List.GetD
import Mathlib.Tactic.Common
import ContentTypes.Key

/-! # Bits of words

A list of words is a set of bit numbers, `hasBit ws i`. This file says which bits the operations on
words have: `mem_bitsFrom` (listing), `hasBit_setBit`, `hasBit_subtract`, and what they decide:
`all_contains_iff` (inclusion), `significant_eq_iff` and `compareWords_eq_iff` (equality of the bits,
whatever zeros follow at the end). -/

namespace ContentTypes

/-- Is the bit `i` set in a list of words? -/
def hasBit (ws : List UInt64) (i : Nat) : Bool := (ws.getD (i / 64) 0).toBitVec.getLsbD (i % 64)

theorem hasBit_nil (i : Nat) : hasBit [] i = false := by simp [hasBit]

theorem hasBit_cons_of_lt {w : UInt64} {ws : List UInt64} {i : Nat} (h : i < 64) :
    hasBit (w :: ws) i = w.toBitVec.getLsbD i := by
  rw [hasBit, Nat.div_eq_of_lt h, Nat.mod_eq_of_lt h]; rfl

theorem hasBit_cons_add (w : UInt64) (ws : List UInt64) (i : Nat) :
    hasBit (w :: ws) (i + 64) = hasBit ws i := by
  rw [hasBit, hasBit, show (i + 64) / 64 = i / 64 + 1 by omega, show (i + 64) % 64 = i % 64 by omega]
  rfl

/-! ### Single words -/

theorem word_eq_iff {v w : UInt64} :
    v = w ↔ ∀ i < 64, v.toBitVec.getLsbD i = w.toBitVec.getLsbD i := by
  refine ⟨fun h i _ => by rw [h], fun h => UInt64.toBitVec_inj.1 ?_⟩
  exact BitVec.eq_of_getLsbD_eq h

theorem word_zero_iff {w : UInt64} : w = 0 ↔ ∀ i < 64, w.toBitVec.getLsbD i = false := by
  rw [word_eq_iff]; simp

theorem word_contains_iff {v w : UInt64} :
    (~~~v &&& w == 0) = true ↔ ∀ i < 64, w.toBitVec.getLsbD i → v.toBitVec.getLsbD i := by
  rw [beq_iff_eq, word_zero_iff]
  refine forall₂_congr fun i hi => ?_
  rw [UInt64.toBitVec_and, UInt64.toBitVec_not, BitVec.getLsbD_and, BitVec.getLsbD_not]
  cases v.toBitVec.getLsbD i <;> cases w.toBitVec.getLsbD i <;> simp [hi]

/-! ### Listing -/

theorem mem_wordBits {w : UInt64} {i : Nat} : i ∈ wordBits w ↔ i < 64 ∧ w.toBitVec.getLsbD i := by
  simp [wordBits]

theorem mem_bitsFrom : ∀ {ws : List UInt64} {base i : Nat},
    i ∈ bitsFrom base ws ↔ base ≤ i ∧ hasBit ws (i - base)
  | [], base, i => by simp [bitsFrom, hasBit_nil]
  | w :: ws, base, i => by
    rw [bitsFrom, List.mem_append, List.mem_map, mem_bitsFrom]
    constructor
    · rintro (⟨j, hj, rfl⟩ | ⟨hb, hi⟩)
      · obtain ⟨hj, hw⟩ := mem_wordBits.1 hj
        refine ⟨by omega, ?_⟩
        rwa [Nat.add_sub_cancel_left, hasBit_cons_of_lt hj]
      · refine ⟨by omega, ?_⟩
        rwa [show i - base = i - (base + 64) + 64 by omega, hasBit_cons_add]
    · rintro ⟨hb, hi⟩
      rcases Nat.lt_or_ge (i - base) 64 with h | h
      · rw [hasBit_cons_of_lt h] at hi
        exact Or.inl ⟨i - base, mem_wordBits.2 ⟨h, hi⟩, by omega⟩
      · rw [show i - base = i - (base + 64) + 64 by omega, hasBit_cons_add] at hi
        exact Or.inr ⟨by omega, hi⟩

theorem bitsFrom_sorted : ∀ (ws : List UInt64) (base : Nat), (bitsFrom base ws).Pairwise (· < ·)
  | [], _ => List.Pairwise.nil
  | w :: ws, base => by
    rw [bitsFrom, List.pairwise_append]
    refine ⟨?_, bitsFrom_sorted ws _, fun i hi j hj => ?_⟩
    · exact List.Pairwise.map _ (fun a b h => by omega) (List.pairwise_lt_range.filter _)
    · obtain ⟨k, hk, rfl⟩ := List.mem_map.1 hi
      have hk := (mem_wordBits.1 hk).1
      have hj := (mem_bitsFrom.1 hj).1
      omega

/-! ### Setting a bit -/

theorem hasBit_append_zeros (ws : List UInt64) (n i : Nat) :
    hasBit (ws ++ List.replicate n 0) i = hasBit ws i := by
  unfold hasBit
  congr 2
  rw [List.getD_eq_getElem?_getD, List.getD_eq_getElem?_getD, List.getElem?_append]
  split
  · rfl
  · next h =>
    rw [List.getElem?_replicate, List.getElem?_eq_none (by omega)]
    split <;> rfl

theorem getLsbD_bit {k i : Nat} (hk : k < 64) (hi : i < 64) :
    (1 <<< UInt64.ofNat k : UInt64).toBitVec.getLsbD i = decide (i = k) := by
  have hmod : ((UInt64.ofNat k).toBitVec % 64).toNat = k := by
    simp
    omega
  have hone : (UInt64.toBitVec 1).getLsbD (i - k) = decide (i - k = 0) := by
    rw [show UInt64.toBitVec 1 = 1#64 from rfl, BitVec.getLsbD_one]; simp
  rw [UInt64.toBitVec_shiftLeft, BitVec.shiftLeft_eq', BitVec.getLsbD_shiftLeft, hmod, hone]
  simp only [hi, decide_true, Bool.true_and, ← decide_not, ← Bool.decide_and]
  exact decide_eq_decide.2 (by omega)

theorem hasBit_setBit (ws : List UInt64) (b i : Nat) :
    hasBit (setBit ws b) i = (decide (i = b) || hasBit ws i) := by
  rw [← hasBit_append_zeros ws (b / 64 + 1 - ws.length)]
  unfold setBit hasBit
  set us := ws ++ List.replicate (b / 64 + 1 - ws.length) 0 with hus
  have hlen : b / 64 < us.length := by simp [hus]; omega
  rw [List.getD_eq_getElem?_getD, List.getD_eq_getElem?_getD]
  by_cases hdiv : b / 64 = i / 64
  · rw [← hdiv, List.getElem?_modify_eq, List.getElem?_eq_getElem hlen, Option.map_eq_map,
      Option.map_some, Option.getD_some, Option.getD_some, UInt64.toBitVec_or, BitVec.getLsbD_or,
      getLsbD_bit (Nat.mod_lt _ (by decide)) (Nat.mod_lt _ (by decide)), Bool.or_comm]
    congr 1
    exact decide_eq_decide.2 (by omega)
  · rw [List.getElem?_modify_ne _ _ hdiv]
    have : i ≠ b := by rintro rfl; exact hdiv rfl
    simp [this]

/-! ### Words side by side -/

theorem getD_zipWords : ∀ (vs ws : List UInt64) (i : Nat),
    (zipWords vs ws).getD i (0, 0) = (vs.getD i 0, ws.getD i 0)
  | [], ws, i => by simp [zipWords, List.getD_eq_getElem?_getD]
  | v :: vs, [], i => by
    have h := List.getD_map (v :: vs) (0 : UInt64) (n := i) fun w => (w, (0 : UInt64))
    rw [List.getD_nil, ← h]
    simp [zipWords]
  | v :: vs, w :: ws, 0 => rfl
  | v :: vs, w :: ws, i + 1 => getD_zipWords vs ws i

theorem forall_mem_iff_getD {α : Type} {p : α → Prop} {d : α} (hd : p d) {l : List α} :
    (∀ a ∈ l, p a) ↔ ∀ i, p (l.getD i d) := by
  constructor
  · intro h i
    rcases Nat.lt_or_ge i l.length with hi | hi
    · rw [List.getD_eq_getElem _ _ hi]; exact h _ (List.getElem_mem hi)
    · rwa [List.getD_eq_default _ _ hi]
  · intro h a ha
    obtain ⟨i, hi, rfl⟩ := List.getElem_of_mem ha
    have := h i
    rwa [List.getD_eq_getElem _ _ hi] at this

theorem forall_zipWords {p : UInt64 × UInt64 → Prop} (hp : p (0, 0)) (vs ws : List UInt64) :
    (∀ q ∈ zipWords vs ws, p q) ↔ ∀ i, p (vs.getD i 0, ws.getD i 0) := by
  rw [forall_mem_iff_getD hp]
  exact forall_congr' fun i => by rw [getD_zipWords]

/-- The bits are those of the words, one word after the other. -/
theorem forall_bits_iff {p : Bool → Bool → Prop} (vs ws : List UInt64) :
    (∀ i, p (hasBit vs i) (hasBit ws i)) ↔ ∀ j, ∀ i < 64,
      p ((vs.getD j 0).toBitVec.getLsbD i) ((ws.getD j 0).toBitVec.getLsbD i) := by
  constructor
  · intro h j i hi
    have := h (64 * j + i)
    rwa [hasBit, hasBit, show (64 * j + i) / 64 = j by omega,
      show (64 * j + i) % 64 = i by omega] at this
  · exact fun h i => h _ _ (Nat.mod_lt _ (by decide))

theorem all_contains_iff (vs ws : List UInt64) :
    ((zipWords vs ws).all fun q => ~~~q.1 &&& q.2 == 0) = true ↔
      ∀ i, hasBit ws i → hasBit vs i := by
  rw [List.all_eq_true, forall_zipWords (by decide)]
  rw [forall_bits_iff (p := fun a b => b = true → a = true)]
  exact forall_congr' fun j => word_contains_iff

theorem hasBit_subtract (vs ws : List UInt64) (i : Nat) :
    hasBit ((zipWords vs ws).map fun q => q.1 &&& ~~~q.2) i = (hasBit vs i && !hasBit ws i) := by
  unfold hasBit
  rw [show (0 : UInt64) = (fun q : UInt64 × UInt64 => q.1 &&& ~~~q.2) (0, 0) by decide, List.getD_map,
    getD_zipWords]
  simp [Nat.mod_lt]

/-! ### Equal bits -/

theorem words_eq_iff (vs ws : List UInt64) :
    (∀ j, vs.getD j 0 = ws.getD j 0) ↔ ∀ i, hasBit vs i = hasBit ws i := by
  rw [forall_bits_iff (p := fun a b => a = b)]
  exact forall_congr' fun j => word_eq_iff

/-- The first words side by side decide only if all the others are equal. -/
theorem Key.compareWords_cons (p : UInt64 × UInt64) (ps : List (UInt64 × UInt64)) :
    compareWords (p :: ps) = (compareWords ps).then (Ord.compare p.2 p.1) := by
  have fold : ∀ (l : List (UInt64 × UInt64)) (o : Ordering),
      l.foldl (fun o p => (Ord.compare p.2 p.1).then o) o =
        (l.foldl (fun o p => (Ord.compare p.2 p.1).then o) .eq).then o := by
    intro l
    induction l with
    | nil => exact fun o => rfl
    | cons q l ih =>
      intro o
      rw [List.foldl_cons, List.foldl_cons, ih, ih (Ordering.then _ .eq), Ordering.then_assoc,
        Ordering.then_assoc]
      rfl
  have hcons : (Ord.compare p.2 p.1).then .eq = Ord.compare p.2 p.1 := by
    cases Ord.compare p.2 p.1 <;> rfl
  rw [compareWords, List.foldl_cons, hcons, fold]
  rfl

theorem Key.compareWords_eq_iff (vs ws : List UInt64) :
    Key.compareWords (zipWords vs ws) = .eq ↔ ∀ i, hasBit vs i = hasBit ws i := by
  have hall : ∀ l : List (UInt64 × UInt64), Key.compareWords l = .eq ↔ ∀ p ∈ l, p.1 = p.2 := by
    intro l
    induction l with
    | nil => simp [compareWords]
    | cons p l ih =>
      rw [compareWords_cons, Ordering.then_eq_eq, ih, Std.LawfulEqCmp.compare_eq_iff_eq,
        List.forall_mem_cons, and_comm, eq_comm]
  rw [hall, forall_zipWords (p := fun q => q.1 = q.2) rfl, ← words_eq_iff]

/-- A list without its last word, if that is zero, has the same bits. -/
theorem significant_concat (ws : List UInt64) (w : UInt64) :
    significant (ws ++ [w]) = if w = 0 then significant ws else ws ++ [w] := by
  rw [significant, List.reverse_concat, List.dropWhile_cons]
  by_cases h : w = 0 <;> simp [h, significant]

theorem getD_significant (ws : List UInt64) (j : Nat) : (significant ws).getD j 0 = ws.getD j 0 := by
  induction ws using List.reverseRecOn with
  | nil => rfl
  | append_singleton ws w ih =>
    rw [significant_concat]
    split
    · next h =>
      rw [ih, h, List.getD_eq_getElem?_getD, List.getD_eq_getElem?_getD, List.getElem?_append]
      split
      · rfl
      · next hj =>
        rw [List.getElem?_eq_none (by omega), List.getElem?_singleton]
        split <;> rfl
    · rfl

/-- Without zeros at the end a list is no longer than another of the same words. -/
theorem length_significant_le {vs ws : List UInt64} (h : ∀ j, vs.getD j 0 = ws.getD j 0) :
    (significant vs).length ≤ ws.length := by
  by_contra hlt
  have hne : significant vs ≠ [] := by rintro he; simp [he] at hlt
  have hlast : (significant vs).getLast hne ≠ 0 := fun h0 =>
    List.rdropWhile_last_not (· == (0 : UInt64)) vs hne (beq_iff_eq.2 h0)
  apply hlast
  rw [List.getLast_eq_getElem, ← List.getD_eq_getElem _ 0, getD_significant, h,
    List.getD_eq_default _ _ (by omega)]

theorem significant_eq_iff (vs ws : List UInt64) :
    significant vs = significant ws ↔ ∀ i, hasBit vs i = hasBit ws i := by
  rw [← words_eq_iff]
  constructor
  · intro h j
    rw [← getD_significant vs, h, getD_significant]
  · intro h
    have h1 : ∀ j, (significant vs).getD j 0 = (significant ws).getD j 0 := fun j => by
      rw [getD_significant, getD_significant, h]
    refine List.ext_getElem (Nat.le_antisymm ?_ ?_) fun j hv hw => ?_
    · exact length_significant_le fun j => by rw [h, getD_significant]
    · exact length_significant_le fun j => by rw [← h, getD_significant]
    · rw [← List.getD_eq_getElem _ 0, ← List.getD_eq_getElem _ 0, h1]

end ContentTypes
