import ContentTypes.Cache
import ContentTypes.Proofs.Key.Order

/-! # The order of keys is lawful

Whatever words two keys are made of, and however many zero words follow at the end, comparing them is
comparing their bits: the order is reflexive, antisymmetric, transitive and total, it takes two keys for equal
exactly if they are the same, which is when their words are without the zeros at the end, and it puts a key
before every other that it contains (`Key.order_lawful`).

So a key may be exchanged for one of the same bits (`Key.compare_congr`): sorting gives the same sequence
(`Key.sort_congr`), and a type is placed among the entries of a cache where it would have been anyway
(`Cache.place_congr`). -/

namespace ContentTypes

namespace Key

variable {k k' l l' m : Key}

theorem compare_eq_iff_same : k.compare l = .eq ↔ k.same l = true := by
  rw [compare_eq_iff_bits, same_iff_bits]

theorem same_iff_significant : k.same l = true ↔ significant k.words = significant l.words := by
  rw [same_iff_bits, significant_eq_iff]

/-- Keys of the same bits compare alike. -/
theorem compare_congr (hk : k.same k' = true) (hl : l.same l' = true) : k.compare l = k'.compare l' :=
  calc
    k.compare l = k'.compare l := Std.TransCmp.congr_left (compare_eq_iff_same.2 hk)
    _ = k'.compare l' := Std.TransCmp.congr_right (compare_eq_iff_same.2 hl)

/-- A key comes before the others that it contains. -/
theorem compare_of_contains (h : k.contains l = true) (hne : k.same l = false) : k.compare l = .lt := by
  rcases size_lt_or_same_of_contains h with hlt | hsame
  · rw [compare_eq, Nat.compare_eq_lt.2 hlt]
    rfl
  · have hkl : k.same l = true := same_iff_bits.2 fun b => (same_iff_bits.1 hsame b).symm
    rw [hne] at hkl
    cases hkl

/-- Sorting by keys of the same bits gives the same sequence. -/
theorem sort_congr {α : Type} {f g : α → Key} (h : ∀ a, (f a).same (g a) = true) (l : List α) :
    sort f l = sort g l := by
  have hcompare : (fun a b => (f a).compare (f b) != .gt) = fun a b => (g a).compare (g b) != .gt := by
    funext a b
    rw [compare_congr (h a) (h b)]
  rw [sort, sort, hcompare]

end Key

namespace Cache

/-- Entries with the same type, under keys of the same bits. -/
def Entry.Like (a b : Entry) : Prop := a.key.same b.key = true ∧ a.type = b.type

/-- Placing a type under keys of the same bits, among entries that are alike, gives entries that are alike. -/
theorem place_congr {key key' : Key} (hkey : key.same key' = true) (type : EffectiveType) :
    ∀ {entries entries' : List Entry}, List.Forall₂ Entry.Like entries entries' →
      List.Forall₂ Entry.Like (place key type entries) (place key' type entries')
  | _, _, .nil => .cons ⟨hkey, rfl⟩ .nil
  | e :: entries, e' :: entries', .cons he h => by
    rw [place, place, ← Key.compare_congr hkey he.1]
    cases key.compare e.key with
    | lt => exact .cons ⟨hkey, rfl⟩ (.cons he h)
    | eq => exact .cons ⟨hkey, rfl⟩ h
    | gt => exact .cons he (place_congr hkey type h)

end Cache

namespace Key

/-- **The order of keys is a total order that refines inclusion**, for keys of any words. Keys compare as
equal exactly if they are the same, that is if their significant words are, and a key sorts strictly before
each other key that it contains. So keys with the same bits can take each other's place, in sorting and in
what is put into a cache. -/
theorem order_lawful :
    (∀ k : Key, k.compare k = .eq) ∧
    (∀ k l : Key, l.compare k = (k.compare l).swap) ∧
    (∀ k l m : Key, (k.compare l).isLE → (l.compare m).isLE → (k.compare m).isLE) ∧
    (∀ k l m : Key, k.compare l = .lt → l.compare m = .lt → k.compare m = .lt) ∧
    (∀ k l : Key, (k.compare l).isLE ∨ (l.compare k).isLE) ∧
    (∀ k l : Key, k.compare l = .eq ↔ k.same l = true) ∧
    (∀ k l : Key, k.same l = true ↔ significant k.words = significant l.words) ∧
    (∀ k l : Key, k.contains l = true → k.same l = false → k.compare l = .lt) ∧
    (∀ (α : Type) (f g : α → Key), (∀ a, (f a).same (g a) = true) → ∀ l, sort f l = sort g l) ∧
    ∀ (key key' : Key) (type : EffectiveType) (entries entries' : List Cache.Entry),
      key.same key' = true → List.Forall₂ Cache.Entry.Like entries entries' →
        List.Forall₂ Cache.Entry.Like (Cache.place key type entries) (Cache.place key' type entries') := by
  refine ⟨fun _ => Std.ReflCmp.compare_self, fun _ _ => Std.OrientedCmp.eq_swap,
    fun _ _ _ => Std.TransCmp.isLE_trans, fun _ _ _ => Std.TransCmp.lt_trans, fun k l => ?_,
    fun _ _ => compare_eq_iff_same, fun _ _ => same_iff_significant, fun _ _ => compare_of_contains,
    fun _ _ _ h => sort_congr h, fun _ _ type _ _ hkey h => Cache.place_congr hkey type h⟩
  cases h : k.compare l with
  | lt => exact Or.inl rfl
  | eq => exact Or.inl rfl
  | gt =>
    have hlt := Std.OrientedCmp.gt_iff_lt.1 h
    exact Or.inr (by rw [hlt]; rfl)

/-- A key of three words with zeros at the end takes the place of one without them, and comes before a key
that it contains. -/
theorem order_lawful_padded :
    let wide : Key := { names := ∅, words := [5, 0, 0] }
    let narrow : Key := { names := ∅, words := [5] }
    let within : Key := { names := ∅, words := [4, 0] }
    wide.compare narrow = .eq ∧ wide.compare within = .lt ∧
      sort id [within, wide, narrow] = sort (fun k : Key => { names := ∅, words := significant k.words })
        [within, wide, narrow] := by
  intro wide narrow within
  obtain ⟨-, -, -, -, -, heq, hsame, hcontains, hsort, -⟩ := order_lawful
  refine ⟨(heq wide narrow).2 (by decide +kernel), hcontains wide within (by decide +kernel) (by decide +kernel),
    hsort Key _ _ (fun k => (hsame _ _).2 ?_) _⟩
  exact (significant_eq_iff _ _).2 ((words_eq_iff _ _).1 fun j => (getD_significant _ _).symm)

end Key

end ContentTypes
