import ContentTypes.Proofs.Registry.Supertypes

/-! # The nearest types with a definition

Above a set of types, a definition that satisfies a condition may be declared more than once. The types
nearest to the set that declare one are those reached by steps to an immediate supertype through types
that declare none (`Registry.Nearest`); `Registry.Decides` picks the first such definition of one of
them. -/

namespace ContentTypes

/-- `i` is the first definition of the list that satisfies `p`. -/
def FirstWith (p : ItemDef → Prop) (l : List ItemDef) (i : ItemDef) : Prop :=
  ∃ before after, l = before ++ i :: after ∧ p i ∧ ∀ j ∈ before, ¬ p j

section FirstWith
variable {p : ItemDef → Prop} {l l' : List ItemDef} {i j : ItemDef}

theorem FirstWith.mem (h : FirstWith p l i) : i ∈ l := by
  obtain ⟨a, b, rfl, -, -⟩ := h
  simp

theorem not_firstWith_nil : ¬ FirstWith p [] i := fun h => by cases h.mem

theorem firstWith_cons : FirstWith p (j :: l) i ↔ (p j ∧ i = j) ∨ (¬ p j ∧ FirstWith p l i) := by
  constructor
  · rintro ⟨a, b, heq, hi, ha⟩
    cases a with
    | nil =>
      obtain ⟨rfl, -⟩ := List.cons.inj heq
      exact Or.inl ⟨hi, rfl⟩
    | cons k a =>
      obtain ⟨rfl, rfl⟩ := List.cons.inj heq
      exact Or.inr ⟨ha j List.mem_cons_self, a, b, rfl, hi, fun k hk => ha k (List.mem_cons_of_mem j hk)⟩
  · rintro (⟨hj, rfl⟩ | ⟨hj, a, b, rfl, hi, ha⟩)
    · exact ⟨[], l, rfl, hj, by simp⟩
    · exact ⟨j :: a, b, rfl, hi, List.forall_mem_cons.2 ⟨hj, ha⟩⟩

theorem exists_firstWith (hi : i ∈ l) (hp : p i) : ∃ j, FirstWith p l j := by
  induction l with
  | nil => cases hi
  | cons j l ih =>
    by_cases hj : p j
    · exact ⟨j, firstWith_cons.2 (Or.inl ⟨hj, rfl⟩)⟩
    · rcases List.mem_cons.1 hi with rfl | hi
      · exact absurd hp hj
      · obtain ⟨m, hm⟩ := ih hi
        exact ⟨m, firstWith_cons.2 (Or.inr ⟨hj, hm⟩)⟩

theorem firstWith_append : FirstWith p (l ++ l') i ↔
    FirstWith p l i ∨ ((∀ j ∈ l, ¬ p j) ∧ FirstWith p l' i) := by
  induction l with
  | nil =>
    simp [not_firstWith_nil]
  | cons j l ih =>
    rw [List.cons_append, firstWith_cons, firstWith_cons, ih, List.forall_mem_cons]
    tauto

/-- The first of those that pass a filter is the first that satisfies both conditions. -/
theorem firstWith_filter {q : ItemDef → Bool} :
    FirstWith p (l.filter q) i ↔ FirstWith (fun i => q i ∧ p i) l i := by
  induction l with
  | nil =>
    simp [not_firstWith_nil]
  | cons j l ih =>
    by_cases hq : q j = true
    · rw [List.filter_cons_of_pos hq, firstWith_cons, firstWith_cons, ih]
      simp [hq]
    · rw [List.filter_cons_of_neg hq, firstWith_cons, ih]
      simp [hq]

theorem FirstWith.congr {q : ItemDef → Prop} (h : FirstWith p l i) (hpq : ∀ j ∈ l, p j ↔ q j) :
    FirstWith q l i := by
  obtain ⟨a, b, rfl, hi, ha⟩ := h
  refine ⟨a, b, rfl, (hpq i (by simp)).1 hi, fun j hj hqj => ha j hj ((hpq j ?_).2 hqj)⟩
  exact List.mem_append_left _ hj

theorem firstWith_iff_find? {q : ItemDef → Bool} : FirstWith (q · = true) l i ↔ l.find? q = some i := by
  rw [List.find?_eq_some_iff_append]
  constructor
  · rintro ⟨a, b, rfl, hi, ha⟩
    exact ⟨hi, a, b, rfl, fun j hj => by simpa using ha j hj⟩
  · rintro ⟨hi, a, b, rfl, ha⟩
    exact ⟨a, b, rfl, hi, fun j hj => by simpa using ha j hj⟩

end FirstWith

namespace Registry

/-- The definitions that a type declares itself. -/
def items (r : Registry) (t : Name) : List ItemDef :=
  match r.find? t with
  | some d => d.items
  | none => []

theorem items_of_find? {r : Registry} {t : Name} {d : Declaration} (h : r.find? t = some d) :
    r.items t = d.items := by
  rw [items, h]

theorem mem_items_iff {r : Registry} {t : Name} {i : ItemDef} :
    i ∈ r.items t ↔ ∃ d, r.find? t = some d ∧ i ∈ d.items := by
  unfold items
  cases r.find? t <;> simp

/-- `t` is reached from `s` through types that declare no definition with `p`. -/
def Nearest (r : Registry) (p : ItemDef → Prop) (s : Set Name) (t : Name) : Prop :=
  ∃ n ∈ s, Relation.ReflTransGen (fun a b => r.Extends a b ∧ ∀ i ∈ r.items a, ¬ p i) n t

/-- **`i` decides for `s`**: it is the first definition with `p` of a type, and on the way from `s` to that
type no other declares one. -/
def Decides (r : Registry) (p : ItemDef → Prop) (s : Set Name) (i : ItemDef) : Prop :=
  ∃ t, r.Nearest p s t ∧ FirstWith p (r.items t) i

variable {r r' : Registry} {p : ItemDef → Prop} {s s' : Set Name} {n t : Name} {i : ItemDef}

theorem Nearest.mem_closure (h : r.Nearest p s t) : t ∈ r.closure s := by
  obtain ⟨n, hn, h⟩ := h
  exact ⟨n, hn, Relation.ReflTransGen.mono (fun _ _ h => h.1) n t h⟩

theorem Decides.mono (h : r.Decides p s i) (hs : s ⊆ s') : r.Decides p s' i := by
  obtain ⟨t, ⟨n, hn, hnt⟩, hi⟩ := h
  exact ⟨t, ⟨n, hs hn, hnt⟩, hi⟩

/-- The first definition with `p` of a type itself. -/
theorem decides_self (h : FirstWith p (r.items n) i) : r.Decides p {n} i :=
  ⟨n, ⟨n, rfl, .refl⟩, h⟩

/-- If a type declares none, its supertypes decide. -/
theorem Decides.declared {d : Declaration} (hd : r.find? n = some d) (hn : ∀ i ∈ r.items n, ¬ p i)
    (h : r.Decides p s i) (hs : ∀ u ∈ s, u ∈ d.supertypes) : r.Decides p {n} i := by
  obtain ⟨t, ⟨u, hu, hut⟩, hi⟩ := h
  exact ⟨t, ⟨n, rfl, hut.head ⟨⟨d, hd, hs u hu⟩, hn⟩⟩, hi⟩

theorem AgreeOn.items_eq (h : r.AgreeOn r' (r.closure s)) (ht : t ∈ r.closure s) :
    r'.items t = r.items t := by
  rw [items, items, h t ht]

theorem AgreeOn.nearest (h : r.AgreeOn r' (r.closure s)) (ht : r.Nearest p s t) : r'.Nearest p s t := by
  obtain ⟨n, hn, hnt⟩ := ht
  refine ⟨n, hn, ?_⟩
  induction hnt with
  | refl => exact .refl
  | tail hnu huv ih =>
    -- the types on the way lie in the closure, where the declarations agree
    have hu := Nearest.mem_closure ⟨n, hn, hnu⟩
    obtain ⟨hext, hno⟩ := huv
    exact ih.tail ⟨(h.extends_iff hu).2 hext, by rwa [h.items_eq hu]⟩

theorem AgreeOn.decides (h : r.AgreeOn r' (r.closure s)) (hi : r.Decides p s i) : r'.Decides p s i := by
  obtain ⟨t, hnear, hi⟩ := hi
  exact ⟨t, h.nearest hnear, by rwa [h.items_eq hnear.mem_closure]⟩

end Registry

end ContentTypes
