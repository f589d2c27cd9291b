/-!
# Names and sets of names

Node types and items are named by arbitrary strings; nothing looks inside a name. Names are ordered
by code points, which is also the order of their UTF-8 bytes.

A `NameSet` is a strictly ascending list, so two sets with the same members are equal
(`NameSet.ext_mem`) and listing a set needs no sorting. The operations are read through membership:
`mem_insert`, `mem_union`, `mem_ofList`.
-/

namespace ContentTypes

/-- The name of a node type or of an item. -/
abbrev Name := String

/-- A finite set of names, kept as the strictly ascending list of its members. -/
structure NameSet where
  toList : List Name
  sorted : toList.Pairwise (· < ·)
deriving DecidableEq

namespace NameSet

instance : Membership Name NameSet := ⟨fun s n => n ∈ s.toList⟩

instance (n : Name) (s : NameSet) : Decidable (n ∈ s) := inferInstanceAs (Decidable (n ∈ s.toList))

theorem mem_def {n : Name} {s : NameSet} : n ∈ s ↔ n ∈ s.toList := Iff.rfl

def empty : NameSet := ⟨[], .nil⟩

instance : EmptyCollection NameSet := ⟨empty⟩

instance : Inhabited NameSet := ⟨∅⟩

@[simp] theorem not_mem_empty (n : Name) : n ∉ (∅ : NameSet) := List.not_mem_nil

/-! ### Insertion -/

/-- Puts a name at its place in an ascending list, unless it is there already. -/
def place (n : Name) : List Name → List Name
  | [] => [n]
  | m :: rest => if n < m then n :: m :: rest else if n = m then m :: rest else m :: place n rest

theorem mem_place {n x : Name} {l : List Name} : x ∈ place n l ↔ x = n ∨ x ∈ l := by
  induction l with
  | nil => simp [place]
  | cons m rest ih =>
    unfold place
    split
    · simp
    · split
      · next h => subst h; simp
      · simp only [List.mem_cons, ih]
        exact or_left_comm

theorem sorted_place {n : Name} {l : List Name} (h : l.Pairwise (· < ·)) :
    (place n l).Pairwise (· < ·) := by
  induction l with
  | nil => simp [place]
  | cons m rest ih =>
    obtain ⟨hm, hrest⟩ := List.pairwise_cons.1 h
    unfold place
    split
    · next hlt =>
      refine List.pairwise_cons.2 ⟨fun x hx => ?_, h⟩
      rcases List.mem_cons.1 hx with rfl | hx
      · exact hlt
      · exact String.lt_trans hlt (hm x hx)
    · next hlt =>
      split
      · exact h
      · next hne =>
        refine List.pairwise_cons.2 ⟨fun x hx => ?_, ih hrest⟩
        rcases mem_place.1 hx with rfl | hx
        · exact Std.lt_of_le_of_ne (String.not_lt.1 hlt) (Ne.symm hne)
        · exact hm x hx

def insert (s : NameSet) (n : Name) : NameSet := ⟨place n s.toList, sorted_place s.sorted⟩

@[simp] theorem mem_insert {s : NameSet} {n x : Name} : x ∈ s.insert n ↔ x = n ∨ x ∈ s := mem_place

def singleton (n : Name) : NameSet := (∅ : NameSet).insert n

@[simp] theorem mem_singleton {n x : Name} : x ∈ singleton n ↔ x = n := by simp [singleton]

/-! ### Unions and differences -/

def ofList (l : List Name) : NameSet := l.foldr (fun n s => s.insert n) ∅

@[simp] theorem mem_ofList {l : List Name} {x : Name} : x ∈ ofList l ↔ x ∈ l := by
  induction l with
  | nil => simp [ofList]
  | cons n l ih => simp [ofList] at ih ⊢; simp [ih]

def union (s t : NameSet) : NameSet := t.toList.foldr (fun n u => u.insert n) s

@[simp] theorem mem_union {s t : NameSet} {x : Name} : x ∈ s.union t ↔ x ∈ s ∨ x ∈ t := by
  obtain ⟨l, hl⟩ := t
  simp only [union, mem_def (s := ⟨l, hl⟩)]
  clear hl
  induction l with
  | nil => simp
  | cons n l ih => simp [ih, or_left_comm]

instance : Union NameSet := ⟨union⟩

@[simp] theorem mem_cup {s t : NameSet} {x : Name} : x ∈ s ∪ t ↔ x ∈ s ∨ x ∈ t := mem_union

/-- The members of `s` that are not in `t`. -/
def diff (s t : NameSet) : NameSet :=
  ⟨s.toList.filter fun n => decide (n ∉ t), s.sorted.filter _⟩

@[simp] theorem mem_diff {s t : NameSet} {x : Name} : x ∈ s.diff t ↔ x ∈ s ∧ x ∉ t := by
  simp [diff, mem_def]

def size (s : NameSet) : Nat := s.toList.length

/-- Taking away a member makes a set smaller. -/
theorem size_diff_lt {s t : NameSet} {n : Name} (hs : n ∈ s) (ht : n ∈ t) : (s.diff t).size < s.size := by
  refine List.length_filter_lt_length_iff_exists.2 ⟨n, hs, ?_⟩
  simp [ht]

def contains (s : NameSet) (n : Name) : Bool := decide (n ∈ s)

@[simp] theorem contains_iff {s : NameSet} {n : Name} : s.contains n = true ↔ n ∈ s := by
  simp [contains]

/-! ### Extensionality -/

theorem toList_ext {l k : List Name} (hl : l.Pairwise (· < ·)) (hk : k.Pairwise (· < ·))
    (h : ∀ x, x ∈ l ↔ x ∈ k) : l = k := by
  induction l generalizing k with
  | nil =>
    cases k with
    | nil => rfl
    | cons b k => exact absurd ((h b).2 (by simp)) (by simp)
  | cons a l ih =>
    cases k with
    | nil => exact absurd ((h a).1 (by simp)) (by simp)
    | cons b k =>
      obtain ⟨ha, hl'⟩ := List.pairwise_cons.1 hl
      obtain ⟨hb, hk'⟩ := List.pairwise_cons.1 hk
      have hab : a = b := by
        rcases List.mem_cons.1 ((h a).1 (by simp)) with rfl | hak
        · rfl
        · rcases List.mem_cons.1 ((h b).2 (by simp)) with rfl | hbl
          · rfl
          · exact absurd (String.lt_trans (ha b hbl) (hb a hak)) (String.lt_irrefl a)
      subst hab
      refine congrArg (a :: ·) (ih hl' hk' fun x => ⟨fun hx => ?_, fun hx => ?_⟩)
      · rcases List.mem_cons.1 ((h x).1 (List.mem_cons_of_mem a hx)) with rfl | hx'
        · exact absurd (ha x hx) (String.lt_irrefl x)
        · exact hx'
      · rcases List.mem_cons.1 ((h x).2 (List.mem_cons_of_mem a hx)) with rfl | hx'
        · exact absurd (hb x hx) (String.lt_irrefl x)
        · exact hx'

/-- Sets with the same members are equal. -/
theorem ext_mem {s t : NameSet} (h : ∀ x, x ∈ s ↔ x ∈ t) : s = t := by
  obtain ⟨l, hl⟩ := s
  obtain ⟨k, hk⟩ := t
  obtain rfl := toList_ext hl hk h
  rfl

/-- The least member of a set comes first. -/
theorem exists_toList_eq_cons {s : NameSet} {n : Name} (hn : n ∈ s) (hmin : ∀ m ∈ s, n ≤ m) :
    ∃ rest, s.toList = n :: rest := by
  obtain ⟨l, hl⟩ := s
  cases l with
  | nil => cases hn
  | cons a l =>
    rcases List.mem_cons.1 hn with rfl | hnl
    · exact ⟨l, rfl⟩
    · have hlt := (List.pairwise_cons.1 hl).1 n hnl
      exact absurd hlt (String.not_lt.2 (hmin a List.mem_cons_self))

end NameSet

end ContentTypes
