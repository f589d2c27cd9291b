import ContentTypes.Proofs.Cache.Largest

/-! # Splitting a set of names

A cache is read as a list of rows, sets of names with types, in the order of the keys (`Cache.rows`). The
largest cached subset of a set of names is the first row within the set (`find?_rows_of_largest`), whatever
numbers the other names of the set have. So taking off cached subsets as long as there are any splits a set
of names in one way only (`Splits.unique`).

The rows within a set stay the same as long as only sets that are not within it are put
(`SameWithin.put`). -/

namespace ContentTypes

namespace NameSet

/-- Is every member of `s` one of `t`? -/
def within (s t : NameSet) : Bool := s.toList.all t.contains

variable {s t : NameSet}

theorem within_iff : s.within t = true ↔ ∀ n ∈ s, n ∈ t := by
  rw [within, List.all_eq_true]
  exact forall₂_congr fun n _ => contains_iff

end NameSet

namespace Cache

/-- What is cached, in order. -/
def rows (c : Cache) : List (NameSet × EffectiveType) := c.entries.map fun e => (e.key.names, e.type)

variable {c : Cache} {rows rows' rows'' : List (NameSet × EffectiveType)} {key best : Key}
  {names s s' rest rest' : NameSet} {type : EffectiveType} {types types' : List EffectiveType}

theorem mem_rows : (names, type) ∈ c.rows ↔ c.Holds names type := by
  simp only [Cache.rows, List.mem_map, Prod.mk.injEq]
  rfl

/-! ### The first row -/

theorem Keyed.aligned (hc : c.Keyed) : c.Aligned := fun e he =>
  (Key.same_iff hc.valid (hc.entries e he).firstKey (hc.entries e he).key).2 (hc.entries e he).names_eq

/-- The scan of the keys finds the key of the first row. -/
theorem find?_rows_of_scan (hc : c.Keyed) (hk : key.Numbered c.numbering) {k : Key}
    (h : c.scan? key = some k) : ∃ e ∈ c.entries, e.key = k ∧
      c.rows.find? (·.1.within key.names) = some (e.key.names, e.type) := by
  obtain ⟨e, hfound, rfl⟩ : ∃ e, c.entries.find? (fun e => key.contains e.key) = some e ∧ e.key = k := by
    rw [scan?, Cache.keys, List.find?_map] at h
    exact Option.map_eq_some_iff.1 h
  have hcongr : c.entries.find? (fun e => e.key.names.within key.names) =
      c.entries.find? fun e => key.contains e.key := by
    rw [← List.head?_filter, ← List.head?_filter]
    refine congrArg List.head? (List.filter_congr fun f hf => Bool.eq_iff_iff.2 ?_)
    rw [NameSet.within_iff, Key.contains_iff hc.valid hk (hc.entries f hf).key]
  refine ⟨e, List.mem_of_find?_eq_some hfound, rfl, ?_⟩
  rw [Cache.rows, List.find?_map]
  exact congrArg (Option.map _) (hcongr.trans hfound)

/-- **The largest cached subset** of a key is the first row within its names. -/
theorem find?_rows_of_largest (ho : c.Ordered) (hc : c.Keyed) (hk : key.Numbered c.numbering)
    (h : ((c.findBest? key).bind fun best => (c.get? best).map (best, ·)) = some (best, type)) :
    c.rows.find? (·.1.within key.names) = some (best.names, type) := by
  obtain ⟨hnum, -, hholds⟩ := holds_of_largest hc hk h
  obtain ⟨k, hscan, hsame⟩ := exists_scan_of_findBest? ho hc.aligned (found_of_largest h).1
  obtain ⟨e, he, rfl, hfind⟩ := find?_rows_of_scan hc hk hscan
  have hnames := (Key.same_iff hc.valid hnum (hc.entries e he).key).1 hsame
  rw [hfind, ← hnames, Holds.unique ho hc ⟨e, he, hnames.symm, rfl⟩ hholds]

/-- If the search finds nothing, no row is within the names. -/
theorem find?_rows_eq_none (hc : c.Keyed) (hk : key.Numbered c.numbering)
    (h : ((c.findBest? key).bind fun best => (c.get? best).map (best, ·)) = none) :
    c.rows.find? (·.1.within key.names) = none := by
  rw [List.find?_eq_none]
  rintro ⟨names, type⟩ hrow hwithin
  exact not_holds_of_largest hc hk h (NameSet.within_iff.1 hwithin) (mem_rows.1 hrow)

/-! ### Splitting -/

/-- **A set of names split along rows**: the first row within the set is taken off, then the first within
what remains, and so on; in the end no row is within the rest. -/
inductive Splits (rows : List (NameSet × EffectiveType)) :
    NameSet → List EffectiveType → NameSet → Prop where
  | rest {s : NameSet} : rows.find? (·.1.within s) = none → Splits rows s [] s
  | take {s names rest : NameSet} {type : EffectiveType} {types : List EffectiveType} :
      rows.find? (·.1.within s) = some (names, type) → Splits rows (s.diff names) types rest →
      Splits rows s (type :: types) rest

/-- There is one way to split a set. -/
theorem Splits.unique (h : Splits rows s types rest) (h' : Splits rows s types' rest') :
    types = types' ∧ rest = rest' := by
  induction h generalizing types' with
  | rest hnone =>
    cases h' with
    | rest => exact ⟨rfl, rfl⟩
    | take hsome => rw [hnone] at hsome; cases hsome
  | take hsome _ ih =>
    cases h' with
    | rest hnone => rw [hsome] at hnone; cases hnone
    | take hsome' hrest =>
      rw [hsome] at hsome'
      obtain ⟨rfl, rfl⟩ := Prod.mk.inj (Option.some.inj hsome')
      obtain ⟨rfl, rfl⟩ := ih hrest
      exact ⟨rfl, rfl⟩

/-- Nothing is taken off an empty set if the rows have names. -/
theorem Splits.of_empty (hrows : ∀ names type, (names, type) ∈ rows → ∃ n, n ∈ names)
    (hs : ∀ n, n ∉ s) : Splits rows s [] s := by
  refine .rest (List.find?_eq_none.2 ?_)
  rintro ⟨names, type⟩ hrow hwithin
  obtain ⟨n, hn⟩ := hrows names type hrow
  exact hs n (NameSet.within_iff.1 hwithin n hn)

/-- A set of names that is cached itself is taken off as a whole. -/
theorem Splits.of_holds (ho : c.Ordered) (hc : c.Keyed)
    (hrows : ∀ names type, (names, type) ∈ c.rows → ∃ n, n ∈ names) (h : c.Holds names type) :
    ∃ rest, Splits c.rows names [type] rest ∧ rest.toList = [] := by
  obtain ⟨e, he, rfl, rfl⟩ := id h
  have hk := (hc.entries e he).key
  cases hbest : (c.findBest? e.key).bind fun best => (c.get? best).map (best, ·) with
  | none => exact absurd h (not_holds_of_largest hc hk hbest fun n hn => hn)
  | some found =>
    obtain ⟨best, type⟩ := found
    -- the largest subset is the set itself
    obtain ⟨-, hsub, hholds⟩ := holds_of_largest hc hk hbest
    have hnames : best.names = e.key.names := NameSet.ext_mem fun n =>
      ⟨hsub n, subset_of_largest ho hc hk hbest h (fun _ hn => hn) hsub n⟩
    rw [hnames] at hholds
    obtain rfl := h.unique ho hc hholds
    have hfind := find?_rows_of_largest ho hc hk hbest
    rw [hnames] at hfind
    have hempty : ∀ n, n ∉ e.key.names.diff e.key.names := fun n hn =>
      (NameSet.mem_diff.1 hn).2 (NameSet.mem_diff.1 hn).1
    exact ⟨_, .take hfind (.of_empty hrows hempty), List.eq_nil_iff_forall_not_mem.2 hempty⟩

/-! ### Rows within a set -/

/-- The same rows within a set of names. -/
def SameWithin (s : NameSet) (rows rows' : List (NameSet × EffectiveType)) : Prop :=
  rows.filter (·.1.within s) = rows'.filter (·.1.within s)

theorem SameWithin.refl (s : NameSet) (rows : List (NameSet × EffectiveType)) : SameWithin s rows rows :=
  rfl

theorem SameWithin.trans (h : SameWithin s rows rows') (h' : SameWithin s rows' rows'') :
    SameWithin s rows rows'' :=
  Eq.trans h h'

theorem SameWithin.mono (h : SameWithin s rows rows') (hs : ∀ n ∈ s', n ∈ s) :
    SameWithin s' rows rows' := by
  have hfilter : ∀ l : List (NameSet × EffectiveType),
      (l.filter (·.1.within s)).filter (·.1.within s') = l.filter (·.1.within s') := fun l => by
    rw [List.filter_filter]
    refine List.filter_congr fun row _ => ?_
    rw [Bool.and_eq_left_iff_imp, NameSet.within_iff, NameSet.within_iff]
    exact fun hrow n hn => hs n (hrow n hn)
  rw [SameWithin, ← hfilter rows, ← hfilter rows', h]

theorem SameWithin.find?_eq (h : SameWithin s rows rows') :
    rows.find? (·.1.within s) = rows'.find? (·.1.within s) := by
  rw [← List.head?_filter, ← List.head?_filter, h]

/-- What is placed under a set that is not within `s` changes no row within `s`. -/
theorem filter_place {t : Numbering} (ht : t.Valid) (hk : key.Numbered t)
    (hno : key.names.within s = false) : ∀ {l : List Entry}, (∀ e ∈ l, e.key.Numbered t) →
      ((place key type l).map fun e => (e.key.names, e.type)).filter (·.1.within s) =
        (l.map fun e => (e.key.names, e.type)).filter (·.1.within s)
  | [], _ => by simp [place, hno]
  | e :: l, h => by
    obtain ⟨he, hl⟩ := List.forall_mem_cons.1 h
    rw [place]
    split
    · simp [hno]
    · next heq =>
      have hnames := (Key.compare_eq_iff ht hk he).1 heq
      simp [hno, ← hnames]
    · simp [List.filter_cons, filter_place ht hk hno hl]

theorem SameWithin.put (hc : c.Keyed) (hk : key.Numbered c.numbering) (hno : ∃ n ∈ key.names, n ∉ s) :
    SameWithin s (c.put key type).rows c.rows := by
  refine filter_place hc.valid hk (Bool.eq_false_iff.2 fun hwithin => ?_) fun e he => (hc.entries e he).key
  obtain ⟨n, hn, hns⟩ := hno
  exact hns (NameSet.within_iff.1 hwithin n hn)

theorem SameWithin.putMerged (hc : c.Keyed) (hno : ∃ n ∈ type.mergedTypes, n ∉ s) :
    SameWithin s (c.putMerged type).2.rows c.rows := by
  have hkey : ∃ n ∈ (c.keyFor type.mergedTypes.toList).1.names, n ∉ s := by
    rw [names_keyFor_mergedTypes]
    exact hno
  exact SameWithin.put (c := (c.keyFor type.mergedTypes.toList).2) (keyFor_keyed hc _)
    (keyFor_numbered hc _) hkey

end Cache

end ContentTypes
