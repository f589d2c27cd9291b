import ContentTypes.Proofs.Cache.Order

/-! # Two containers

A cache can be kept in two containers (`Containers`): a table of the types, in no particular order and each
under the key that was new with it, and an index of the keys in their order, each as it was put last. Both
change together, and they stay in step whatever is done with whatever keys: the keys of the index are those
of the entries of the cache, and the table has the first keys of the entries with their types
(`Containers.joins_after`). So a look-up in the table is one among the entries (`Joins.find?_eq`), although
keys count as equal in the table by `Key.same` and in the index by `Key.compare`. -/

namespace ContentTypes

namespace Cache

/-! ### What can be done to a cache -/

/-- What can be done to a cache, with any keys. -/
inductive Operation where
  | keyFor (names : List Name)
  | put (key : Key) (type : EffectiveType)
  | putMerged (type : EffectiveType)
  | erase (key : Key)
  | invalidate (n : Name)
  | clear

/-- The cache after an operation. -/
def perform (c : Cache) : Operation → Cache
  | .keyFor names => (c.keyFor names).2
  | .put key type => c.put key type
  | .putMerged type => (c.putMerged type).2
  | .erase key => c.erase key
  | .invalidate n => (c.invalidate n).2
  | .clear => {}

/-- The cache after a sequence of operations on an empty one. -/
def after (operations : List Operation) : Cache := operations.foldl perform {}

/-- The two keys of every entry have the same bits. -/
def Aligned (c : Cache) : Prop := ∀ e ∈ c.entries, e.firstKey.same e.key = true

variable {c : Cache} {key : Key} {type : EffectiveType} {e : Entry}

theorem aligned_empty : ({} : Cache).Aligned := fun _ he => absurd he List.not_mem_nil

theorem Aligned.filter (h : c.Aligned) (p : Entry → Bool) :
    ({ c with entries := c.entries.filter p } : Cache).Aligned :=
  fun e he => h e (List.mem_filter.1 he).1

theorem Aligned.put (h : c.Aligned) (key : Key) (type : EffectiveType) : (c.put key type).Aligned := by
  have hself : key.same key = true := Key.same_iff_bits.2 fun _ => rfl
  intro e he
  rcases mem_place he with rfl | ⟨f, hf, heq, rfl⟩ | he
  · exact hself
  · have hbits := Key.same_iff_bits.1 (h f hf)
    have hkey := Key.compare_eq_iff_bits.1 heq
    exact Key.same_iff_bits.2 fun b => (hbits b).trans (hkey b).symm
  · exact h e he

theorem ordered_perform (h : c.Ordered) (operation : Operation) : (c.perform operation).Ordered := by
  cases operation with
  | keyFor names => exact h
  | put key type => exact h.put key type
  | putMerged type => exact Ordered.put (c := (c.keyFor type.mergedTypes.toList).2) h _ type
  | erase key => exact h.erase key
  | invalidate n => exact h.invalidate n
  | clear => exact ordered_empty

theorem aligned_perform (h : c.Aligned) (operation : Operation) : (c.perform operation).Aligned := by
  cases operation with
  | keyFor names => exact h
  | put key type => exact h.put key type
  | putMerged type => exact Aligned.put (c := (c.keyFor type.mergedTypes.toList).2) h _ type
  | erase key => exact h.filter _
  | invalidate n => exact h.filter _
  | clear => exact aligned_empty

/-- **Whatever is done to a cache**, its entries stay ordered and their keys aligned. -/
theorem ordered_aligned_after (operations : List Operation) :
    (after operations).Ordered ∧ (after operations).Aligned := by
  induction operations using List.reverseRecOn with
  | nil => exact ⟨ordered_empty, aligned_empty⟩
  | append_singleton operations operation ih =>
    rw [after, List.foldl_append]
    exact ⟨ordered_perform ih.1 operation, aligned_perform ih.2 operation⟩

/-- Where keys are aligned, it does not matter which key of an entry is compared. -/
theorem firstKey_same (h : e.firstKey.same e.key = true) (key : Key) :
    e.firstKey.same key = e.key.same key := by
  have hbits := Key.same_iff_bits.1 h
  rw [Bool.eq_iff_iff, Key.same_iff_bits, Key.same_iff_bits]
  exact forall_congr' fun b => by rw [hbits b]

/-- The keys of different entries have different bits. -/
theorem same_firstKey_iff {f : Entry} (ho : c.Ordered) (ha : c.Aligned) (he : e ∈ c.entries)
    (hf : f ∈ c.entries) : e.key.same f.firstKey = true ↔ e = f := by
  have hfirst := Key.same_iff_bits.1 (ha f hf)
  rw [Key.same_iff_bits]
  constructor
  · intro h
    have heq : e.key.compare f.key = .eq := Key.compare_eq_iff_bits.2 fun b => (h b).trans (hfirst b)
    exact ho.eq_of_compare he hf heq
  · rintro rfl b
    exact (hfirst b).symm

theorem find?_eq_some_iff (ho : c.Ordered) :
    c.find? key = some e ↔ e ∈ c.entries ∧ e.key.same key = true := by
  constructor
  · intro h
    have hsame := List.find?_some (p := fun e : Entry => e.key.same key) h
    exact ⟨List.mem_of_find?_eq_some h, hsame⟩
  · rintro ⟨he, hsame⟩
    cases hfound : c.find? key with
    | none => exact absurd hsame (List.find?_eq_none.1 hfound e he)
    | some f =>
      have hfsame := List.find?_some (p := fun e : Entry => e.key.same key) hfound
      have hf : f ∈ c.entries := List.mem_of_find?_eq_some hfound
      have hbits := Key.same_iff_bits.1 hsame
      have hfbits := Key.same_iff_bits.1 hfsame
      have heq : f.key.compare e.key = .eq := Key.compare_eq_iff_bits.2 fun b => by rw [hfbits b, hbits b]
      rw [ho.eq_of_compare hf he heq]

end Cache

open Cache (Entry Operation)

/-- A cache in two containers: a table of types under keys, and an index of keys. -/
structure Containers where
  numbering : Numbering := {}
  table : List (Key × EffectiveType) := []
  index : List Key := []

namespace Containers

def keyFor (d : Containers) (names : List Name) : Key × Containers :=
  let (key, numbering) := d.numbering.keyFor names
  (key, { d with numbering })

/-- Puts a type into a table. If the key is there already, it stays as it is and gets the new type. -/
def insert (key : Key) (type : EffectiveType) (table : List (Key × EffectiveType)) :
    List (Key × EffectiveType) :=
  if table.any (·.1.same key) then table.map fun p => if p.1.same key then (p.1, type) else p
  else (key, type) :: table

/-- Puts a key at its place in an index, instead of the key of the same bits if there is one. -/
def replace (key : Key) : List Key → List Key
  | [] => [key]
  | k :: rest =>
    match key.compare k with
    | .lt => key :: k :: rest
    | .eq => key :: rest
    | .gt => k :: replace key rest

def put (d : Containers) (key : Key) (type : EffectiveType) : Containers :=
  { d with table := insert key type d.table, index := replace key d.index }

def putMerged (d : Containers) (type : EffectiveType) : Key × Containers :=
  let (key, d) := d.keyFor type.mergedTypes.toList
  (key, d.put key type)

/-- The key and the type that a key finds in the table. -/
def find? (d : Containers) (key : Key) : Option (Key × EffectiveType) := d.table.find? (·.1.same key)

def get? (d : Containers) (key : Key) : Option EffectiveType := (d.find? key).map (·.2)

def contains (d : Containers) (key : Key) : Bool := (d.find? key).isSome

/-- The key itself if the table has it, else the first of the index that lies within it. -/
def findBest? (d : Containers) (key : Key) : Option Key :=
  match d.find? key with
  | some (k, _) => some k
  | none => d.index.find? key.contains

/-- Takes a key out of both containers, if the table has it; tells its type. -/
def remove (d : Containers) (key : Key) : Option EffectiveType × Containers :=
  match d.find? key with
  | none => (none, d)
  | some (_, type) => (some type,
      { d with table := d.table.filter (!·.1.same key), index := d.index.filter (key.compare · != .eq) })

/-- The keys of the table that depend on a name, by themselves or by their types. -/
def stale (d : Containers) (n : Name) : List Key :=
  (d.table.filter fun p => p.2.includes n || p.1.includes n).map (·.1)

/-- Takes out every key that depends on a name; tells how many there were. -/
def invalidate (d : Containers) (n : Name) : Nat × Containers :=
  ((d.stale n).length, (d.stale n).foldl (fun d key => (d.remove key).2) d)

/-- The containers after an operation. -/
def perform (d : Containers) : Operation → Containers
  | .keyFor names => (d.keyFor names).2
  | .put key type => d.put key type
  | .putMerged type => (d.putMerged type).2
  | .erase key => (d.remove key).2
  | .invalidate n => (d.invalidate n).2
  | .clear => {}

/-- The containers after a sequence of operations on empty ones. -/
def after (operations : List Operation) : Containers := operations.foldl perform {}

/-! ### Staying in step -/

/-- What the table has of an entry. -/
def row (e : Entry) : Key × EffectiveType := (e.firstKey, e.type)

/-- **Containers in step**: together they have the entries of a cache. -/
structure Joins (d : Containers) (c : Cache) : Prop where
  numbering : d.numbering = c.numbering
  index : d.index = c.keys
  table : d.table.Perm (c.entries.map row)

variable {d : Containers} {c : Cache} {key : Key} {type : EffectiveType} {n : Name}
  {t u : List (Key × EffectiveType)}

theorem joins_empty : ({} : Containers).Joins {} := ⟨rfl, rfl, .nil⟩

theorem Joins.keyFor (h : d.Joins c) (names : List Name) :
    (d.keyFor names).1 = (c.keyFor names).1 ∧ (d.keyFor names).2.Joins (c.keyFor names).2 := by
  unfold Containers.keyFor Cache.keyFor
  rw [h.numbering]
  exact ⟨rfl, rfl, h.index, h.table⟩

theorem replace_keys (key : Key) (type : EffectiveType) : ∀ l : List Entry,
    replace key (l.map (·.key)) = (Cache.place key type l).map (·.key)
  | [] => rfl
  | e :: l => by
    rw [List.map_cons, replace, Cache.place]
    cases key.compare e.key with
    | lt => rfl
    | eq => rfl
    | gt => exact congrArg (e.key :: ·) (replace_keys key type l)

theorem insert_perm (h : t.Perm u) (key : Key) (type : EffectiveType) :
    (insert key type t).Perm (insert key type u) := by
  unfold insert
  rw [h.any_eq]
  split
  · exact h.map _
  · exact h.cons _

theorem insert_of_new (h : ∀ p ∈ t, p.1.same key = false) : insert key type t = (key, type) :: t := by
  rw [insert, if_neg]
  simpa using h

/-- A type is put in place of another if the rest of the table does not have the key. -/
theorem insert_cons_of_same {p : Key × EffectiveType} (hp : p.1.same key = true)
    (h : ∀ q ∈ t, q.1.same key = false) : insert key type (p :: t) = (p.1, type) :: t := by
  have hrest : t.map (fun q => if q.1.same key then (q.1, type) else q) = t := by
    refine (List.map_congr_left fun q hq => ?_).trans (List.map_id t)
    rw [h q hq]
    rfl
  rw [insert, List.any_cons, hp, Bool.true_or, if_pos rfl, List.map_cons, hrest, if_pos hp]

theorem insert_cons_perm {p : Key × EffectiveType} (h : p.1.same key = false) :
    (insert key type (p :: t)).Perm (p :: insert key type t) := by
  unfold insert
  rw [List.any_cons, h, Bool.false_or]
  split
  · rw [List.map_cons, h]
    exact .refl _
  · exact .swap p (key, type) t

/-- A row has a key exactly if the place of the key is that of the entry. -/
theorem row_same_iff {e : Entry} (h : e.firstKey.same e.key = true) :
    (row e).1.same key = true ↔ key.compare e.key = .eq := by
  rw [row, Cache.firstKey_same h, Key.same_iff_bits, Key.compare_eq_iff_bits]
  exact forall_congr' fun b => eq_comm

theorem insert_rows (key : Key) (type : EffectiveType) : ∀ {l : List Entry},
    l.Pairwise (fun a b => a.key.compare b.key = .lt) → (∀ e ∈ l, e.firstKey.same e.key = true) →
      (insert key type (l.map row)).Perm ((Cache.place key type l).map row)
  | [], _, _ => .refl _
  | e :: l, ho, ha => by
    obtain ⟨he, hl⟩ := List.pairwise_cons.1 ho
    have hnot : ∀ f ∈ e :: l, key.compare f.key ≠ .eq → (row f).1.same key = false := fun f hf hne => by
      rw [← Bool.not_eq_true, row_same_iff (ha f hf)]
      exact hne
    -- entries after the place of the key have other keys
    have hafter : (∀ f ∈ l, key.compare f.key = .lt) → ∀ p ∈ l.map row, p.1.same key = false := by
      intro hlt p hp
      obtain ⟨f, hf, rfl⟩ := List.mem_map.1 hp
      exact hnot f (List.mem_cons_of_mem e hf) (by simp [hlt f hf])
    rw [Cache.place]
    cases hcompare : key.compare e.key with
    | lt =>
      have hlt : ∀ f ∈ l, key.compare f.key = .lt := fun f hf => Std.TransCmp.lt_trans hcompare (he f hf)
      have hnew : ∀ p ∈ (e :: l).map row, p.1.same key = false :=
        List.forall_mem_cons.2 ⟨hnot e List.mem_cons_self (by simp [hcompare]), hafter hlt⟩
      rw [insert_of_new hnew]
      exact .refl _
    | eq =>
      have hlt : ∀ f ∈ l, key.compare f.key = .lt := fun f hf =>
        (Std.TransCmp.congr_left hcompare).trans (he f hf)
      have hsame : (row e).1.same key = true := (row_same_iff (ha e List.mem_cons_self)).2 hcompare
      rw [List.map_cons, insert_cons_of_same hsame (hafter hlt)]
      exact .refl _
    | gt =>
      have hno := hnot e List.mem_cons_self (by simp [hcompare])
      refine (insert_cons_perm hno).trans (.cons _ ?_)
      exact insert_rows key type hl fun f hf => ha f (List.mem_cons_of_mem e hf)

/-- Putting keeps the containers in step. -/
theorem Joins.put (h : d.Joins c) (ho : c.Ordered) (ha : c.Aligned) (key : Key) (type : EffectiveType) :
    (d.put key type).Joins (c.put key type) where
  numbering := h.numbering
  index := by
    show replace key d.index = _
    rw [h.index]
    exact replace_keys key type c.entries
  table := (insert_perm h.table key type).trans (insert_rows key type ho ha)

theorem Joins.putMerged (h : d.Joins c) (ho : c.Ordered) (ha : c.Aligned) (type : EffectiveType) :
    (d.putMerged type).1 = (c.putMerged type).1 ∧ (d.putMerged type).2.Joins (c.putMerged type).2 := by
  obtain ⟨hkey, hjoins⟩ := h.keyFor type.mergedTypes.toList
  refine ⟨hkey, ?_⟩
  show ((d.keyFor _).2.put (d.keyFor _).1 type).Joins ((c.keyFor _).2.put (c.keyFor _).1 type)
  rw [hkey]
  exact hjoins.put (c := (c.keyFor type.mergedTypes.toList).2) ho ha _ type

/-! ### Looking up -/

/-- **A look-up in the table** is one among the entries. -/
theorem Joins.find?_eq (h : d.Joins c) (ho : c.Ordered) (ha : c.Aligned) (key : Key) :
    d.find? key = (c.find? key).map row := by
  have hrow : ∀ e ∈ c.entries, (row e).1.same key = e.key.same key := fun e he =>
    Cache.firstKey_same (ha e he) key
  have hmem : ∀ p, p ∈ d.table ↔ ∃ e ∈ c.entries, row e = p := fun p => by
    rw [h.table.mem_iff, List.mem_map]
  cases hc : c.find? key with
  | none =>
    refine List.find?_eq_none.2 fun p hp => ?_
    obtain ⟨e, he, rfl⟩ := (hmem p).1 hp
    rw [hrow e he]
    exact List.find?_eq_none.1 hc e he
  | some e =>
    obtain ⟨he, hsame⟩ := (Cache.find?_eq_some_iff ho).1 hc
    cases hd : d.find? key with
    | none =>
      have hno := List.find?_eq_none.1 hd (row e) ((hmem _).2 ⟨e, he, rfl⟩)
      rw [hrow e he] at hno
      exact absurd hsame hno
    | some p =>
      obtain ⟨f, hf, rfl⟩ := (hmem p).1 (List.mem_of_find?_eq_some hd)
      have hfsame := List.find?_some (p := fun p : Key × EffectiveType => p.1.same key) hd
      rw [hrow f hf] at hfsame
      have hcf := (Cache.find?_eq_some_iff ho).2 ⟨hf, hfsame⟩
      rw [hc] at hcf
      rw [Option.some.inj hcf]
      rfl

theorem Joins.get?_eq (h : d.Joins c) (ho : c.Ordered) (ha : c.Aligned) (key : Key) :
    d.get? key = c.get? key := by
  rw [get?, h.find?_eq ho ha, Cache.get?, Option.map_map]
  rfl

theorem Joins.contains_eq (h : d.Joins c) (ho : c.Ordered) (ha : c.Aligned) (key : Key) :
    d.contains key = c.contains key := by
  rw [contains, h.find?_eq ho ha, Cache.contains, Option.isSome_map]

theorem Joins.findBest?_eq (h : d.Joins c) (ho : c.Ordered) (ha : c.Aligned) (key : Key) :
    d.findBest? key = c.findBest? key := by
  rw [findBest?, h.find?_eq ho ha, Cache.findBest?]
  cases c.find? key with
  | some e => rfl
  | none =>
    show d.index.find? key.contains = _
    rw [h.index, Cache.keys, List.find?_map]
    rfl

theorem Joins.size_eq (h : d.Joins c) : d.table.length = c.size := by
  rw [h.table.length_eq, List.length_map, Cache.size]

/-! ### Removing -/

/-- Removing a key keeps the containers in step, also if the table does not have it. -/
theorem Joins.remove (h : d.Joins c) (ho : c.Ordered) (ha : c.Aligned) (key : Key) :
    (d.remove key).1 = c.get? key ∧ (d.remove key).2.Joins (c.erase key) := by
  have hrow : ∀ e ∈ c.entries, (row e).1.same key = e.key.same key := fun e he =>
    Cache.firstKey_same (ha e he) key
  rw [Containers.remove, h.find?_eq ho ha, Cache.get?]
  cases hc : c.find? key with
  | none =>
    have hall : c.entries.filter (fun e => !e.key.same key) = c.entries :=
      List.filter_eq_self.2 fun e he => by simpa using List.find?_eq_none.1 hc e he
    refine ⟨rfl, h.numbering, ?_, ?_⟩
    · show d.index = (c.entries.filter _).map _
      rw [hall]
      exact h.index
    · show d.table.Perm ((c.entries.filter _).map row)
      rw [hall]
      exact h.table
  | some e =>
    refine ⟨rfl, h.numbering, ?_, ?_⟩
    · show d.index.filter (key.compare · != .eq) = (c.entries.filter fun e => !e.key.same key).map (·.key)
      rw [h.index, Cache.keys, List.filter_map]
      refine congrArg _ (List.filter_congr fun f hf => ?_)
      have hiff : (row f).1.same key = true ↔ key.compare f.key = .eq := row_same_iff (ha f hf)
      rw [hrow f hf] at hiff
      rw [Function.comp_apply, bne, Bool.not_inj_iff, Bool.eq_iff_iff, hiff, beq_iff_eq]
    · show (d.table.filter fun p => !p.1.same key).Perm ((c.entries.filter fun e => !e.key.same key).map row)
      refine (h.table.filter _).trans ?_
      rw [List.filter_map]
      refine .of_eq (congrArg _ (List.filter_congr fun f hf => ?_))
      rw [Function.comp_apply, hrow f hf]

theorem Joins.removeAll (h : d.Joins c) (ho : c.Ordered) (ha : c.Aligned) (keys : List Key) :
    (keys.foldl (fun d key => (d.remove key).2) d).Joins (keys.foldl Cache.erase c) := by
  induction keys generalizing d c with
  | nil => exact h
  | cons key keys ih => exact ih (h.remove ho ha key).2 (ho.erase key) (ha.filter _)

theorem foldl_erase (keys : List Key) (c : Cache) : keys.foldl Cache.erase c =
    { c with entries := c.entries.filter fun e => keys.all fun key => !e.key.same key } := by
  induction keys generalizing c with
  | nil => simp
  | cons key keys ih =>
    rw [List.foldl_cons, ih, Cache.erase]
    simp [List.filter_filter, Bool.and_comm]

/-- **Invalidating** takes out the same entries and tells the same number. -/
theorem Joins.invalidate (h : d.Joins c) (ho : c.Ordered) (ha : c.Aligned) (n : Name) :
    (d.invalidate n).1 = (c.invalidate n).1 ∧ (d.invalidate n).2.Joins (c.invalidate n).2 := by
  have hstale : ∀ k, k ∈ d.stale n ↔ ∃ e ∈ c.entries, e.dependsOn n = true ∧ e.firstKey = k := fun k => by
    rw [stale, ((h.table.filter _).map _).mem_iff, List.filter_map, List.map_map, List.mem_map]
    simp [row, Entry.dependsOn, and_assoc]
  constructor
  · show (d.stale n).length = c.entries.countP (·.dependsOn n)
    rw [stale, List.length_map, (h.table.filter _).length_eq, List.filter_map, List.length_map,
      List.countP_eq_length_filter]
    rfl
  · have hjoins := h.removeAll ho ha (d.stale n)
    rw [foldl_erase] at hjoins
    -- the entry of a stale key is the only one that has it
    have hall : ∀ e ∈ c.entries, ((d.stale n).all fun key => !e.key.same key) = !e.dependsOn n := by
      intro e he
      cases hdep : e.dependsOn n with
      | true =>
        have hkey : e.firstKey ∈ d.stale n := (hstale _).2 ⟨e, he, hdep, rfl⟩
        have hself := (Cache.same_firstKey_iff ho ha he he).2 rfl
        exact List.all_eq_false.2 ⟨e.firstKey, hkey, by simp [hself]⟩
      | false =>
        refine List.all_eq_true.2 fun k hk => ?_
        obtain ⟨f, hf, hfdep, rfl⟩ := (hstale k).1 hk
        rw [Bool.not_eq_true', ← Bool.not_eq_true, Cache.same_firstKey_iff ho ha he hf]
        rintro rfl
        rw [hdep] at hfdep
        cases hfdep
    rw [List.filter_congr hall] at hjoins
    exact hjoins

/-! ### Steps and runs -/

theorem joins_perform (h : d.Joins c) (ho : c.Ordered) (ha : c.Aligned) (operation : Operation) :
    (d.perform operation).Joins (c.perform operation) := by
  cases operation with
  | keyFor names => exact (h.keyFor names).2
  | put key type => exact h.put ho ha key type
  | putMerged type => exact (h.putMerged ho ha type).2
  | erase key => exact (h.remove ho ha key).2
  | invalidate n => exact (h.invalidate ho ha n).2
  | clear => exact joins_empty

/-- **The two containers stay in step**, whatever is done to them. -/
theorem joins_after (operations : List Operation) : (after operations).Joins (Cache.after operations) := by
  induction operations using List.reverseRecOn with
  | nil => exact joins_empty
  | append_singleton operations operation ih =>
    obtain ⟨ho, ha⟩ := Cache.ordered_aligned_after operations
    rw [after, Cache.after, List.foldl_append, List.foldl_append]
    exact joins_perform ih ho ha operation

/-- Of two keys of the same bits the table keeps the first and the index the last. -/
example : (after [.put { names := ∅, words := [1] } default, .put { names := ∅, words := [1, 0] } default]) =
    { table := [({ names := ∅, words := [1] }, default)], index := [{ names := ∅, words := [1, 0] }] } :=
  rfl

end Containers

end ContentTypes
