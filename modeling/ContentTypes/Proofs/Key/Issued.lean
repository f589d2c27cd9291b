import Mathlib.Data.Finset.Card
import ContentTypes.Declaration.Family
import ContentTypes.Proofs.Key.Numbered

/-! # Keys issued by a numbering

A numbering is used by a sequence of calls: names are given their bits, lists of names their keys, and at any
time it may be cleared. A key is in force (`Numbering.Issued`) until the next clear, and however the numbering
grows meanwhile the key goes on saying the same: it has the bits of its names in the numbering as it now is
(`numbered_of_issued`).

So keys in force are an image of their sets of names, at whatever moments they were built: same keys for the
same members, inclusion for inclusion, difference for difference, and the names that the table has at the bits
of a key are its names, each once (`issued_keys_faithful`). -/

namespace ContentTypes

namespace Numbering

/-- What is asked of a numbering. -/
inductive Call where
  | bitFor (n : Name)
  | keyFor (names : List Name)
  | clear
deriving DecidableEq

/-- The numbering after a call. -/
def apply (t : Numbering) : Call → Numbering
  | .bitFor n => (t.bitFor n).2
  | .keyFor names => (t.keyFor names).2
  | .clear => {}

/-- The numbering after a sequence of calls. -/
def run (t : Numbering) (calls : List Call) : Numbering := calls.foldl apply t

/-- **A key in force** after calls to an empty numbering: it was built for the list `names`, and the numbering
was not cleared since. -/
def Issued (calls : List Call) (names : List Name) (k : Key) : Prop :=
  ∃ before after, calls = before ++ .keyFor names :: after ∧ .clear ∉ after ∧
    k = ((run {} before).keyFor names).1

variable {t : Numbering} {calls : List Call} {call : Call} {names : List Name} {k : Key}

/-! ### One call and a run of calls -/

theorem Valid.apply (ht : t.Valid) (call : Call) : (t.apply call).Valid := by
  cases call with
  | bitFor n => exact ht.bitFor n
  | keyFor names => exact (keyFor_spec ht names).1
  | clear => exact valid_empty

theorem apply_grows (ht : t.Valid) (hcall : call ≠ .clear) : t.Grows (t.apply call) := by
  cases call with
  | bitFor n => exact bitFor_grows t n
  | keyFor names => exact (keyFor_spec ht names).2.1
  | clear => exact absurd rfl hcall

theorem run_cons (t : Numbering) (call : Call) (calls : List Call) :
    t.run (call :: calls) = (t.apply call).run calls := rfl

theorem run_append (t : Numbering) (calls calls' : List Call) :
    t.run (calls ++ calls') = (t.run calls).run calls' := List.foldl_append

theorem Valid.run (ht : t.Valid) (calls : List Call) : (t.run calls).Valid := by
  induction calls generalizing t with
  | nil => exact ht
  | cons call calls ih => exact ih (ht.apply call)

/-- Without a clear, no number is taken back. -/
theorem run_grows (ht : t.Valid) (hclear : .clear ∉ calls) : t.Grows (t.run calls) := by
  induction calls generalizing t with
  | nil => exact Grows.refl t
  | cons call calls ih =>
    rw [List.mem_cons, not_or] at hclear
    exact (apply_grows ht (Ne.symm hclear.1)).trans (ih (ht.apply call) hclear.2)

/-- A key in force has the bits that its names have now. -/
theorem numbered_of_issued (h : Issued calls names k) :
    k.Numbered (run {} calls) ∧ ∀ n, n ∈ k.names ↔ n ∈ names := by
  obtain ⟨before, after, rfl, hclear, rfl⟩ := h
  have hbefore := valid_empty.run before
  obtain ⟨hvalid, -, hnumbered, hnames⟩ := keyFor_spec hbefore names
  rw [run_append, run_cons]
  exact ⟨hnumbered.mono (run_grows hvalid hclear), hnames⟩

end Numbering

/-! ### Keys in force -/

theorem NameSet.length_toList_ofList (names : List Name) :
    (NameSet.ofList names).toList.length = names.toFinset.card := by
  rw [← List.toFinset_card_of_nodup (NameSet.nodup_toList _)]
  congr 1
  ext n
  rw [List.mem_toFinset, List.mem_toFinset]
  exact NameSet.mem_ofList

namespace Numbering

variable {calls : List Call} {names names' : List Name} {k k' : Key}

/-- **Keys in force are a faithful image of sets of names.** Two keys, built at any two moments and compared
at a later one, are the same if their lists have the same members, and one contains the other if its list has
all members of the other's. Their difference is the key of the names in one list and not in the other,
whichever way these are listed, and carries them in ascending order. The size of a key is the number of
different names, it includes just these, its bits ascend, and at its bits the table has its names. -/
theorem issued_keys_faithful (h : Issued calls names k) (h' : Issued calls names' k') :
    (k.same k' = true ↔ ∀ n, n ∈ names ↔ n ∈ names') ∧
    (k.contains k' = true ↔ ∀ n ∈ names', n ∈ names) ∧
    (∀ rest : List Name, (∀ n, n ∈ rest ↔ n ∈ names ∧ n ∉ names') →
      (k.subtract k').same ((run {} calls).keyFor rest).1 = true) ∧
    (k.subtract k').names.toList.Pairwise (· < ·) ∧
    (∀ n, n ∈ (k.subtract k').names ↔ n ∈ names ∧ n ∉ names') ∧
    k.size = names.toFinset.card ∧
    (∀ n, k.includes n = true ↔ n ∈ names) ∧
    k.bits.Pairwise (· < ·) ∧
    (k.bits.map (run {} calls).nameAt).Perm ((NameSet.ofList names).toList.map some) := by
  have ht := valid_empty.run calls
  obtain ⟨hk, hmem⟩ := numbered_of_issued h
  obtain ⟨hk', hmem'⟩ := numbered_of_issued h'
  have hset : k.names = .ofList names := NameSet.ext_mem fun n => (hmem n).trans NameSet.mem_ofList.symm
  have hdiff : ∀ n, n ∈ (k.subtract k').names ↔ n ∈ names ∧ n ∉ names' := fun n => by
    rw [Key.names_subtract, NameSet.mem_diff, hmem, hmem']
  have hperm := hk.names_at_bits ht
  rw [hset] at hperm
  refine ⟨?_, ?_, fun rest hrest => ?_, (k.subtract k').names.sorted, hdiff, ?_, fun n => ?_, k.bits_sorted,
    hperm⟩
  · rw [Key.same_iff ht hk hk']
    refine ⟨fun heq n => by rw [← hmem, ← hmem', heq], fun heq => NameSet.ext_mem fun n => ?_⟩
    rw [hmem, hmem', heq]
  · rw [Key.contains_iff ht hk hk']
    simp only [hmem, hmem']
  · -- the key of the difference is built in the end, so the numbering after that decides
    obtain ⟨ht', hgrows, hnumbered, hnames⟩ := keyFor_spec ht rest
    refine (Key.same_iff ht' ((hk.subtract ht hk').mono hgrows) hnumbered).2 (NameSet.ext_mem fun n => ?_)
    rw [hdiff, hnames, hrest]
  · have hlength := hperm.length_eq
    rw [List.length_map, List.length_map, NameSet.length_toList_ofList] at hlength
    rw [← hlength, Key.bits, k.size_eq]
  · rw [Key.includes, NameSet.contains_iff, hmem]

/-- Two pages are numbered, more guests than a word has bits, and then the two again. -/
def crowd : List Call :=
  .keyFor ["page", "draft", "page"] :: (List.range 64).map (fun i => .bitFor (Name.numbered "guest" i)) ++
    [.keyFor ["draft", "page"]]

/-- A key of one word and a later one of two words are the same, and the table has their names at the bits of
the first. -/
theorem issued_keys_faithful_crowd :
    ∃ k k', Issued crowd ["page", "draft", "page"] k ∧ Issued crowd ["draft", "page"] k' ∧
      k.words.length = 1 ∧ k'.words.length = 2 ∧ k.same k' = true ∧ k.size = 2 ∧
      (k.subtract k').same ((run {} crowd).keyFor []).1 = true ∧
      (k.bits.map (run {} crowd).nameAt).Perm [some "draft", some "page"] := by
  obtain ⟨k, h, hwords⟩ : ∃ k, Issued crowd ["page", "draft", "page"] k ∧ k.words.length = 1 :=
    ⟨_, ⟨[], _, rfl, by simp, rfl⟩, by decide +kernel⟩
  obtain ⟨k', h', hwords'⟩ : ∃ k', Issued crowd ["draft", "page"] k' ∧ k'.words.length = 2 :=
    ⟨_, ⟨_, [], rfl, by simp, rfl⟩, by decide +kernel⟩
  obtain ⟨hsame, -, hdiff, -, -, hsize, -, -, hperm⟩ := issued_keys_faithful h h'
  refine ⟨k, k', h, h', hwords, hwords', hsame.2 fun n => ?_, hsize.trans (by decide), hdiff [] fun n => ?_, hperm⟩
  · simp only [List.mem_cons, List.not_mem_nil]
    tauto
  · simp only [List.mem_cons, List.not_mem_nil]
    tauto

end Numbering

end ContentTypes
