import Mathlib.Data.List.DropRight
import ContentTypes.Proofs.Key.Issued

/-! # The table of a numbering

A numbering keeps its names twice, from names to numbers and in a table. `Numbering.Tabled` says what the two
are after some names were asked for: they correspond, they are of one size, and the table lists the names in the
order in which they were first asked for. Numbering a name keeps this (`Tabled.bitFor`), so all calls do
(`Tabled.apply`), and what a clear has not undone is known from the calls alone (`Numbering.asked`).

The words of a key are made before its names are numbered. They suffice because every name numbered meanwhile
takes one number more at most (`length_setBits`). -/

namespace ContentTypes

theorem length_setBit {ws : List UInt64} {b : Nat} (hb : b < 64 * ws.length) :
    (setBit ws b).length = ws.length := by
  rw [setBit, List.length_modify, List.length_append, List.length_replicate]
  omega

namespace Numbering

variable {t : Numbering} {l : List Name} {n : Name} {b : Nat}

/-! ### What was asked for -/

/-- The names that a call asks for. -/
def Call.names : Call → List Name
  | .bitFor n => [n]
  | .keyFor names => names
  | .clear => []

/-- The names asked for since the last clear, with repetitions. -/
def asked (calls : List Call) : List Name := (calls.rtakeWhile (· ≠ .clear)).flatMap Call.names

theorem asked_concat {call : Call} (hcall : call ≠ .clear) (calls : List Call) :
    asked (calls ++ [call]) = asked calls ++ call.names := by
  rw [asked, List.rtakeWhile_concat_pos (fun c => c ≠ .clear) calls call (decide_eq_true hcall),
    List.flatMap_append, List.flatMap_singleton]
  rfl

theorem asked_concat_clear (calls : List Call) : asked (calls ++ [.clear]) = [] := by
  rw [asked, List.rtakeWhile_concat_neg (fun c => c ≠ .clear) calls .clear (by simp)]
  rfl

/-! ### Names in the table -/

/-- **The table of the names** `l`, asked for in this order. -/
structure Tabled (l : List Name) (t : Numbering) : Prop where
  valid : t.Valid
  size : t.size = t.names.size
  names : t.names.toList = l.eraseDups

theorem tabled_empty : Tabled [] {} := ⟨valid_empty, rfl, rfl⟩

theorem Valid.mem_names_iff (ht : t.Valid) : n ∈ t.names.toList ↔ ∃ b, t.lookup n = some b := by
  rw [Array.mem_toList_iff, Array.mem_iff_getElem?]
  exact exists_congr fun b => (ht n b).symm

/-- The names that have a number are those that were asked for. -/
theorem Tabled.lookup_eq_none_iff (h : Tabled l t) : t.lookup n = none ↔ n ∉ l := by
  rw [← List.mem_eraseDups, ← h.names, h.valid.mem_names_iff, Option.eq_none_iff_forall_ne_some, not_exists]

theorem Tabled.bitFor (h : Tabled l t) (n : Name) : Tabled (l ++ [n]) (t.bitFor n).2 := by
  refine ⟨h.valid.bitFor n, ?_, ?_⟩
  · cases hn : t.lookup n with
    | some b => rw [bitFor_of_lookup hn]; exact h.size
    | none =>
      have hnew : ¬ t.numbers.contains n = true := by
        rw [Std.TreeMap.contains_iff_mem, Std.TreeMap.mem_iff_isSome_getElem?]
        rw [lookup] at hn
        rw [hn]
        simp
      rw [bitFor_of_new hn, Numbering.size, Std.TreeMap.size_insert, if_neg hnew, Array.size_push]
      exact congrArg (· + 1) h.size
  · rw [List.eraseDups_append, ← h.names]
    cases hn : t.lookup n with
    | some b =>
      have hmem : n ∈ l := by
        by_contra hnot
        rw [h.lookup_eq_none_iff.2 hnot] at hn
        cases hn
      rw [bitFor_of_lookup hn]
      simp [List.cons_removeAll, hmem]
    | none =>
      have hmem := h.lookup_eq_none_iff.1 hn
      rw [bitFor_of_new hn]
      simp [List.cons_removeAll, hmem, List.eraseDups_cons]

theorem Tabled.setBits (h : Tabled l t) (ws : List UInt64) (names : List Name) :
    Tabled (l ++ names) (t.setBits ws names).2 := by
  induction names generalizing l t ws with
  | nil => rwa [List.append_nil]
  | cons n names ih =>
    rw [List.append_cons]
    exact ih (h.bitFor n) _

/-- Calls that do not clear add the names they ask for. -/
theorem Tabled.apply (h : Tabled l t) {call : Call} (hcall : call ≠ .clear) :
    Tabled (l ++ call.names) (t.apply call) := by
  cases call with
  | bitFor n => exact h.bitFor n
  | keyFor names => exact h.setBits _ names
  | clear => exact absurd rfl hcall

/-- **After any calls** the table has the names asked for since the last clear. -/
theorem tabled_run (calls : List Call) : Tabled (asked calls) (run {} calls) := by
  induction calls using List.reverseRecOn with
  | nil => exact tabled_empty
  | append_singleton calls call ih =>
    rw [run_append]
    by_cases hcall : call = .clear
    · subst hcall
      rw [asked_concat_clear]
      exact tabled_empty
    · rw [asked_concat hcall]
      exact ih.apply hcall

theorem Tabled.nodup (h : Tabled l t) : t.names.toList.Nodup := by
  refine List.pairwise_iff_getElem.2 fun b c hb hc hbc heq => ?_
  have hname : ∀ i (hi : i < t.names.toList.length), t.lookup t.names.toList[i] = some i := fun i hi => by
    rw [h.valid, nameAt, ← Array.getElem?_toList, List.getElem?_eq_getElem hi]
  have hb' := hname b hb
  rw [heq, hname c hc] at hb'
  exact Nat.ne_of_gt hbc (Option.some.inj hb')

/-- The numbers given are those below the size. -/
theorem Tabled.lt_size_iff (h : Tabled l t) : b < t.size ↔ ∃ n, t.lookup n = some b := by
  rw [h.size]
  constructor
  · exact fun hb => ⟨t.names[b], (h.valid _ b).2 (Array.getElem?_eq_getElem hb)⟩
  · rintro ⟨n, hn⟩
    exact (Array.getElem?_eq_some_iff.1 ((h.valid n b).1 hn)).1

/-- What was in the table stays where it is. -/
theorem Tabled.keeps_names (h : Tabled l t) {u : Numbering} {more : List Name} (hu : Tabled (l ++ more) u) :
    t.names.toList <+: u.names.toList := by
  rw [h.names, hu.names, List.eraseDups_append]
  exact List.prefix_append _ _

/-! ### The words of a key -/

/-- Words with a bit for every number given and every name to come are not added to. -/
theorem length_setBits (h : Tabled l t) {names : List Name} {ws : List UInt64}
    (hws : t.size + names.length ≤ 64 * ws.length) : (t.setBits ws names).1.length = ws.length := by
  induction names generalizing l t ws with
  | nil => rfl
  | cons n names ih =>
    rw [List.length_cons] at hws
    have hbit : (t.bitFor n).1 < (t.bitFor n).2.size :=
      (h.bitFor n).lt_size_iff.2 ⟨n, lookup_bitFor t n⟩
    have hsize : (t.bitFor n).2.size ≤ t.size + 1 := by
      rw [Numbering.size, Numbering.bitFor]
      split
      · exact Nat.le_succ _
      · exact Std.TreeMap.size_insert_le
    have hlength : (setBit ws (t.bitFor n).1).length = ws.length := length_setBit (by omega)
    have hrest : (t.bitFor n).2.size + names.length ≤ 64 * (setBit ws (t.bitFor n).1).length := by omega
    rw [← hlength]
    exact ih (h.bitFor n) hrest

theorem Tabled.length_keyFor (h : Tabled l t) (names : List Name) :
    (t.keyFor names).1.words.length = (t.size + names.length) / 64 + 1 := by
  have hblank : (t.blankWords names.length).length = (t.size + names.length) / 64 + 1 := by
    rw [blankWords, List.length_replicate]
  rw [← hblank]
  refine length_setBits h ?_
  rw [hblank]
  omega

/-! ### All calls -/

/-- **The numbering is a bijection that grows** until it is cleared. After any calls the table has as many
entries as there are numbers, all different, and a name has a number exactly if the table has the name there.
The numbers are those below the size, given in the order in which names were first asked for since the last
clear. A call that is no clear adds to the table at its end and takes back no number, and the words of a key are
as many as were made for the numbers given before and the names of the key. -/
theorem numbering_grows_as_bijection (calls : List Call) :
    let t := run {} calls
    t.names.size = t.size ∧ t.names.toList.Nodup ∧
    (∀ n b, t.lookup n = some b ↔ t.names[b]? = some n) ∧
    (∀ b, b < t.size ↔ ∃ n, t.lookup n = some b) ∧
    t.names.toList = (asked calls).eraseDups ∧
    (∀ call, call ≠ .clear →
      t.names.toList <+: (t.apply call).names.toList ∧ ∀ n b, t.lookup n = some b →
        (t.apply call).lookup n = some b) ∧
    ∀ names, (t.keyFor names).1.words.length = (t.size + names.length) / 64 + 1 := by
  have h := tabled_run calls
  exact ⟨h.size.symm, h.nodup, h.valid, fun b => h.lt_size_iff, h.names, fun call hcall =>
    ⟨h.keeps_names (h.apply hcall), apply_grows h.valid hcall⟩, h.length_keyFor⟩

/-- Two names are numbered and forgotten; then one of them comes after a new one. -/
def renumbered : List Call :=
  [.keyFor ["page", "site"], .clear, .bitFor "draft", .keyFor ["page", "draft", "page"]]

/-- The forgotten numbers are given anew, and the next name comes after them. -/
theorem numbering_grows_as_bijection_renumbered :
    (run {} renumbered).names.toList = ["draft", "page"] ∧ (run {} renumbered).lookup "page" = some 1 ∧
      (run {} renumbered).lookup "site" = none ∧
      ((run {} renumbered).apply (.bitFor "site")).lookup "page" = some 1 := by
  obtain ⟨-, -, hlookup, -, hnames, hgrows, -⟩ := numbering_grows_as_bijection renumbered
  have htable := hnames.trans (show _ = ["draft", "page"] by decide)
  have hname : ∀ b, (run {} renumbered).names[b]? = ["draft", "page"][b]? := fun b => by
    rw [← Array.getElem?_toList, htable]
  have hpage := (hlookup "page" 1).2 (hname 1)
  have hsite : ∀ b, (run {} renumbered).lookup "site" ≠ some b := fun b hb =>
    absurd (List.mem_iff_getElem?.2 ⟨b, (hname b).symm.trans ((hlookup "site" b).1 hb)⟩) (by decide)
  exact ⟨htable, hpage, Option.eq_none_iff_forall_ne_some.2 hsite, (hgrows _ (by simp)).2 _ _ hpage⟩

end Numbering

end ContentTypes
