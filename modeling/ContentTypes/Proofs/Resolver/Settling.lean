import ContentTypes.Proofs.Cache.Coherent
import ContentTypes.Proofs.Resolver.Building

/-! # What building replaces

Building caches its intermediate results, and these may come under a set of names that something else is
cached under already. Nothing that is cached gets lost by this, and another type takes the place of a cached
one only if that is exposed to a list of names that is aggregated (`Cache.Keeps`).

The reason is that the largest cached subset of a list is merged first, and a result that merges no other
names is still what was cached for this part (`Build.Begun`). So if a result comes under a set of names that
was cached before, then either the list was begun with this very set and the result is what was cached for it,
or it was begun with another part that is as large (`Build.Started.follows`). `Build.settling` is the contract
of the building for this. Unlike `Build.building` it tells nothing of errors, and does not depend on the
inheritance being sound. -/

namespace ContentTypes

open Registry Visit VisitGuard EffectiveType Contract

namespace Build

variable {w r : Registry} {begins : List Name → NameSet → Prop} {z : Set Name} {c₀ c c' : Cache}
  {st₀ st st' : State Cache} {s s' done rest : Set Name} {n : Name} {names l : List Name} {first : NameSet}
  {key : Key} {e o m type : EffectiveType} {result : Option EffectiveType}

/-! ### The contract -/

/-- A cache that building has got to from `c₀`: it is coherent with `w`, which has the current declaration
of every type not cached by itself, and keeps what was cached in `c₀`. -/
structure Settled (w r : Registry) (begins : List Name → NameSet → Prop) (c₀ c : Cache) : Prop where
  coherent : c.Coherent w
  current : ∀ n, ¬ c.Knows n → w.find? n = r.find? n
  keeps : c₀.Keeps begins c

/-- A later state at the same place of the walk; types cached for single names are the same. -/
structure Further (st st' : State Cache) : Prop where
  level : st.1.Level st'.1
  grows : st.2.numbering.Grows st'.2.numbering
  lasts : st.2.Lasts st'.2
  single : ∀ n e, st.2.Holds (.singleton n) e → st'.2.Holds (.singleton n) e

/-- **The contract**: the cache is settled, and types being built are not cached by themselves yet. -/
def settling (w r : Registry) (begins : List Name → NameSet → Prop) (c₀ : Cache) : Contract Cache where
  stands st := Settled w r begins c₀ st.2 ∧ ∀ n ∈ st.1.visiting, ¬ st.2.Knows n
  later := Further
  failed _ st := st.2.Coherent w ∧ c₀.Keeps begins st.2
  refl _ := ⟨.refl _, .refl _, fun _ h => h, fun _ _ h => h⟩
  trans h h' := ⟨h.level.trans h'.level, h.grows.trans h'.grows,
    fun names ho => h'.lasts names (h.lasts names ho), fun n e hn => h'.single n e (h.single n e hn)⟩

theorem Further.fits (h : Further st st') (he : st.2.Fits w s e) : st'.2.Fits w s e := he.mono h.single

theorem Settled.failed (h : Settled w r begins c₀ c) : c.Coherent w ∧ c₀.Keeps begins c :=
  ⟨h.coherent, h.keeps⟩

/-! ### Operations on the cache -/

theorem Settled.keyFor (h : Settled w r begins c₀ c) (names : List Name) :
    Settled w r begins c₀ (c.keyFor names).2 :=
  ⟨h.coherent.keyFor names, h.current, h.keeps.trans (c.keeps_keyFor names)⟩

theorem settling_keyFor (hst : (settling w r begins c₀).stands st) (names : List Name) :
    (settling w r begins c₀).Ensures (keyFor names) st fun key st' =>
      key.Numbered st'.2.numbering ∧ key.names = .ofList names ∧
        (st'.2.findBest? key).map (·.names) = st.2.largest? names ∧
        ∀ names e, st.2.Holds names e → st'.2.Holds names e :=
  ensures_change ⟨hst.1.keyFor names, hst.2⟩
    ⟨.refl _, Cache.keyFor_grows hst.1.coherent.keyed names, fun _ h => h, fun _ _ h => h⟩
    ⟨Cache.keyFor_numbered hst.1.coherent.keyed names, rfl, rfl, fun _ _ h => h⟩

theorem Settled.put (h : Settled w r begins c₀ c) (hk : key.Numbered c.numbering)
    (hne : ∃ n, n ∈ key.names) (hfits : c.Fits w {n | n ∈ key.names} type)
    (hfollows : ∀ e, c₀.Holds key.names e → Cache.Follows begins c key.names e type) :
    Settled w r begins c₀ (c.put key type) where
  coherent := h.coherent.put hk hne hfits
  current n hn := h.current n fun hknown => hn (Cache.exists_holds_put h.coherent.keyed hk hknown)
  keeps := h.keeps.put h.coherent.keyed hk hfollows

/-- Putting a type that fits makes no name known. -/
theorem knows_of_put (hfits : c.Fits w {n | n ∈ key.names} type) (h : (c.put key type).Knows n) :
    c.Knows n := by
  obtain ⟨e, he⟩ := h
  rcases Cache.holds_put he with ⟨hname, -⟩ | he
  · refine hfits.closed n ((hfits.yields.all_iff n).2 (w.subset_closure _ ?_))
    show n ∈ key.names
    rw [← hname]
    exact NameSet.mem_singleton.2 rfl
  · exact ⟨e, he⟩

theorem settling_put (hst : (settling w r begins c₀).stands st) (hk : key.Numbered st.2.numbering)
    (hne : ∃ n, n ∈ key.names) (hfits : st.2.Fits w {n | n ∈ key.names} type)
    (hfollows : ∀ e, c₀.Holds key.names e → Cache.Follows begins st.2 key.names e type) :
    (settling w r begins c₀).Ensures (put key type) st fun _ st' =>
      st'.2.Holds key.names type ∧ ∀ names, st.2.Holds names type → st'.2.Holds names type := by
  have hcoherent := hst.1.coherent
  refine ensures_change ⟨hst.1.put hk hne hfits hfollows, fun n hn hknown => ?_⟩
    ⟨.refl _, .refl _, Cache.lasts_put hcoherent.keyed hk, fun n e hn => ?_⟩
    ⟨Cache.holds_put_self st.2 key type, fun _ h => Cache.holds_put_same hcoherent.keyed hk h⟩
  · exact hst.2 n hn (knows_of_put hfits hknown)
  · exact hcoherent.holds_single_put hk (hcoherent.same_of_fits hfits) hn

theorem settling_putMerged (hst : (settling w r begins c₀).stands st) (hfits : st.2.Fits w s type)
    (hfollows : ∀ e, c₀.Holds type.mergedTypes e →
      Cache.Follows begins st.2 type.mergedTypes e type) :
    (settling w r begins c₀).Ensures (putMerged type) st fun _ st' =>
      ∀ names, st.2.Holds names type → st'.2.Holds names type := by
  rw [putMerged_eq]
  refine (settling_keyFor hst _).bind fun key st' hst' hl hkey => ?_
  obtain ⟨hnum, hnames, -, hheld⟩ := hkey
  rw [Cache.ofList_toList] at hnames
  rw [← hnames] at hfollows
  have hfits' := (hl.fits hfits).merged
  rw [← hnames] at hfits'
  refine (settling_put hst' hnum ?_ hfits' fun e he => (hfollows e he).mono hl.lasts).mono
    fun _ _ h names hn => h.2 names (hheld _ _ hn)
  rw [hnames]
  exact hfits.wellFormed.merged

/-! ### The part that a list begins with -/

/-- **A list has been begun** with a cached part of it, which is not the whole list. No set within the list
that was cached at the start has more names than the part, and as long as the result merges no other names, it
may follow what was cached for the part. -/
structure Begun (begins : List Name → NameSet → Prop) (c₀ c : Cache) (l : List Name) (done : Set Name)
    (result : Option EffectiveType) (first : NameSet) : Prop where
  list : begins l first
  held : ∃ o, c.Holds first o
  proper : first ≠ .ofList l
  largest : ∀ names e, c₀.Holds names e → (∀ n ∈ names, n ∈ l) → names.size ≤ first.size
  done : ∀ n ∈ first, n ∈ done
  unchanged : ∀ e ∈ result, (∀ n ∈ e.mergedTypes, n ∈ first) →
    ∀ o, c₀.Holds first o → Cache.Follows begins c first o e

/-- A list has been begun with some part, unless no set within it was cached at the start. -/
def Started (begins : List Name → NameSet → Prop) (c₀ c : Cache) (l : List Name) (done : Set Name)
    (result : Option EffectiveType) : Prop :=
  (∀ names e, c₀.Holds names e → ∃ n ∈ names, n ∉ l) ∨ ∃ first, Begun begins c₀ c l done result first

theorem Begun.mono (h : Begun begins c₀ c l done result first) (hlasts : c.Lasts c') :
    Begun begins c₀ c' l done result first where
  list := h.list
  held := hlasts first h.held
  proper := h.proper
  largest := h.largest
  done := h.done
  unchanged e he hmerged o ho := (h.unchanged e he hmerged o ho).mono hlasts

theorem Started.mono (h : Started begins c₀ c l done result) (hlasts : c.Lasts c') :
    Started begins c₀ c' l done result :=
  h.imp_right fun ⟨first, hbegun⟩ => ⟨first, hbegun.mono hlasts⟩

/-- A result that merges no name outside the part has not changed. -/
theorem Begun.merge (h : Begun begins c₀ c l done (some e) first) (he : c.Fits w done e)
    (ho : c.Fits w s o) (hs : ∀ n ∈ s, n ∉ done) (hm : e.merge o .aggregate = .ok m) :
    Begun begins c₀ c l (done ∪ s) (some m) first where
  list := h.list
  held := h.held
  proper := h.proper
  largest := h.largest
  done n hn := Or.inl (h.done n hn)
  unchanged m' hm' hmerged := by
    obtain rfl := Option.some.inj hm'
    rcases (merges_of_merge he.wellFormed.toTidy ho.wellFormed hm).types with ⟨-, rfl⟩ | ⟨-, hall, -⟩
    · exact h.unchanged _ rfl hmerged
    · obtain ⟨n, hn⟩ := ho.wellFormed.merged
      have hfirst := hmerged n ((hall n).2 (Or.inr hn))
      exact absurd (h.done n hfirst) (hs n (ho.yields.merged_mem n hn))

/-- **The result for names of a list** may follow what was cached under its merged types. -/
theorem Started.follows (h : Started begins c₀ c l s (some type)) (hc : Settled w r begins c₀ c)
    (hfits : c.Fits w s type) (hs : ∀ n ∈ s, n ∈ l) :
    ∀ e, c₀.Holds type.mergedTypes e → Cache.Follows begins c type.mergedTypes e type := by
  intro e he
  have hwithin : ∀ n ∈ type.mergedTypes, n ∈ l := fun n hn => hs n (hfits.yields.merged_mem n hn)
  rcases h with hnone | ⟨first, hbegun⟩
  · obtain ⟨n, hn, hno⟩ := hnone _ e he
    exact absurd (hwithin n hn) hno
  by_cases hother : type.mergedTypes = first
  · rw [hother] at he ⊢
    exact hbegun.unchanged type rfl (fun n hn => hother ▸ hn) e he
  obtain ⟨e', he', hf⟩ := hc.keeps.held he
  have hfits' := hc.coherent.fits he'
  have halike := hfits'.yields.alike hfits'.wellFormed hfits.wellFormed hfits.merged.yields
  refine ⟨hf.alike.trans halike, ?_⟩
  by_cases hsingle : ∃ n, type.mergedTypes = .singleton n
  · obtain ⟨n, hn⟩ := hsingle
    rw [hn] at he
    exact Or.inl (hc.coherent.unique (hfits.single n hn) (hc.keeps.single he))
  · have hincluded : ∀ n ∈ first, n ∈ e.allTypes := fun n hn => by
      rw [← hf.alike.all, ← halike.all]
      exact (hfits.yields.all_iff n).2 (w.subset_closure s (hbegun.done n hn))
    exact Or.inr ⟨l, first, hbegun.list, hbegun.held, fun n hn => hsingle ⟨n, hn⟩, hwithin,
      fun n hn => hs n (hbegun.done n hn), hbegun.proper, Ne.symm hother, hbegun.largest _ e he hwithin,
      hincluded⟩

/-! ### Merging -/

theorem settling_merged {kind : MergeKind} (hst : (settling w r begins c₀).stands st) :
    (settling w r begins c₀).Ensures (merged e o kind) st fun m st' =>
      e.merge o kind = .ok m ∧ st' = st := by
  unfold merged
  cases h : e.merge o kind with
  | ok m => exact ensures_pure hst ⟨rfl, rfl⟩
  | error c => exact ensures_throw hst.1.failed

/-- Where the aggregation of a list stands, with some names done and the rest to be merged in. -/
structure Partway (w : Registry) (begins : List Name → NameSet → Prop) (c₀ c : Cache) (l : List Name)
    (done rest : Set Name) (result : Option EffectiveType) : Prop where
  soFar : SoFar (c.Fits w) done result
  started : Started begins c₀ c l done result
  cover : done ∪ rest = {n | n ∈ l}
  disjoint : ∀ n ∈ rest, n ∉ done

theorem Partway.further (h : Partway w begins c₀ st.2 l done rest result) (hl : Further st st') :
    Partway w begins c₀ st'.2 l done rest result := by
  refine ⟨?_, h.started.mono hl.lasts, h.cover, h.disjoint⟩
  cases result with
  | none => exact h.soFar
  | some e => exact hl.fits h.soFar

/-- What is taken off is what is merged in. -/
theorem Partway.step (h : Partway w begins c₀ c l done rest result) (hs : s ⊆ rest)
    (hm : c'.Fits w (done ∪ s) m) (hstarted : Started begins c₀ c' l (done ∪ s) (some m)) :
    Partway w begins c₀ c' l (done ∪ s) (rest \ s) (some m) := by
  refine ⟨hm, hstarted, ?_, fun n hn hdone => ?_⟩
  · rw [Set.union_assoc, Set.union_sdiff_cancel hs]
    exact h.cover
  · rcases hdone with hdone | hns
    · exact h.disjoint n hn.1 hdone
    · exact hn.2 hns

theorem settling_mergeNext (hst : (settling w r begins c₀).stands st)
    (hpart : Partway w begins c₀ st.2 l done rest result) (hs : s ⊆ rest) (ho : st.2.Fits w s o) :
    (settling w r begins c₀).Ensures (mergeNext result o) st fun m st' =>
      Partway w begins c₀ st'.2 l (done ∪ s) (rest \ s) (some m) := by
  have hin : ∀ n ∈ done ∪ s, n ∈ l := fun n hn => by
    have hcover : n ∈ done ∪ rest := hn.imp id fun hn => hs hn
    rwa [hpart.cover] at hcover
  cases result with
  | none =>
    have hdone : done = ∅ := hpart.soFar
    have hfits : st.2.Fits w (done ∪ s) o := by rwa [hdone, Set.empty_union]
    refine ensures_pure hst (hpart.step hs hfits (Or.inl ?_))
    rcases hpart.started with hnone | ⟨first, hbegun⟩
    · exact hnone
    · -- a part that is cached has a name, and this is done already
      obtain ⟨x, hx⟩ := hbegun.held
      obtain ⟨n, hn⟩ := hst.1.coherent.nonempty hx
      exact absurd (hdone ▸ hbegun.done n hn) (Set.notMem_empty n)
  | some e =>
    have he : st.2.Fits w done e := hpart.soFar
    have hnew : ∀ n ∈ s, n ∉ done := fun n hn => hpart.disjoint n (hs hn)
    refine (settling_merged hst).bind fun m st' hst' hl' hm => ?_
    obtain ⟨hm, rfl⟩ := hm
    have hfits := hst.1.coherent.merge he ho hm
    have hstarted : Started begins c₀ st'.2 l (done ∪ s) (some m) :=
      hpart.started.imp_right fun ⟨first, hbegun⟩ => ⟨first, hbegun.merge he ho hnew hm⟩
    exact (settling_putMerged hst hfits (hstarted.follows hst.1 hfits hin)).bind fun _ st'' hst'' hl'' _ =>
      ensures_pure hst'' (hpart.step hs (hl''.fits hfits) (hstarted.mono hl''.lasts))

/-! ### Aggregating -/

theorem setOf_subtract (k best : Key) :
    {n | n ∈ (k.subtract best).names} = {n | n ∈ k.names} \ {n | n ∈ best.names} := by
  ext n
  simp [Key.names_subtract]

/-- Merging in cached subsets, once there is a result. -/
theorem settling_mergeSubsets_some : ∀ (rounds : Nat) {remaining : Key} {e : EffectiveType}
    {done : Set Name} {st : State Cache}, (settling w r begins c₀).stands st →
      remaining.Numbered st.2.numbering →
      Partway w begins c₀ st.2 l done {n | n ∈ remaining.names} (some e) →
    (settling w r begins c₀).Ensures (mergeSubsets rounds remaining (some e)) st fun out st' =>
      ∃ done, Partway w begins c₀ st'.2 l done {n | n ∈ out.1.names} out.2 := by
  intro rounds
  induction rounds with
  | zero => exact fun hst _ hpart => ensures_pure hst ⟨_, hpart⟩
  | succ rounds ih =>
    intro remaining e done st hst hk hpart
    unfold mergeSubsets
    split
    · exact ensures_pure hst ⟨_, hpart⟩
    · refine ensures_read ?_
      split
      · exact ensures_pure hst ⟨_, hpart⟩
      · next best type hbest =>
        have hcoherent := hst.1.coherent
        obtain ⟨hnum, hsub, hholds⟩ := Cache.holds_of_largest hcoherent.keyed hk hbest
        have hsubset : {n | n ∈ best.names} ⊆ {n | n ∈ remaining.names} := hsub
        refine (settling_mergeNext hst hpart hsubset (hcoherent.fits hholds)).bind fun m st' hst' hl' hm => ?_
        rw [← setOf_subtract] at hm
        exact ih hst' ((hk.subtract hcoherent.keyed.valid hnum).mono hl'.grows) hm

/-- **Merging in cached subsets** begins with the largest. -/
theorem settling_mergeSubsets (hst : (settling w r begins c₀).stands st)
    (hk : key.Numbered st.2.numbering) (hnames : key.names = .ofList l)
    (hnew : ∀ e, ¬ st.2.Holds key.names e)
    (hbegins : ∀ best, st.2.findBest? key = some best → begins l best.names) :
    (settling w r begins c₀).Ensures (mergeSubsets key.size key none) st fun out st' =>
      ∃ done, Partway w begins c₀ st'.2 l done {n | n ∈ out.1.names} out.2 := by
  have hcoherent := hst.1.coherent
  have hmem : ∀ n, n ∈ key.names ↔ n ∈ l := fun n => by rw [hnames, NameSet.mem_ofList]
  have hset : {n | n ∈ key.names} = {n | n ∈ l} := Set.ext hmem
  -- nothing is done as long as there is no result
  have hstart : (∀ names e, c₀.Holds names e → ∃ n ∈ names, n ∉ l) →
      Partway w begins c₀ st.2 l ∅ {n | n ∈ key.names} none := fun hnone =>
    ⟨rfl, Or.inl hnone, by rw [Set.empty_union, hset], fun _ _ => id⟩
  have hempty : key.isEmpty = true → ∀ names e, c₀.Holds names e → ∃ n ∈ names, n ∉ l :=
    fun h names e he => by
      obtain ⟨e', he', -⟩ := hst.1.keeps.held he
      obtain ⟨n, hn⟩ := hcoherent.nonempty he'
      exact ⟨n, hn, fun hl => (Key.isEmpty_iff hk).1 h n ((hmem n).2 hl)⟩
  cases hsize : key.size with
  | zero => exact ensures_pure hst ⟨_, hstart (hempty (by simp [Key.isEmpty, hsize]))⟩
  | succ rounds =>
    unfold mergeSubsets
    split
    · next h => exact ensures_pure hst ⟨_, hstart (hempty h)⟩
    · refine ensures_read ?_
      split
      · next hnone =>
        refine ensures_pure hst ⟨_, hstart fun names e he => ?_⟩
        by_contra hall
        have hsub : ∀ n ∈ names, n ∈ l := by simpa using hall
        obtain ⟨e', he', -⟩ := hst.1.keeps.held he
        exact Cache.not_holds_of_largest hcoherent.keyed hk hnone (fun n hn => (hmem n).2 (hsub n hn)) he'
      · next best type hbest =>
        obtain ⟨hnum, hsub, hholds⟩ := Cache.holds_of_largest hcoherent.keyed hk hbest
        have hbegun : Begun begins c₀ st.2 l {n | n ∈ best.names} (some type) best.names := by
          refine ⟨hbegins best (Cache.found_of_largest hbest).1, ⟨type, hholds⟩, fun heq => ?_,
            fun names e he hl => ?_, fun n hn => hn, fun e he _ o ho => ?_⟩
          · rw [heq, ← hnames] at hholds
            exact hnew type hholds
          · obtain ⟨e', he', -⟩ := hst.1.keeps.held he
            exact Cache.size_le_of_largest hcoherent.ordered hcoherent.keyed hk hbest he'
              fun n hn => (hmem n).2 (hl n hn)
          · obtain rfl := Option.some.inj he
            obtain ⟨o', ho', hf⟩ := hst.1.keeps.held ho
            rwa [hcoherent.unique ho' hholds] at hf
        have hsubset : {n | n ∈ best.names} ⊆ {n | n ∈ key.names} := hsub
        have hpart : Partway w begins c₀ st.2 l {n | n ∈ best.names} {n | n ∈ (key.subtract best).names}
            (some type) := by
          rw [setOf_subtract]
          refine ⟨hcoherent.fits hholds, Or.inr ⟨_, hbegun⟩, ?_, fun n hn => hn.2⟩
          rw [Set.union_sdiff_cancel hsubset, hset]
        exact settling_mergeSubsets_some rounds hst (hk.subtract hcoherent.keyed.valid hnum) hpart

/-- What building the declaration of one of the names ensures, if it is not cached. -/
def SettlesSingle (w r : Registry) (begins : List Name → NameSet → Prop) (z : Set Name) (c₀ : Cache)
    (build : Name → Build EffectiveType) : Prop :=
  ∀ n ∈ z, ∀ st, (settling w r begins c₀).stands st → ¬ st.2.Knows n →
    (settling w r begins c₀).Ensures (build n) st fun e st' => st'.2.Fits w {n} e

theorem settling_single {build : Name → Build EffectiveType} (hst : (settling w r begins c₀).stands st)
    (hbuild : SettlesSingle w r begins z c₀ build) (hn : n ∈ z) :
    (settling w r begins c₀).Ensures (single build n) st fun e st' => st'.2.Fits w {n} e := by
  unfold single
  refine (settling_keyFor hst [n]).bind fun key st' hst' hl hkey => ?_
  obtain ⟨hnum, hnames, -⟩ := hkey
  have hcoherent := hst'.1.coherent
  have hname : key.names = .singleton n := hnames
  refine ensures_read ?_
  split
  · next e hfound =>
    have hfits := hcoherent.fits (Cache.holds_of_get? hcoherent.keyed hnum hfound)
    rw [Cache.setOf_names hname] at hfits
    exact ensures_pure hst' hfits
  · next hfound =>
    refine hbuild n hn st' hst' ?_
    rintro ⟨e, he⟩
    rw [← hname] at he
    exact Cache.not_holds_of_get? hcoherent.keyed hnum hfound he

theorem settling_mergeSingles {build : Name → Build EffectiveType}
    (hst : (settling w r begins c₀).stands st) (hbuild : SettlesSingle w r begins z c₀ build)
    (hlz : ∀ n ∈ l, n ∈ z) (hnodup : names.Nodup)
    (hpart : Partway w begins c₀ st.2 l done {n | n ∈ names} result) :
    (settling w r begins c₀).Ensures (mergeSingles build names result) st fun out st' =>
      SoFar (st'.2.Fits w) {n | n ∈ l} out ∧ Started begins c₀ st'.2 l {n | n ∈ l} out := by
  unfold mergeSingles
  refine (Ensures.foldlM (fun rest result st' => rest.Nodup ∧
    ∃ done, Partway w begins c₀ st'.2 l done {n | n ∈ rest} result) ?_ hst ⟨hnodup, done, hpart⟩).mono ?_
  · rintro n rest result st' hst' - ⟨hnodup, done, hpart⟩
    obtain ⟨hnrest, hnodup⟩ := List.nodup_cons.1 hnodup
    have hn : {n} ⊆ {m | m ∈ n :: rest} := Set.singleton_subset_iff.2 List.mem_cons_self
    have hnl : n ∈ {n | n ∈ l} := hpart.cover ▸ Or.inr List.mem_cons_self
    refine (settling_single hst' hbuild (hlz n hnl)).bind fun e st₂ hst₂ hl₂ he => ?_
    refine (settling_mergeNext hst₂ (hpart.further hl₂) hn he).bind fun m st₃ hst₃ hl₃ hm => ?_
    refine ensures_pure hst₃ ⟨hnodup, done ∪ {n}, ?_⟩
    have hrest : {m | m ∈ rest} = {m | m ∈ n :: rest} \ {n} := by
      ext m
      simp only [Set.mem_ofPred_eq, Set.mem_sdiff, Set.mem_singleton_iff, List.mem_cons]
      constructor
      · exact fun hm => ⟨Or.inr hm, fun hmn => hnrest (hmn ▸ hm)⟩
      · exact fun ⟨hm, hne⟩ => hm.resolve_left hne
    rw [hrest]
    exact hm
  · rintro out st' ⟨-, done, hpart⟩
    have hdone : done = {n | n ∈ l} := by
      rw [← hpart.cover]
      ext n
      simp
    exact hdone ▸ ⟨hpart.soFar, hpart.started⟩

/-- The result for a list is cached under the list, where nothing was cached at the start, and under its
merged types. -/
theorem settling_putResult (hst : (settling w r begins c₀).stands st)
    (hk : key.Numbered st.2.numbering) (hnames : key.names = .ofList l)
    (hnew : ∀ e, ¬ c₀.Holds key.names e) (hfits : st.2.Fits w {n | n ∈ l} type)
    (hstarted : Started begins c₀ st.2 l {n | n ∈ l} (some type)) :
    (settling w r begins c₀).Ensures (put key type >>= fun _ => putMerged type >>= fun _ => pure type) st
      fun e st' => st'.2.Fits w {n | n ∈ l} e ∧ st'.2.Holds key.names e := by
  have hset : {n | n ∈ key.names} = {n | n ∈ l} := by
    ext n
    rw [hnames]
    exact NameSet.mem_ofList
  have hkeyfits := hfits
  rw [← hset] at hkeyfits
  have hkeyne : ∃ n, n ∈ key.names := by
    obtain ⟨n, hn⟩ := hfits.wellFormed.merged
    exact ⟨n, hkeyfits.yields.merged_mem n hn⟩
  refine (settling_put hst hk hkeyne hkeyfits fun e he => absurd he (hnew e)).bind
    fun _ st₁ hst₁ hl₁ hput => ?_
  have hfits₁ := hl₁.fits hfits
  have hfollows := (hstarted.mono hl₁.lasts).follows hst₁.1 hfits₁ fun _ hn => hn
  exact (settling_putMerged hst₁ hfits₁ hfollows).bind fun _ st₂ hst₂ hl₂ hheld =>
    ensures_pure hst₂ ⟨hl₂.fits hfits₁, hheld _ hput.1⟩

/-- **Aggregating a list** gives a type that fits and is cached under the list. -/
theorem settling_aggregateWith {build : Name → Build EffectiveType}
    (hst : (settling w r begins c₀).stands st) (hlz : ∀ n ∈ l, n ∈ z)
    (hbegins : (∀ e, ¬ c₀.Holds (.ofList l) e) → ∀ first, st.2.largest? l = some first → begins l first)
    (hbuild : SettlesSingle w r begins z c₀ build) :
    (settling w r begins c₀).Ensures (aggregateWith build l) st fun e st' =>
      st'.2.Fits w {n | n ∈ l} e ∧ st'.2.Holds (.ofList l) e := by
  unfold aggregateWith
  refine (settling_keyFor hst l).bind fun key st₁ hst₁ hl₁ hkey => ?_
  obtain ⟨hnum, hnames, hlargest, -⟩ := hkey
  have hcoherent := hst₁.1.coherent
  refine ensures_read ?_
  split
  · next e hfound =>
    have hholds := Cache.holds_of_get? hcoherent.keyed hnum hfound
    have hfits := hcoherent.fits hholds
    rw [hnames] at hholds hfits
    have hset : {n | n ∈ NameSet.ofList l} = {n | n ∈ l} := Set.ext fun _ => NameSet.mem_ofList
    rw [hset] at hfits
    exact ensures_pure hst₁ ⟨hfits, hholds⟩
  · next hfound =>
    have hmiss : ∀ e, ¬ st₁.2.Holds key.names e := fun e =>
      Cache.not_holds_of_get? hcoherent.keyed hnum hfound
    have hnew : ∀ e, ¬ c₀.Holds key.names e := fun e he => by
      obtain ⟨e', he', -⟩ := hst₁.1.keeps.held he
      exact hmiss e' he'
    refine (settling_mergeSubsets hst₁ hnum hnames hmiss fun best hbest => ?_).bind
      fun out st₂ hst₂ hl₂ hout => ?_
    · refine hbegins (fun e he => hnew e (hnames ▸ he)) best.names ?_
      rw [← hlargest, hbest]
      rfl
    obtain ⟨remaining, result⟩ := out
    obtain ⟨done, hpart⟩ := hout
    refine (settling_mergeSingles hst₂ hbuild hlz remaining.names.nodup_toList hpart).bind
      fun out st₃ hst₃ hl₃ hout => ?_
    split
    · exact ensures_throw hst₃.1.failed
    · next type =>
      have hput := settling_putResult hst₃ (hnum.mono (hl₂.grows.trans hl₃.grows)) hnames hnew hout.1 hout.2
      rw [hnames] at hput
      exact hput

/-! ### Declarations -/

/-- A state in which the type of `n`, begun in the state `st`, has been built and cached; of the names being
built the cache knows no other. -/
structure Finished (w r : Registry) (begins : List Name → NameSet → Prop) (c₀ : Cache) (n : Name)
    (st : State Cache) (e : EffectiveType) (st' : State Cache) : Prop where
  settled : Settled w r begins c₀ st'.2
  visiting : ∀ t ∈ st'.1.visiting, st'.2.Knows t → t = n
  further : Further st st'
  fits : st'.2.Fits w {n} e

/-- A type that is being built is new when it is cached. -/
theorem finished_putMerged (hst : (settling w r begins c₀).stands st) (hl : Further st₀ st)
    (hn : n ∈ st.1.visiting) (hbuilt : Built e) (hyields : w.Yields {n} e)
    (hmerged : e.mergedTypes = .singleton n) (hclosed : ∀ t ∈ e.allTypes, t = n ∨ st.2.Knows t) :
    After (putMerged e >>= fun _ => pure e) st (Finished w r begins c₀ n st₀)
      (settling w r begins c₀).failed := by
  rw [putMerged_eq, after_bind, after_bind]
  refine After.mono (settling_keyFor hst e.mergedTypes.toList) ?_ fun _ _ h => h
  rintro key st' ⟨⟨hsettled, hbusy⟩, hl', hnum, hnames, -, hheld⟩
  rw [Cache.ofList_toList, hmerged] at hnames
  have hnew : ¬ st'.2.Knows n := hbusy n (by rw [hl'.level.visiting]; exact hn)
  have hcoherent := hsettled.coherent
  obtain ⟨hput, hfits⟩ := hcoherent.put_new hnum hnames hnew hbuilt hyields fun t ht =>
    (hclosed t ht).imp id fun ⟨o, ho⟩ => ⟨o, hheld _ _ ho⟩
  have hkeep : ∀ m o, st'.2.Holds (.singleton m) o → (st'.2.put key e).Holds (.singleton m) o :=
    fun m o ho => by
      refine Cache.holds_put_of_ne hcoherent.keyed hnum (fun hname => hnew ?_) ho
      rw [Cache.Knows, ← hnames, ← hname]
      exact ⟨o, ho⟩
  show Finished w r begins c₀ n st₀ e (st'.1, st'.2.put key e)
  refine ⟨⟨hput, fun m hm => hsettled.current m fun ⟨o, ho⟩ => hm ⟨o, hkeep m o ho⟩, ?_⟩, ?_, ?_, hfits⟩
  · refine hsettled.keeps.put hcoherent.keyed hnum fun o ho => ?_
    obtain ⟨o', ho', -⟩ := hsettled.keeps.held ho
    rw [hnames] at ho'
    exact absurd ⟨o', ho'⟩ hnew
  · rintro t ht ⟨o, ho⟩
    rcases Cache.holds_put ho with ⟨hname, -⟩ | ho
    · have htn : t ∈ NameSet.singleton n := by
        rw [← hnames, ← hname]
        exact NameSet.mem_singleton.2 rfl
      exact NameSet.mem_singleton.1 htn
    · exact absurd ⟨o, ho⟩ (hbusy t ht)
  · have hl'' : Further st (st'.1, st'.2.put key e) :=
      ⟨hl'.level, hl'.grows, fun names ho => Cache.lasts_put hcoherent.keyed hnum names (hl'.lasts names ho),
        fun m o ho => hkeep m o (hl'.single m o ho)⟩
    exact (settling w r begins c₀).trans hl hl''

/-- **The type of a declaration** that is being built. -/
theorem finished_declaredType {aggregate : List Name → Build EffectiveType}
    (hst : (settling w r begins c₀).stands st) (hn : n ∈ st.1.visiting)
    (hagg : ∀ d, r.find? n = some d → (settling w r begins c₀).Ensures (aggregate d.supertypes) st
      fun e st' => st'.2.Fits w {u | u ∈ d.supertypes} e) :
    After (r.declaredType aggregate n) st (Finished w r begins c₀ n st)
      (settling w r begins c₀).failed := by
  have hrefl : Further st st := (settling w r begins c₀).refl st
  unfold declaredType
  cases hd : r.find? n with
  | none => exact hst.1.failed
  | some d =>
    -- the declaration is current, for the type is not cached yet
    have hdw : w.find? n = some d := (hst.1.current n (hst.2 n hn)).trans hd
    dsimp only
    cases hown : ofDeclaration d with
    | error x => exact hst.1.failed
    | ok own =>
      have hw := wellFormed_ofDeclaration hown
      have hall : ∀ t, t ∈ own.allTypes ↔ t = n := fun t => by
        rw [mem_allTypes_ofDeclaration hown, name_of_find? hd]
      have hmerged : own.mergedTypes = .singleton n := Cache.mergedTypes_eq_singleton hw fun t ht => by
        rw [(mem_mergedTypes_ofDeclaration hown).1 ht, name_of_find? hd]
      dsimp only
      split
      · next hnil =>
        exact finished_putMerged hst hrefl hn (.ofDeclaration hown)
          (yields_root hdw (by simpa using hnil) hown) hmerged fun t ht => Or.inl ((hall t).1 ht)
      · next hne =>
        have hne : d.supertypes ≠ [] := by simpa using hne
        rw [after_bind]
        refine After.mono (hagg d hd) ?_ fun _ _ h => h
        rintro o st₁ ⟨hst₁, hl₁, ho⟩
        have hn₁ : n ∈ st₁.1.visiting := by
          rw [hl₁.level.visiting]
          exact hn
        -- what is above the type does not include it, for it is not cached yet
        have hno : n ∉ o.allTypes := fun hno => hst₁.2 n hn₁ (ho.closed n hno)
        have hacyclic : ¬ Relation.TransGen w.Extends n n := by
          rw [transGen_iff hdw, ← ho.yields.all_iff]
          exact hno
        rw [after_bind]
        refine After.mono (settling_merged hst₁) ?_ fun _ _ h => h
        rintro m st₂ ⟨hst₂, hl₂, hm, -⟩
        have hwo := ho.wellFormed
        have hmerges := merges_of_merge hw.toTidy hwo hm
        refine finished_putMerged hst₂ ((settling w r begins c₀).trans hl₁ hl₂) ?_
          ((Built.ofDeclaration hown).merge ho.built hm)
          (yields_declared hdw hacyclic hne hown hwo ho.yields hm) ?_ fun t ht => ?_
        · rw [hl₂.level.visiting]
          exact hn₁
        · rcases hmerges.types with ⟨-, rfl⟩ | ⟨-, ht⟩
          · exact hmerged
          · exact ht.1.trans hmerged
        · exact ((hmerges.all_iff t).1 ht).imp (hall t).1 ((hl₂.fits ho).closed t)

/-- A name that the guard admits is not being built, and is not when it has been built. -/
theorem settling_buildDeclared {aggregate : List Name → Build EffectiveType}
    (hagg : ∀ n ∈ z, ¬ c₀.Knows n → ∀ d st, (settling w r begins c₀).stands st → r.find? n = some d →
      (settling w r begins c₀).Ensures (aggregate d.supertypes) st
        fun e st' => st'.2.Fits w {u | u ∈ d.supertypes} e) :
    SettlesSingle w r begins z c₀ (r.buildDeclared aggregate) := by
  rintro n hn ⟨g, c⟩ ⟨hsettled, hbusy⟩ hnew
  have hnew₀ : ¬ c₀.Knows n := fun hknown => hnew (hsettled.keeps.lasts _ hknown)
  unfold buildDeclared
  refine after_within (fun g₁ hg₁ => ?_) fun _ _ _ _ => hsettled.failed
  obtain ⟨rfl, hvisiting, -, -⟩ := enter_entered hg₁
  have hst : (settling w r begins c₀).stands (g.during n, c) := by
    refine ⟨hsettled, fun t ht => ?_⟩
    rcases List.mem_cons.1 ht with rfl | ht
    · exact hnew
    · exact hbusy t ht
  refine After.mono (finished_declaredType hst List.mem_cons_self fun d hd => hagg n hn hnew₀ d _ hst hd) ?_
    fun _ _ h => h
  rintro e st' ⟨hsettled', hvisiting', hl, hfits⟩
  have hleave := hl.level.leave
  refine ⟨⟨hsettled', fun t ht hknown => ?_⟩, ⟨hleave, hl.grows, hl.lasts, hl.single⟩, hfits⟩
  -- only `n` can have become known, and it is not being built any more
  rw [hleave.visiting] at ht
  have ht' : t ∈ st'.1.visiting := by
    rw [hl.level.visiting]
    exact List.mem_cons_of_mem n ht
  exact hvisiting (hvisiting' t ht' hknown ▸ ht)

/-! ### The recursion -/

/-- **Aggregating** a list of names, whatever the guard refuses. It stays within the names `z`, and of those
not cached at the start it may merge the supertypes, beginning with any part of them. -/
theorem settling_aggregate (hz : ∀ n ∈ z, ∀ d, r.find? n = some d → ∀ u ∈ d.supertypes, u ∈ z)
    (hbegins : ∀ n ∈ z, ¬ c₀.Knows n → ∀ d, r.find? n = some d →
      (∀ e, ¬ c₀.Holds (.ofList d.supertypes) e) → ∀ first, begins d.supertypes first) :
    ∀ (levels : Nat) {l : List Name} {st : State Cache}, (settling w r begins c₀).stands st →
      (∀ n ∈ l, n ∈ z) →
      ((∀ e, ¬ c₀.Holds (.ofList l) e) → ∀ first, st.2.largest? l = some first → begins l first) →
    (settling w r begins c₀).Ensures (r.aggregate levels l) st fun e st' =>
      st'.2.Fits w {n | n ∈ l} e ∧ st'.2.Holds (.ofList l) e := by
  intro levels
  induction levels with
  | zero =>
    intro l st hst hlz hl
    exact settling_aggregateWith hst hlz hl fun n _ st' hst' _ => ensures_throw hst'.1.failed
  | succ levels ih =>
    intro l st hst hlz hl
    refine settling_aggregateWith hst hlz hl (settling_buildDeclared fun n hn hnew d st' hst' hd => ?_)
    have hagg := ih hst' (hz n hn d hd) fun hmiss first _ => hbegins n hn hnew d hd hmiss first
    exact hagg.mono fun e st'' h => h.1

end Build

end ContentTypes
