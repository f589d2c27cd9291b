import ContentTypes.Proofs.Cache.Trusted
import ContentTypes.Proofs.Effective.Conflicts
import ContentTypes.Proofs.Resolver.Room
import ContentTypes.Resolver.Build

/-! # What building gives

Building the effective type of a request keeps the cache trusted and gives an answer for the names, or an
error that the declarations give reason to report. The contract `Build.building` states this of the parts of
the building, and there is one lemma for every part. The guard of the building refuses nothing, for the
inheritance of the request is sound and no declaration is visited twice.

The induction is on the levels of the recursion: `ensures_aggregateWith` and `ensures_buildDeclared` each
take what the other gives one level below, and `ensures_aggregate` ties the two. -/

namespace ContentTypes

open Registry Visit VisitGuard EffectiveType Contract

namespace Build

variable {α : Type} {r : Registry} {pending s s' done all : Set Name} {st st' st'' : State Cache}
  {n : Name} {d : Declaration} {names : List Name} {key remaining : Key} {type e o : EffectiveType}
  {result : Option EffectiveType} {kind : MergeKind} {x : Error}

/-! ### Where building stands -/

/-- Where building for the request `s` stands: a trusted cache, and every visit of a declaration
counted, the visits that have ended by what they have cached. -/
structure Standing (r : Registry) (pending s : Set Name) (st : State Cache) : Prop where
  maxVisits : st.1.maxVisits = maxSupertypeVisits
  trusted : st.2.Trusted r pending
  counted : ∃ V, Counted V (r.closure s) (fun n => ∃ e, st.2.Holds (.singleton n) e) st.1

/-- A later state at the same place of the walk: numbers are kept, and no set of names that something is
cached under is dropped. -/
structure Later (st st' : State Cache) : Prop where
  level : st.1.Level st'.1
  grows : st.2.numbering.Grows st'.2.numbering
  held : ∀ names, (∃ e, st.2.Holds names e) → ∃ e, st'.2.Holds names e

theorem Later.refl (st : State Cache) : Later st st := ⟨.refl _, .refl _, fun _ h => h⟩

theorem Later.trans (h : Later st st') (h' : Later st' st'') : Later st st'' :=
  ⟨h.level.trans h'.level, h.grows.trans h'.grows, fun names hn => h'.held names (h.held names hn)⟩

/-- A change of the cache alone. -/
theorem Standing.change {c : Cache} (hst : Standing r pending s st) (hc : c.Trusted r pending)
    (hl : Later st (st.1, c)) : Standing r pending s (st.1, c) := by
  obtain ⟨V, hV⟩ := hst.counted
  exact ⟨hst.maxVisits, hc, V, hV.mono fun v hv => hl.held _ hv⟩

/-- An error of building, which the declarations give reason to report if nothing is pending. -/
def Refused (r : Registry) (pending s : Set Name) (x : Error) : Prop :=
  x.OfBuilding ∧ ((∀ t, t ∉ pending) → r.Reports s x)

/-- **The contract of the building**: the cache stays trusted, and an error is one that may be reported. -/
def building (r : Registry) (pending s : Set Name) : Contract Cache where
  stands := Standing r pending s
  later := Later
  failed x st := st.2.Trusted r pending ∧ Refused r pending s x
  refl := Later.refl
  trans := Later.trans

/-- What a part of the building for the request `s` ensures. -/
abbrev Ensures (r : Registry) (pending s : Set Name) (v : Build α) (st : State Cache)
    (ok : α → State Cache → Prop) : Prop :=
  (building r pending s).Ensures v st ok

/-- A change of the cache that keeps it trusted. -/
theorem ensures_keep {f : Cache → α × Cache} {ok : α → State Cache → Prop}
    (hst : Standing r pending s st) (hc : (f st.2).2.Trusted r pending)
    (hg : st.2.numbering.Grows (f st.2).2.numbering)
    (hh : ∀ names, (∃ e, st.2.Holds names e) → ∃ e, (f st.2).2.Holds names e)
    (h : ok (f st.2).1 (st.1, (f st.2).2)) : Ensures r pending s (Visit.change f) st ok := by
  have hl : Later st (st.1, (f st.2).2) := ⟨.refl _, hg, hh⟩
  exact ensures_change (hst.change hc hl) hl h

/-! ### Operations on the cache -/

theorem ensures_keyFor (hst : Standing r pending s st) (names : List Name) :
    Ensures r pending s (keyFor names) st fun key st' =>
      key.Numbered st'.2.numbering ∧ key.names = .ofList names :=
  ensures_keep hst (hst.trusted.keyFor names) (Cache.keyFor_grows hst.trusted.keyed names)
    (fun _ h => h) ⟨Cache.keyFor_numbered hst.trusted.keyed names, rfl⟩

theorem ensures_put (hst : Standing r pending s st) (hk : key.Numbered st.2.numbering)
    (hne : ∃ n, n ∈ key.names) (ht : r.Answers pending {n | n ∈ key.names} type) :
    Ensures r pending s (put key type) st fun _ _ => True :=
  ensures_keep hst (hst.trusted.put hk hne ht) (.refl _)
    (fun _ h => Cache.exists_holds_put hst.trusted.keyed hk h) trivial

/-- Caching a type under its merged types: the key is numbered first. -/
theorem putMerged_eq (type : EffectiveType) : putMerged type =
    (keyFor type.mergedTypes.toList >>= fun key => put key type) := rfl

theorem ensures_putMerged (hst : Standing r pending s st) (ht : r.Answers pending s' type) :
    Ensures r pending s (putMerged type) st fun _ st' => ∃ e, st'.2.Holds type.mergedTypes e := by
  have hkeyed := hst.trusted.keyed
  refine ensures_keep hst (hst.trusted.putMerged ht) (Cache.keyFor_grows hkeyed _)
    (fun _ h => ?_) ⟨type, ?_⟩
  · exact Cache.exists_holds_put (Cache.keyFor_keyed hkeyed _) (Cache.keyFor_numbered hkeyed _) h
  · have := Cache.holds_put_self (st.2.keyFor type.mergedTypes.toList).2
      (st.2.keyFor type.mergedTypes.toList).1 type
    rwa [Cache.names_keyFor_mergedTypes] at this

/-! ### Merging -/

theorem ensures_merged (kind : MergeKind) (hst : Standing r pending s st)
    (herr : (∀ t, t ∉ pending) → ∀ c, e.merge o kind = .error c → r.Reports s (.conflict c)) :
    Ensures r pending s (merged e o kind) st fun m _ => e.merge o kind = .ok m := by
  unfold merged
  cases h : e.merge o kind with
  | ok m => exact ensures_pure hst rfl
  | error c => exact ensures_throw ⟨hst.trusted, Or.inl ⟨c, rfl⟩, fun hp => herr hp c h⟩

/-- The result so far is right for the names done; there is none as long as nothing is done. -/
def SoFar (right : Set Name → EffectiveType → Prop) (done : Set Name) : Option EffectiveType → Prop
  | none => done = ∅
  | some e => right done e

theorem ensures_mergeNext (hs : r.Sound s) (hst : Standing r pending s st)
    (hsub : done ∪ s' ⊆ r.closure s) (hres : SoFar (r.Answers pending) done result)
    (ht : r.Answers pending s' type) :
    Ensures r pending s (mergeNext result type) st fun m _ => r.Answers pending (done ∪ s') m := by
  cases result with
  | none =>
    refine ensures_pure hst ?_
    rw [show done = ∅ from hres, Set.empty_union]
    exact ht
  | some e =>
    have hres : r.Answers pending done e := hres
    have hdone : done ⊆ r.closure s := fun n hn => hsub (Or.inl hn)
    have hs' : s' ⊆ r.closure s := fun n hn => hsub (Or.inr hn)
    refine (ensures_merged .aggregate hst fun hp c hc => ?_).bind
      fun m st' hst' _ hm => ?_
    · exact reports_of_aggregate hres.built.wellFormed ht.built.wellFormed
        (hres.yields fun t _ => hp t).1 (ht.yields fun t _ => hp t).1 hdone hs' hc
    · have hans := hres.merge ht (hs.mono hsub) hm
      exact (ensures_putMerged hst' hans).bind fun _ st'' hst'' _ _ => ensures_pure hst'' hans

/-! ### Aggregating -/

theorem ensures_mergeSubsets (hs : r.Sound s) (hall : all ⊆ r.closure s) :
    ∀ (rounds : Nat) {remaining : Key} {result : Option EffectiveType} {done : Set Name}
      {st : State Cache}, Standing r pending s st → remaining.Numbered st.2.numbering →
      SoFar (r.Answers pending) done result → done ∪ {n | n ∈ remaining.names} = all →
    Ensures r pending s (mergeSubsets rounds remaining result) st fun out _ =>
      ∃ done, SoFar (r.Answers pending) done out.2 ∧ done ∪ {n | n ∈ out.1.names} = all := by
  intro rounds
  induction rounds with
  | zero => exact fun hst _ hres heq => ensures_pure hst ⟨_, hres, heq⟩
  | succ rounds ih =>
    intro remaining result done st hst hk hres heq
    unfold mergeSubsets
    split
    · exact ensures_pure hst ⟨_, hres, heq⟩
    · refine ensures_read ?_
      split
      · exact ensures_pure hst ⟨_, hres, heq⟩
      · next best type hbest =>
        obtain ⟨hnum, hsub, hholds⟩ := Cache.holds_of_largest hst.trusted.keyed hk hbest
        have hans := hst.trusted.answers hholds
        have hcover : done ∪ {n | n ∈ best.names} ⊆ all := fun n hn => by
          rw [← heq]
          exact hn.imp id (hsub n)
        refine (ensures_mergeNext hs hst (hcover.trans hall) hres hans).bind fun m st' hst' hl hm => ?_
        have hk' := (hk.subtract hst.trusted.keyed.valid hnum).mono hl.grows
        refine ih hst' hk' (show SoFar (r.Answers pending) _ (some m) from hm) ?_
        -- what is taken off is what has been merged in
        rw [← heq]
        ext n
        have := hsub n
        simp only [Set.mem_union, Set.mem_ofPred_eq, Key.names_subtract, NameSet.mem_diff]
        tauto

/-- What building the declaration of a name that is not cached ensures. -/
def BuildsSingle (r : Registry) (pending s : Set Name) (g : VisitGuard Name)
    (build : Name → Build EffectiveType) (n : Name) : Prop :=
  ∀ st, Standing r pending s st → g.Level st.1 → (¬ ∃ e, st.2.Holds (.singleton n) e) →
    Ensures r pending s (build n) st fun e _ => r.Answers pending {n} e

theorem ensures_single {build : Name → Build EffectiveType} {g : VisitGuard Name}
    (hst : Standing r pending s st) (hg : g.Level st.1) (hbuild : BuildsSingle r pending s g build n) :
    Ensures r pending s (single build n) st fun e _ => r.Answers pending {n} e := by
  unfold single
  refine (ensures_keyFor hst [n]).bind fun key st' hst' hl hkey => ?_
  obtain ⟨hnum, hnames⟩ := hkey
  refine ensures_read ?_
  split
  · next e hfound =>
    have hans := hst'.trusted.answers (Cache.holds_of_get? hst'.trusted.keyed hnum hfound)
    have heq : {m | m ∈ key.names} = ({n} : Set Name) := by
      ext m
      simp [hnames]
    rw [heq] at hans
    exact ensures_pure hst' hans
  · next hfound =>
    refine hbuild st' hst' (hg.trans hl.level) ?_
    rintro ⟨e, he⟩
    have hheld : st'.2.Holds key.names e := by
      rw [hnames]
      exact he
    exact Cache.not_holds_of_get? hst'.trusted.keyed hnum hfound hheld

theorem ensures_mergeSingles (all : Set Name) {build : Name → Build EffectiveType} {g : VisitGuard Name}
    (hs : r.Sound s) (hst : Standing r pending s st) (hg : g.Level st.1)
    (hbuild : ∀ n ∈ all, BuildsSingle r pending s g build n) (hall : all ⊆ r.closure s)
    (hres : SoFar (r.Answers pending) done result) (hnames : done ∪ {n | n ∈ names} = all) :
    Ensures r pending s (mergeSingles build names result) st fun out _ =>
      SoFar (r.Answers pending) all out := by
  unfold mergeSingles
  refine (Ensures.foldlM (fun rest result _ => ∃ done, SoFar (r.Answers pending) done result ∧
    done ∪ {n | n ∈ rest} = all) ?_ hst ⟨done, hres, hnames⟩).mono ?_
  · rintro n rest result st' hst' hl ⟨done, hres, heq⟩
    have hn : n ∈ all := by
      rw [← heq]
      exact Or.inr List.mem_cons_self
    have hsub : done ∪ {n} ⊆ all := by
      rintro m (hm | rfl)
      · rw [← heq]
        exact Or.inl hm
      · exact hn
    refine (ensures_single hst' (hg.trans hl.level) (hbuild n hn)).bind fun e st'' hst'' _ he => ?_
    refine (ensures_mergeNext hs hst'' (hsub.trans hall) hres he).bind fun m st3 hst3 _ hm => ?_
    refine ensures_pure hst3 ⟨done ∪ {n}, hm, ?_⟩
    rw [← heq]
    ext m
    simp only [Set.mem_union, Set.mem_ofPred_eq, Set.mem_singleton_iff, List.mem_cons]
    tauto
  · rintro out st' ⟨done, hout, heq⟩
    have hdone : done = all := by
      rw [← heq]
      ext m
      simp
    exact hdone ▸ hout

theorem ensures_aggregateWith {build : Name → Build EffectiveType} (hs : r.Sound s)
    (hst : Standing r pending s st) (hne : names ≠ []) (hnames : {n | n ∈ names} ⊆ r.closure s)
    (hbuild : ∀ n ∈ names, BuildsSingle r pending s st.1 build n) :
    Ensures r pending s (aggregateWith build names) st fun e _ =>
      r.Answers pending {n | n ∈ names} e := by
  unfold aggregateWith
  refine (ensures_keyFor hst names).bind fun key st₁ hst₁ hl₁ hkey => ?_
  obtain ⟨hnum, hkeynames⟩ := hkey
  have hset : {n | n ∈ key.names} = {n | n ∈ names} := by
    ext n
    rw [hkeynames]
    exact NameSet.mem_ofList
  refine ensures_read ?_
  split
  · next e hfound =>
    have hans := hst₁.trusted.answers (Cache.holds_of_get? hst₁.trusted.keyed hnum hfound)
    rw [hset] at hans
    exact ensures_pure hst₁ hans
  · -- first the cached subsets are merged, then what none of them covers, name by name
    have hnone : SoFar (r.Answers pending) ∅ none := rfl
    refine (ensures_mergeSubsets hs hnames key.size hst₁ hnum hnone ?_).bind
      fun out st₂ hst₂ hl₂ hout => ?_
    · rw [Set.empty_union, hset]
    obtain ⟨remaining, result⟩ := out
    obtain ⟨done, hres, hcover⟩ := hout
    refine (ensures_mergeSingles {n | n ∈ names} hs hst₂ (hl₁.level.trans hl₂.level) hbuild hnames hres
      hcover).bind fun out st₃ hst₃ hl₃ hout => ?_
    split
    · -- nothing was merged, so nothing was asked for
      obtain ⟨n, hn⟩ := List.exists_mem_of_ne_nil names hne
      have hempty : {n | n ∈ names} = (∅ : Set Name) := hout
      exact absurd (show n ∈ ({n | n ∈ names} : Set Name) from hn) (by rw [hempty]; exact id)
    · next type =>
      have hout : r.Answers pending {n | n ∈ names} type := hout
      have hnum₃ := hnum.mono (hl₂.grows.trans hl₃.grows)
      have hkeyne : ∃ n, n ∈ key.names := by
        obtain ⟨n, hn⟩ := List.exists_mem_of_ne_nil names hne
        exact ⟨n, (Set.ext_iff.1 hset n).2 hn⟩
      have hans : r.Answers pending {n | n ∈ key.names} type := by
        rw [hset]
        exact hout
      refine (ensures_put hst₃ hnum₃ hkeyne hans).bind fun _ st₄ hst₄ _ _ => ?_
      exact (ensures_putMerged hst₄ hout).bind fun _ st₅ hst₅ _ _ => ensures_pure hst₅ hout

/-! ### Declarations -/

/-- What the type of a declaration ensures: an answer for its name, which is cached. -/
theorem ensures_declaredType {aggregate : List Name → Build EffectiveType} (hs : r.Sound s)
    (hst : Standing r pending s st) (hn : n ∈ r.closure s)
    (hagg : ∀ d, r.find? n = some d → d.supertypes ≠ [] →
      Ensures r pending s (aggregate d.supertypes) st fun e _ =>
        r.Answers pending {u | u ∈ d.supertypes} e) :
    Ensures r pending s (r.declaredType aggregate n) st fun e st' =>
      r.Answers pending {n} e ∧ ∃ e, st'.2.Holds (.singleton n) e := by
  have hsn : r.Sound {n} := hs.mono (Set.singleton_subset_iff.2 hn)
  obtain ⟨d, hd⟩ := contains_iff.1 (hs.registered n hn)
  unfold declaredType
  rw [hd]
  dsimp only
  cases hown : ofDeclaration d with
  | error x => exact ensures_throw ⟨hst.trusted, ofDeclaration_error hown, fun _ => .refusal hn hd hown⟩
  | ok own =>
    have hw := wellFormed_ofDeclaration hown
    have hmerged : own.mergedTypes = .singleton n := NameSet.ext_mem fun t => by
      rw [mem_mergedTypes_ofDeclaration hown, name_of_find? hd, NameSet.mem_singleton]
    -- either way the type is cached under the name before it is given
    have hkeep : ∀ e st, Standing r pending s st → r.Answers pending {n} e →
        e.mergedTypes = .singleton n → Ensures r pending s (putMerged e >>= fun _ => pure e) st
          fun e st' => r.Answers pending {n} e ∧ ∃ e, st'.2.Holds (.singleton n) e := by
      intro e st hst hans hmerged
      refine (ensures_putMerged hst hans).bind fun _ st' hst' _ hheld => ensures_pure hst' ?_
      rw [hmerged] at hheld
      exact ⟨hans, hheld⟩
    dsimp only
    split
    · next hnil => exact hkeep own st hst (.root hsn hd (by simpa using hnil) hown) hmerged
    · next hne =>
      have hne : d.supertypes ≠ [] := by simpa using hne
      refine (hagg d hd hne).bind fun o st' hst' _ ho => ?_
      have hwo := ho.built.wellFormed
      refine (ensures_merged .supertype hst' fun hp c hc => ?_).bind fun m st'' hst'' _ hm => ?_
      · exact reports_of_supertype hd hn (hs.acyclic n hn) hown hwo (ho.yields fun t _ => hp t).1 hc
      · refine hkeep m st'' hst'' (.declared hsn hd hne hown ho hm) ?_
        rcases (merges_of_merge hw.toTidy hwo hm).types with ⟨-, rfl⟩ | ⟨-, ht⟩
        · exact hmerged
        · exact ht.1.trans hmerged

/-- A visit of a name that is not cached is admitted and counted. -/
theorem ensures_buildDeclared {aggregate : List Name → Build EffectiveType} (hs : r.Sound s)
    {g : VisitGuard Name} (hready : r.Ready g n) (hn : n ∈ r.closure s)
    (hagg : ∀ d st, Standing r pending s st → (g.during n).Level st.1 → r.find? n = some d →
      d.supertypes ≠ [] → Ensures r pending s (aggregate d.supertypes) st fun e _ =>
        r.Answers pending {u | u ∈ d.supertypes} e) :
    BuildsSingle r pending s g (r.buildDeclared aggregate) n := by
  rintro ⟨g', c⟩ hst hg hnew
  obtain ⟨V, hV⟩ := hst.counted
  obtain ⟨henter, hcounted⟩ := (hready.level hg).admitted hs hn hst.maxVisits hV hnew
  have hst' : Standing r pending s (g'.during n, c) := ⟨hst.maxVisits, hst.trusted, n :: V, hcounted⟩
  unfold buildDeclared
  refine after_within (fun g₁ hg₁ => ?_) fun a g₁ hg₁ ha => ?_
  · rw [henter] at hg₁
    obtain rfl := (Prod.mk.inj hg₁).2
    refine After.mono (ensures_declaredType hs hst' hn fun d hd hne => hagg d _ hst' (hg.during n) hd hne)
      ?_ fun x st' h => h
    rintro e ⟨g₂, c'⟩ ⟨hst₂, hl, hans, hheld⟩
    obtain ⟨W, hW⟩ := hst₂.counted
    exact ⟨⟨hst₂.maxVisits, hst₂.trusted, W, hW.leave hl.level hheld⟩,
      ⟨hl.level.leave, hl.grows, hl.held⟩, hans⟩
  · rw [henter] at hg₁
    exact absurd (Prod.mk.inj hg₁).1.symm ha

/-! ### The recursion -/

/-- A name can be built if its supertypes can be aggregated one level below. -/
theorem buildsSingle_of_aggregate (hs : r.Sound s) {levels : Nat} {g : VisitGuard Name}
    (hagg : ∀ {names : List Name} {st : State Cache}, Standing r pending s st → names ≠ [] →
      (∀ n ∈ names, n ∈ r.closure s ∧ r.Ready st.1 n) → st.1.maxDepth < levels + st.1.depth →
      Ensures r pending s (r.aggregate levels names) st fun e _ => r.Answers pending {n | n ∈ names} e)
    (hn : n ∈ r.closure s) (hready : r.Ready g n) (hlevels : g.maxDepth < levels + 1 + g.depth) :
    BuildsSingle r pending s g (r.buildDeclared (r.aggregate levels)) n := by
  refine ensures_buildDeclared hs hready hn fun d st hst hl hd hne => ?_
  refine hagg hst hne (fun u hu => ?_) ?_
  · have hext : r.Extends n u := ⟨d, hd, hu⟩
    exact ⟨closure_of_extends hn hext, (hready.step hext).level hl⟩
  · rw [hl.maxDepth, hl.depth]
    simp only [during]
    omega

/-- **Aggregating** names of the closure of a sound request. -/
theorem ensures_aggregate (hs : r.Sound s) : ∀ (levels : Nat) {names : List Name} {st : State Cache},
    Standing r pending s st → names ≠ [] → (∀ n ∈ names, n ∈ r.closure s ∧ r.Ready st.1 n) →
      st.1.maxDepth < levels + st.1.depth →
    Ensures r pending s (r.aggregate levels names) st fun e _ =>
      r.Answers pending {n | n ∈ names} e := by
  intro levels
  induction levels with
  | zero =>
    -- a name to build lies less deep than the guard allows, so there is a level left for it
    intro names st hst hne hnames hlevels
    refine ensures_aggregateWith hs hst hne (fun n hn => (hnames n hn).1) fun n hn => ?_
    have := (hnames n hn).2.depth_lt
    omega
  | succ levels ih =>
    intro names st hst hne hnames hlevels
    exact ensures_aggregateWith hs hst hne (fun n hn => (hnames n hn).1) fun n hn =>
      buildsSingle_of_aggregate hs ih (hnames n hn).1 (hnames n hn).2 hlevels

end Build

end ContentTypes
