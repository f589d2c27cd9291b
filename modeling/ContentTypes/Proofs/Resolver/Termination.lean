import ContentTypes.Proofs.Key.Order
import ContentTypes.Proofs.Resolver.Limited
import ContentTypes.Proofs.Resolver.Runs

/-! # Requests terminate

Whatever the declarations are, a request passes none of its limits. The recursions are ended by the guard: a
visit that lies within `maxSupertypeDepth` others is refused, so none is nested deeper. The loop over cached
subsets makes progress because no cached key is empty, and that is kept up by building itself: a type that is
made of declarations has merged types, which are what it is cached under (`Cache.Sturdy`).

There is one lemma for each part (`completes_chainHeight`, `completes_mergeSubsets`, `completes_aggregate`),
and from them the whole request (`Limited.resolve_eq`). A resolver comes to sturdy caches only
(`Resolver.resolve_terminates`). -/

namespace ContentTypes

open Registry Visit VisitGuard EffectiveType Contract Upkeep

/-! ### Checking inheritance -/

namespace Registry

variable {st : State Heights}

theorem completes_supertypeHeight {r : Registry} {n : Name}
    {measure : Name → Limited Heights Nat} {measure' : Name → Visit Heights Nat}
    (h : ∀ u st', st.1.Level st'.1 → free.Completes (measure u) (measure' u) st' fun _ _ => True) :
    free.Completes (Limited.supertypeHeight r measure n) (r.supertypeHeight measure' n) st
      fun _ _ => True := by
  unfold Limited.supertypeHeight supertypeHeight
  cases r.find? n with
  | none => exact completes_throw
  | some d =>
    refine Completes.foldlM (fun _ _ => True) (fun u _ height st' _ hl _ => ?_) trivial trivial
    exact free_bind (h u st' hl.1) fun k st'' => completes_pure trivial trivial

/-- No visit of the check is nested deeper than the guard allows. -/
theorem completes_chainHeight (r : Registry) (requested : Name) : ∀ (nested : Nat) {n : Name}
    {st : State Heights}, st.1.maxDepth ≤ nested + st.1.depth →
    free.Completes (Limited.chainHeight r requested nested n)
      (r.chainHeight requested (nested + 1) n) st fun _ _ => True := by
  intro nested
  induction nested with
  | zero =>
    intro n st hdepth
    unfold Limited.chainHeight chainHeight
    refine completes_find fun found _ => ?_
    cases found with
    | some height => exact completes_pure trivial trivial
    | none =>
      refine free_bind (Completes.within trivial fun g hg => ?_) fun height st' => free_change _
      -- the guard admits nothing here
      obtain ⟨-, -, hroom, -⟩ := enter_entered hg
      omega
  | succ nested ih =>
    intro n st hdepth
    unfold Limited.chainHeight chainHeight
    refine completes_find fun found _ => ?_
    cases found with
    | some height => exact completes_pure trivial trivial
    | none =>
      refine free_bind (Completes.within trivial fun g hg => ?_) fun height st' => free_change _
      obtain ⟨rfl, -⟩ := enter_entered hg
      refine completes_supertypeHeight fun u st' hl => ih ?_
      rw [hl.maxDepth, hl.depth]
      simp only [during]
      omega

theorem completes_checkChain (r : Registry) (n : Name) (hl : VisitGuard.supertypes.Level st.1) :
    free.Completes (Limited.checkChain r n) (r.checkChain n) st fun _ _ => True := by
  have hdepth : st.1.maxDepth ≤ maxSupertypeDepth + st.1.depth := by
    rw [hl.maxDepth]
    exact Nat.le_add_right _ _
  unfold Limited.checkChain checkChain
  refine free_bind (completes_chainHeight r n _ hdepth) fun height st' => ?_
  split
  · exact completes_throw
  · exact completes_pure trivial trivial

end Registry

namespace Limited

theorem checkInheritance_eq (r : Registry) (names : List Name) :
    checkInheritance r names = some (r.checkInheritance names) := by
  have h : free.Completes ((NameSet.ofList names).toList.forM (checkChain r))
      ((NameSet.ofList names).toList.forM r.checkChain) (.supertypes, {}) fun _ _ => True :=
    .forM (fun n _ st _ hl => completes_checkChain r n hl.1) trivial
  unfold checkInheritance
  rw [h.start]
  rfl

theorem checkRequest_eq (r : Registry) (names : List Name) :
    checkRequest r names = some (r.checkRequest names) := by
  unfold checkRequest Registry.checkRequest
  cases names.find? (!r.contains ·) with
  | some unknown => rfl
  | none => exact checkInheritance_eq r names

end Limited

/-! ### Building -/

namespace Build

variable {r : Registry} {st : State Cache} {g : VisitGuard Name} {names : List Name} {n : Name}
  {key remaining : Key} {type e o : EffectiveType} {result : Option EffectiveType}

/-- Building keeps the cache sturdy, and the numbers of names. -/
def steady : Upkeep Cache :=
  ⟨Cache.Sturdy, fun c c' => c.numbering.Grows c'.numbering, fun _ => .refl _, fun h h' => h.trans h'⟩

theorem steady_keyFor (hst : st.2.Sturdy) (names : List Name) :
    steady.Ensures (keyFor names) st fun key c =>
      key.Numbered c.numbering ∧ key.names = .ofList names :=
  ensures_change (hst.keyFor names) ⟨.refl _, Cache.keyFor_grows hst.keyed names⟩
    ⟨Cache.keyFor_numbered hst.keyed names, rfl⟩

theorem steady_put (hst : st.2.Sturdy) (hk : key.Numbered st.2.numbering) (hne : ∃ n, n ∈ key.names)
    (ht : Built type) : steady.Ensures (put key type) st fun _ _ => True :=
  ensures_change (hst.put hk hne ht) ⟨.refl _, .refl _⟩ trivial

theorem steady_putMerged (hst : st.2.Sturdy) (ht : Built type) :
    steady.Ensures (putMerged type) st fun _ _ => True := by
  rw [putMerged_eq]
  refine (steady_keyFor hst _).bind fun key st' hst' _ hkey => ?_
  obtain ⟨hnum, hnames⟩ := hkey
  refine steady_put hst' hnum ?_ ht
  rw [hnames, Cache.ofList_toList]
  exact ht.wellFormed.merged

theorem steady_merged (hst : st.2.Sturdy) (he : Built e) (ho : Built o) (kind : MergeKind) :
    steady.Ensures (merged e o kind) st fun m _ => Built m := by
  unfold merged
  cases h : e.merge o kind with
  | ok m => exact ensures_pure hst (he.merge ho h)
  | error c => exact ensures_throw trivial

theorem steady_mergeNext (hst : st.2.Sturdy) (hres : ∀ e ∈ result, Built e) (ht : Built type) :
    steady.Ensures (mergeNext result type) st fun m _ => Built m := by
  cases result with
  | none => exact ensures_pure hst ht
  | some e =>
    refine (steady_merged hst (hres e rfl) ht .aggregate).bind fun m st' hst' _ hm => ?_
    exact (steady_putMerged hst' hm).bind fun _ st'' hst'' _ _ => ensures_pure hst'' hm

/-- **Every round that takes a cached subset takes a name off**, so there are rounds enough. -/
theorem completes_mergeSubsets : ∀ (rounds : Nat) {steps : Nat} {remaining : Key}
    {result : Option EffectiveType} {st : State Cache}, st.2.Sturdy → remaining.Numbered st.2.numbering →
      (∀ e ∈ result, Built e) → remaining.size ≤ steps → remaining.names.size < rounds →
    steady.Completes (Limited.mergeSubsets rounds remaining result) (mergeSubsets steps remaining result) st
      fun out _ => ∀ e ∈ out.2, Built e := by
  intro rounds
  induction rounds with
  | zero => exact fun _ _ _ _ hrounds => absurd hrounds (Nat.not_lt_zero _)
  | succ rounds ih =>
    intro steps remaining result st hst hk hres hsteps hrounds
    unfold Limited.mergeSubsets
    by_cases hempty : remaining.isEmpty = true
    · have hend : mergeSubsets steps remaining result = pure (remaining, result) := by
        cases steps <;> simp [mergeSubsets, hempty]
      rw [hend, if_pos hempty]
      exact completes_pure hst hres
    · obtain ⟨steps, rfl⟩ : ∃ k, steps = k + 1 := by
        refine Nat.exists_eq_succ_of_ne_zero fun hzero => hempty ?_
        rw [Key.isEmpty, beq_iff_eq]
        omega
      unfold mergeSubsets
      rw [if_neg hempty, if_neg hempty]
      refine completes_find fun found hfound => ?_
      cases found with
      | none => exact completes_pure hst hres
      | some found =>
        obtain ⟨best, type⟩ := found
        obtain ⟨hnum, hsub, hholds⟩ := Cache.holds_of_largest hst.keyed hk hfound
        -- a cached key is not empty, and what it has is among what remains
        obtain ⟨n, hn⟩ := hst.nonempty hholds
        have hless : (remaining.subtract best).names.size < remaining.names.size :=
          NameSet.size_diff_lt (hsub n hn) hn
        have hrest := hk.subtract hst.keyed.valid hnum
        have hsmaller : (remaining.subtract best).size < remaining.size :=
          Key.size_subtract_lt hst.keyed.valid hk hnum (hsub n hn) hn
        dsimp only
        rw [if_neg (Nat.not_le.2 hless)]
        refine (completes_lift (steady_mergeNext hst hres (hst.built hholds))).bind
          fun m st' hst' hl hm => ?_
        refine ih hst' (hrest.mono hl.2) ?_ (by omega) (by omega)
        rintro e ⟨⟩
        exact hm

/-- Building a name from the place of the walk where `g` stands, with limits and without. -/
def Builds (g : VisitGuard Name) (build : Name → Limited Cache EffectiveType)
    (build' : Name → Build EffectiveType) : Prop :=
  ∀ n st, st.2.Sturdy → g.Level st.1 → steady.Completes (build n) (build' n) st fun e _ => Built e

section Parts

variable {build : Name → Limited Cache EffectiveType} {build' : Name → Build EffectiveType}

theorem completes_single (hst : st.2.Sturdy) (hl : g.Level st.1) (hbuild : Builds g build build') (n : Name) :
    steady.Completes (Limited.single build n) (single build' n) st fun e _ => Built e := by
  unfold Limited.single single
  refine (completes_lift (steady_keyFor hst [n])).bind fun key st' hst' hl' hkey => ?_
  refine completes_find fun found hfound => ?_
  cases found with
  | some type => exact completes_pure hst' (hst'.built (Cache.holds_of_get? hst'.keyed hkey.1 hfound))
  | none => exact hbuild n st' hst' (hl.trans hl'.1)

theorem completes_mergeSingles (hst : st.2.Sturdy) (hl : g.Level st.1) (hbuild : Builds g build build')
    (names : List Name) (hres : ∀ e ∈ result, Built e) :
    steady.Completes (Limited.mergeSingles build names result) (mergeSingles build' names result) st
      fun out _ => ∀ e ∈ out, Built e := by
  unfold Limited.mergeSingles mergeSingles
  refine Completes.foldlM (fun out _ => ∀ e ∈ out, Built e) (fun n _ result st' hst' hl' hres => ?_) hst hres
  refine (completes_single hst' (hl.trans hl'.1) hbuild n).bind fun type st'' hst'' _ ht => ?_
  refine (completes_lift (steady_mergeNext hst'' hres ht)).bind fun m st3 hst3 _ hm => ?_
  refine completes_pure hst3 ?_
  rintro e ⟨⟩
  exact hm

theorem completes_aggregateWith (hst : st.2.Sturdy) (hne : names ≠ []) (hbuild : Builds st.1 build build') :
    steady.Completes (Limited.aggregateWith build names) (aggregateWith build' names) st
      fun e _ => Built e := by
  unfold Limited.aggregateWith aggregateWith
  refine (completes_lift (steady_keyFor hst names)).bind fun key st₁ hst₁ hl₁ hkey => ?_
  obtain ⟨hnum, hnames⟩ := hkey
  refine completes_find fun found hfound => ?_
  cases found with
  | some type => exact completes_pure hst₁ (hst₁.built (Cache.holds_of_get? hst₁.keyed hnum hfound))
  | none =>
    have hrounds : key.names.size < (NameSet.ofList names).size + 1 := by
      rw [hnames]
      exact Nat.lt_succ_self _
    refine (completes_mergeSubsets _ hst₁ hnum (by simp) (le_refl key.size) hrounds).bind
      fun out st₂ hst₂ hl₂ hres => ?_
    obtain ⟨remaining, result⟩ := out
    refine (completes_mergeSingles hst₂ (hl₁.1.trans hl₂.1) hbuild remaining.names.toList hres).bind
      fun out st₃ hst₃ hl₃ hout => ?_
    cases out with
    | none => exact completes_throw
    | some type =>
      have ht := hout type rfl
      have hkeyne : ∃ n, n ∈ key.names := by
        obtain ⟨n, hn⟩ := List.exists_mem_of_ne_nil names hne
        exact ⟨n, by rw [hnames]; exact NameSet.mem_ofList.2 hn⟩
      have hnum₃ := hnum.mono (hl₂.2.trans hl₃.2)
      refine (completes_lift (steady_put hst₃ hnum₃ hkeyne ht)).bind fun _ st₄ hst₄ _ _ => ?_
      exact (completes_lift (steady_putMerged hst₄ ht)).bind fun _ st₅ hst₅ _ _ => completes_pure hst₅ ht

end Parts

theorem completes_declaredType {aggregate : List Name → Limited Cache EffectiveType}
    {aggregate' : List Name → Build EffectiveType} (hst : st.2.Sturdy)
    (hagg : ∀ names, names ≠ [] →
      steady.Completes (aggregate names) (aggregate' names) st fun e _ => Built e) :
    steady.Completes (Limited.declaredType r aggregate n) (r.declaredType aggregate' n) st
      fun e _ => Built e := by
  have hkeep : ∀ type st, st.2.Sturdy → Built type →
      steady.Completes (Limited.lift (putMerged type) >>= fun _ => pure type)
        (putMerged type >>= fun _ => pure type) st fun e _ => Built e := fun type st hst ht =>
    (completes_lift (steady_putMerged hst ht)).bind fun _ st' hst' _ _ => completes_pure hst' ht
  unfold Limited.declaredType declaredType
  cases r.find? n with
  | none => exact completes_throw
  | some d =>
    dsimp only
    cases hown : ofDeclaration d with
    | error x => exact completes_throw
    | ok own =>
      have hbuilt := Built.ofDeclaration hown
      dsimp only
      split
      · exact hkeep own st hst hbuilt
      · next hne =>
        refine (hagg d.supertypes (by simpa using hne)).bind fun o st' hst' _ ho => ?_
        refine (completes_lift (steady_merged hst' hbuilt ho .supertype)).bind fun m st'' hst'' _ hm => ?_
        exact hkeep m st'' hst'' hm

/-- No declaration is built nested deeper than the guard allows. -/
theorem completes_aggregate (r : Registry) : ∀ (nested : Nat) {names : List Name} {st : State Cache},
    st.2.Sturdy → names ≠ [] → st.1.maxDepth ≤ nested + st.1.depth →
    steady.Completes (Limited.aggregate r nested names) (r.aggregate (nested + 1) names) st
      fun e _ => Built e := by
  intro nested
  induction nested with
  | zero =>
    intro names st hst hne hdepth
    refine completes_aggregateWith hst hne fun n st' hst' hl => Completes.within hst' fun g hg => ?_
    -- the guard admits nothing here
    obtain ⟨-, -, hroom, -⟩ := enter_entered hg
    rw [hl.maxDepth, hl.depth] at hroom
    omega
  | succ nested ih =>
    intro names st hst hne hdepth
    refine completes_aggregateWith hst hne fun n st' hst' hl => Completes.within hst' fun g hg => ?_
    obtain ⟨rfl, -⟩ := enter_entered hg
    refine completes_declaredType hst' fun names hne => ih hst' hne ?_
    simp only [during, hl.maxDepth, hl.depth]
    omega

end Build

/-! ### Requests -/

namespace Limited

variable {c : Cache} {names : List Name}

theorem build_eq (hc : c.Sturdy) (r : Registry) (hne : names ≠ []) :
    build c r names = some (c.build r names) := by
  have h : Build.steady.Completes (aggregate r maxSupertypeDepth names)
      (r.aggregate (maxSupertypeDepth + 1) names) (.supertypes, c) fun e _ => Built e :=
    Build.completes_aggregate r maxSupertypeDepth hc hne (le_refl maxSupertypeDepth)
  exact h.start

/-- **A request over a sturdy cache passes no limit.** -/
theorem resolve_eq (hc : c.Sturdy) (r : Registry) (names : List Name) :
    resolve c r names = some (c.resolve r names) := by
  unfold resolve Cache.resolve
  cases hnames : checkNames names with
  | error x => rfl
  | ok u =>
    have hne := (checkNames_ok_iff.1 hnames).1
    dsimp only
    rw [checkRequest_eq, build_eq (hc.keyFor names) r hne]
    cases (c.keyFor names).2.get? (c.keyFor names).1 with
    | some type => rfl
    | none =>
      cases r.checkRequest names with
      | error x => rfl
      | ok u => rfl

end Limited

namespace Resolver

/-- **Requests terminate.** Over any declarations and after any run no cached key is empty, and a request has
its outcome within the limits: no more than `maxSupertypeDepth` visits of declarations lie within one another,
each loop over cached subsets has at most one round more than there are names, and every round that takes a
cached subset takes a name off. -/
theorem resolve_terminates (r : Registry) (events : List Event) (names : List Name) :
    let s := (fresh r).run events
    (∀ e ∈ s.cache.entries, e.key.isEmpty = false ∧ e.firstKey.isEmpty = false) ∧
      Limited.resolve s.cache s.registry names = some (s.cache.resolve s.registry names) := by
  intro s
  have hs : s.cache.Sturdy := (trusted_run r events).sturdy
  exact ⟨fun e he => hs.isEmpty_key he, Limited.resolve_eq hs s.registry names⟩

end Resolver

end ContentTypes
