import ContentTypes.Proofs.Resolver.Failure
import ContentTypes.Proofs.Resolver.Traced

/-! # The calls of building

Once the inheritance of a request is found sound, the guard of the building admits every name that it is
asked for, and is asked for no name twice; so building fails with no error of inheritance
(`Cache.build_calls`). A request that does fail with such an error has left the cached types as they were
(`Resolver.inheritance_fails_before_building`).

All that is needed of the cache is that its keys are numbered by it. What it holds may be out of date: an
entry can only take the place of calls. The calls so far are of different names, of which each is being
visited or cached (`Build.Recorded`), and a name is only asked for when it is neither. -/

namespace ContentTypes

open Registry Visit VisitGuard EffectiveType Contract

namespace Build

variable {α : Type} {r : Registry} {s : Set Name} {st st' : State Cache} {key remaining : Key}
  {type e o : EffectiveType} {result : Option EffectiveType} {kind : MergeKind}

/-! ### Parts without calls -/

/-- **The contract of the parts without calls**: the guard is left alone, the cache keeps its numbers and all
sets of names that something is cached under, and an error is one of building. -/
def quiet : Contract Cache where
  stands st := st.2.Keyed
  later st st' := st'.1 = st.1 ∧ Later st st'
  failed x _ := x.OfBuilding
  refl st := ⟨rfl, .refl st⟩
  trans h h' := ⟨h'.1.trans h.1, h.2.trans h'.2⟩

theorem quiet_keyFor (hst : st.2.Keyed) (names : List Name) :
    quiet.Ensures (keyFor names) st fun key st' =>
      key.Numbered st'.2.numbering ∧ key.names = .ofList names :=
  ensures_change (Cache.keyFor_keyed hst names) ⟨rfl, .refl _, Cache.keyFor_grows hst names, fun _ h => h⟩
    ⟨Cache.keyFor_numbered hst names, rfl⟩

theorem quiet_put (hst : st.2.Keyed) (hk : key.Numbered st.2.numbering) (type : EffectiveType) :
    quiet.Ensures (put key type) st fun _ st' => st'.2.Holds key.names type :=
  ensures_change (hst.put hk type) ⟨rfl, .refl _, .refl _, fun _ h => Cache.exists_holds_put hst hk h⟩
    (Cache.holds_put_self st.2 key type)

theorem quiet_putMerged (hst : st.2.Keyed) (type : EffectiveType) :
    quiet.Ensures (putMerged type) st fun _ st' => st'.2.Holds type.mergedTypes type := by
  rw [putMerged_eq]
  refine (quiet_keyFor hst _).bind fun key st' hst' _ hkey => ?_
  obtain ⟨hnum, hnames⟩ := hkey
  rw [Cache.ofList_toList] at hnames
  exact (quiet_put hst' hnum type).mono fun _ _ h => by rwa [hnames] at h

theorem quiet_merged (hst : st.2.Keyed) (e o : EffectiveType) (kind : MergeKind) :
    quiet.Ensures (merged e o kind) st fun m _ => e.merge o kind = .ok m := by
  unfold merged
  cases h : e.merge o kind with
  | ok m => exact ensures_pure hst rfl
  | error c => exact ensures_throw (Or.inl ⟨c, rfl⟩)

theorem quiet_mergeNext (hst : st.2.Keyed) (result : Option EffectiveType) (type : EffectiveType) :
    quiet.Ensures (mergeNext result type) st fun _ _ => True := by
  cases result with
  | none => exact ensures_pure hst trivial
  | some e =>
    refine (quiet_merged hst e type .aggregate).bind fun m st' hst' _ _ => ?_
    exact (quiet_putMerged hst' m).bind fun _ st'' hst'' _ _ => ensures_pure hst'' trivial

theorem quiet_mergeSubsets : ∀ (rounds : Nat) {remaining : Key} {result : Option EffectiveType}
    {st : State Cache}, st.2.Keyed →
    quiet.Ensures (mergeSubsets rounds remaining result) st fun out _ =>
      ∀ n ∈ out.1.names, n ∈ remaining.names := by
  intro rounds
  induction rounds with
  | zero => exact fun hst => ensures_pure hst fun _ h => h
  | succ rounds ih =>
    intro remaining result st hst
    unfold mergeSubsets
    split
    · exact ensures_pure hst fun _ h => h
    · refine ensures_read ?_
      split
      · exact ensures_pure hst fun _ h => h
      · next best type hbest =>
        refine (quiet_mergeNext hst result type).bind fun m st' hst' _ _ => ?_
        refine (ih hst').mono fun out _ hout n hn => ?_
        have hrest := hout n hn
        rw [Key.names_subtract, NameSet.mem_diff] at hrest
        exact hrest.1

/-! ### Where building stands -/

/-- Calls made on behalf of the request `s`: each of another name above it, and every one answered by
admission. -/
structure Admitted (r : Registry) (s : Set Name) (calls : List Call) : Prop where
  nodup : (calls.map (·.name)).Nodup
  entered : ∀ call ∈ calls, call.answer = .entered
  mem : ∀ call ∈ calls, call.name ∈ r.closure s

/-- Where building with calls stands: the visits counted are the calls, and those that have ended have cached
their types. -/
structure Recorded (r : Registry) (s : Set Name) (st : State (Cache × List Call)) : Prop where
  maxVisits : st.1.maxVisits = maxSupertypeVisits
  keyed : st.2.1.Keyed
  counted : Counted (st.2.2.map (·.name)) (r.closure s) (fun n => ∃ e, st.2.1.Holds (.singleton n) e) st.1
  entered : ∀ call ∈ st.2.2, call.answer = .entered

theorem Recorded.admitted {st : State (Cache × List Call)} (h : Recorded r s st) : Admitted r s st.2.2 where
  nodup := h.counted.nodup
  entered := h.entered
  mem _ hcall := h.counted.mem _ (List.mem_map_of_mem hcall)

/-- **The contract of building with calls**: every call is new and is admitted, and an error is one of
building. -/
def recording (r : Registry) (s : Set Name) : Contract (Cache × List Call) where
  stands := Recorded r s
  later st st' := Later (st.1, st.2.1) (st'.1, st'.2.1)
  failed x st := Admitted r s st.2.2 ∧ x.OfBuilding
  refl _ := .refl _
  trans h h' := h.trans h'

end Build

namespace Traced

open Build

variable {α : Type} {r : Registry} {s : Set Name} {st : State (Cache × List Call)} {g : VisitGuard Name}
  {n : Name} {names : List Name} {result : Option EffectiveType}
  {build : Name → Traced Cache EffectiveType}

/-- A part without calls does its work in the same way when calls are put down. -/
theorem ensures_lift {v : Build α} {ok : α → State Cache → Prop} (hst : Recorded r s st)
    (hv : quiet.Ensures v (st.1, st.2.1) ok) :
    (recording r s).Ensures (lift v) st fun a st' => ok a (st'.1, st'.2.1) := by
  obtain ⟨guard, c, calls⟩ := st
  have hrun : (lift v).run (guard, c, calls) =
      ((v.run (guard, c)).1, (v.run (guard, c)).2.1, (v.run (guard, c)).2.2, calls) := rfl
  unfold Contract.Ensures After at hv ⊢
  rw [hrun]
  cases hout : v.run (guard, c) with
  | mk outcome st' =>
    rw [hout] at hv
    cases outcome with
    | error x => exact ⟨hst.admitted, hv⟩
    | ok a =>
      obtain ⟨hkeyed, ⟨hguard, hlater⟩, ha⟩ := hv
      obtain ⟨guard', c'⟩ := st'
      obtain rfl : guard' = guard := hguard
      exact ⟨⟨hst.maxVisits, hkeyed, hst.counted.mono fun n hn => hlater.held _ hn, hst.entered⟩, hlater, ha⟩

theorem ensures_throw_building {ok : α → State (Cache × List Call) → Prop} (hst : Recorded r s st) {x : Error}
    (hx : x.OfBuilding) : (recording r s).Ensures (throw x) st ok :=
  ensures_throw ⟨hst.admitted, hx⟩

/-- What is found of the cache is there to go on with. -/
theorem ensures_find {β : Type} {f : Cache → α} {k : α → Traced Cache β}
    {ok : β → State (Cache × List Call) → Prop} (h : (recording r s).Ensures (k (f st.2.1)) st ok) :
    (recording r s).Ensures (lift (Visit.read f) >>= k) st ok :=
  ensures_read (f := fun p : Cache × List Call => f p.1) h

/-! ### Aggregating -/

/-- Building the declaration of a name, at the place of the walk where `g` stands. -/
def Builds (r : Registry) (s : Set Name) (g : VisitGuard Name) (build : Name → Traced Cache EffectiveType)
    (n : Name) : Prop :=
  ∀ st, Recorded r s st → g.Level st.1 → (¬ ∃ e, st.2.1.Holds (.singleton n) e) →
    (recording r s).Ensures (build n) st fun _ _ => True

theorem ensures_single (hst : Recorded r s st) (hg : g.Level st.1) (hbuild : Builds r s g build n) :
    (recording r s).Ensures (single build n) st fun _ _ => True := by
  unfold single
  refine (ensures_lift hst (quiet_keyFor hst.keyed [n])).bind fun key st' hst' hl hkey => ?_
  obtain ⟨hnum, hnames⟩ := hkey
  refine ensures_find ?_
  split
  · exact ensures_pure hst' trivial
  · next hfound =>
    refine hbuild st' hst' (hg.trans hl.level) ?_
    rintro ⟨e, he⟩
    have hheld : st'.2.1.Holds key.names e := by
      rw [hnames]
      exact he
    exact Cache.not_holds_of_get? hst'.keyed hnum hfound hheld

theorem ensures_mergeSingles (hst : Recorded r s st) (hg : g.Level st.1)
    (hbuild : ∀ n ∈ names, Builds r s g build n) :
    (recording r s).Ensures (mergeSingles build names result) st fun _ _ => True := by
  unfold mergeSingles
  refine (Ensures.foldlM (fun rest _ _ => ∀ n ∈ rest, n ∈ names) ?_ hst fun _ h => h).mono
    fun _ _ _ => trivial
  intro n rest result st' hst' hl hrest
  have hn : n ∈ names := hrest n List.mem_cons_self
  refine (ensures_single hst' (hg.trans hl.level) (hbuild n hn)).bind fun type st'' hst'' _ _ => ?_
  refine (ensures_lift hst'' (quiet_mergeNext hst''.keyed result type)).bind fun m st3 hst3 _ _ => ?_
  exact ensures_pure hst3 fun m hm => hrest m (List.mem_cons_of_mem n hm)

theorem ensures_aggregateWith (hst : Recorded r s st) (hbuild : ∀ n ∈ names, Builds r s st.1 build n) :
    (recording r s).Ensures (aggregateWith build names) st fun _ _ => True := by
  unfold aggregateWith
  refine (ensures_lift hst (quiet_keyFor hst.keyed names)).bind fun key st₁ hst₁ hl₁ hkey => ?_
  obtain ⟨hnum, hnames⟩ := hkey
  refine ensures_find ?_
  split
  · exact ensures_pure hst₁ trivial
  · refine (ensures_lift hst₁ (quiet_mergeSubsets key.size hst₁.keyed)).bind fun out st₂ hst₂ hl₂ hout => ?_
    obtain ⟨remaining, result⟩ := out
    have hremaining : ∀ n ∈ remaining.names.toList, n ∈ names := fun n hn => by
      have hkey := hout n hn
      rwa [hnames, NameSet.mem_ofList] at hkey
    refine (ensures_mergeSingles hst₂ (hl₁.level.trans hl₂.level) fun n hn =>
      hbuild n (hremaining n hn)).bind fun out st₃ hst₃ hl₃ _ => ?_
    split
    · exact ensures_throw_building hst₃ (Or.inr ⟨_, rfl⟩)
    · next type =>
      have hnum₃ := hnum.mono (hl₂.grows.trans hl₃.grows)
      refine (ensures_lift hst₃ (quiet_put hst₃.keyed hnum₃ type)).bind fun _ st₄ hst₄ _ _ => ?_
      refine (ensures_lift hst₄ (quiet_putMerged hst₄.keyed type)).bind fun _ st₅ hst₅ _ _ => ?_
      exact ensures_pure hst₅ trivial

/-! ### Declarations -/

/-- The type of a declaration gets cached under its name. -/
theorem ensures_declaredType {aggregate : List Name → Traced Cache EffectiveType} (hs : r.Sound s)
    (hst : Recorded r s st) (hn : n ∈ r.closure s)
    (hagg : ∀ d, r.find? n = some d →
      (recording r s).Ensures (aggregate d.supertypes) st fun _ _ => True) :
    (recording r s).Ensures (declaredType r aggregate n) st fun _ st' =>
      ∃ e, st'.2.1.Holds (.singleton n) e := by
  obtain ⟨d, hd⟩ := contains_iff.1 (hs.registered n hn)
  unfold declaredType
  rw [hd]
  dsimp only
  cases hown : ofDeclaration d with
  | error x => exact ensures_throw_building hst (ofDeclaration_error hown)
  | ok own =>
    have hmerged : own.mergedTypes = .singleton n := NameSet.ext_mem fun t => by
      rw [mem_mergedTypes_ofDeclaration hown, name_of_find? hd, NameSet.mem_singleton]
    have hkeep : ∀ type st, Recorded r s st → type.mergedTypes = .singleton n →
        (recording r s).Ensures (lift (putMerged type) >>= fun _ => pure type) st
          fun _ st' => ∃ e, st'.2.1.Holds (.singleton n) e := by
      intro type st hst hmerged
      refine (ensures_lift hst (quiet_putMerged hst.keyed type)).bind fun _ st' hst' _ hheld => ?_
      rw [hmerged] at hheld
      exact ensures_pure hst' ⟨type, hheld⟩
    dsimp only
    split
    · exact hkeep own st hst hmerged
    · refine (hagg d hd).bind fun o st' hst' _ _ => ?_
      refine (ensures_lift hst' (quiet_merged hst'.keyed own o .supertype)).bind fun m st'' hst'' _ hm => ?_
      refine hkeep m st'' hst'' ?_
      -- merging in supertypes leaves the merged types as they are
      rcases (merge_ok_iff (wellFormed_ofDeclaration hown).toTidy).1 hm with ⟨-, rfl⟩ | ⟨-, -, rfl⟩
      · exact hmerged
      · simp [joinTypes, hmerged]

theorem after_ask {ok : Unit → State (Cache × List Call) → Prop}
    {err : Error → State (Cache × List Call) → Prop} :
    After (ask n) st ok err ↔ ok () (st.1, st.2.1, ⟨n, (st.1.enter n).1⟩ :: st.2.2) := Iff.rfl

/-- The call for a name that is not cached is new and is admitted. -/
theorem ensures_buildDeclared {aggregate : List Name → Traced Cache EffectiveType} (hs : r.Sound s)
    (hready : r.Ready g n) (hn : n ∈ r.closure s)
    (hagg : ∀ d st, Recorded r s st → (g.during n).Level st.1 → r.find? n = some d →
      (recording r s).Ensures (aggregate d.supertypes) st fun _ _ => True) :
    Builds r s g (buildDeclared r aggregate) n := by
  rintro ⟨g', c, calls⟩ hst hg hnew
  obtain ⟨henter, hcounted⟩ := (hready.level hg).admitted hs hn hst.maxVisits hst.counted hnew
  have hst' : Recorded r s (g'.during n, c, ⟨n, .entered⟩ :: calls) := by
    refine ⟨hst.maxVisits, hst.keyed, hcounted, fun call hcall => ?_⟩
    rcases List.mem_cons.1 hcall with rfl | hcall
    · rfl
    · exact hst.entered call hcall
  unfold buildDeclared within Contract.Ensures
  rw [after_bind, after_ask, henter]
  refine after_within (fun g₁ hg₁ => ?_) fun a g₁ hg₁ ha => ?_
  · rw [henter] at hg₁
    obtain rfl := (Prod.mk.inj hg₁).2
    refine After.mono (ensures_declaredType hs hst' hn fun d hd => hagg d _ hst' (hg.during n) hd) ?_
      fun x st' h => h
    rintro type ⟨g₂, c', calls'⟩ ⟨hst₂, hl, hheld⟩
    exact ⟨⟨hst₂.maxVisits, hst₂.keyed, hst₂.counted.leave hl.level hheld, hst₂.entered⟩,
      ⟨hl.level.leave, hl.grows, hl.held⟩, trivial⟩
  · rw [henter] at hg₁
    exact absurd (Prod.mk.inj hg₁).1.symm ha

/-- **Aggregating** names above a sound request: every call is new and is admitted. -/
theorem ensures_aggregate (hs : r.Sound s) : ∀ (levels : Nat) {names : List Name}
    {st : State (Cache × List Call)}, Recorded r s st → (∀ n ∈ names, n ∈ r.closure s ∧ r.Ready st.1 n) →
      st.1.maxDepth < levels + st.1.depth →
    (recording r s).Ensures (aggregate r levels names) st fun _ _ => True := by
  intro levels
  induction levels with
  | zero =>
    intro names st hst hnames hlevels
    refine ensures_aggregateWith hst fun n hn => ?_
    have hdepth := (hnames n hn).2.depth_lt
    omega
  | succ levels ih =>
    intro names st hst hnames hlevels
    refine ensures_aggregateWith hst fun n hn => ?_
    obtain ⟨hz, hready⟩ := hnames n hn
    refine ensures_buildDeclared hs hready hz fun d st' hst' hl hd => ?_
    refine ih hst' (fun u hu => ?_) ?_
    · have hext : r.Extends n u := ⟨d, hd, hu⟩
      exact ⟨closure_of_extends hz hext, (hready.step hext).level hl⟩
    · rw [hl.maxDepth, hl.depth]
      simp only [during]
      omega

end Traced

/-! ### Requests -/

namespace Cache

variable {c : Cache} {r : Registry} {names : List Name} {x : Error}

/-- **The calls of building** for a request that has passed the check: each is of another registered name and
is admitted. Whatever the cache holds, an error is one of building. -/
theorem build_calls (hc : c.Keyed) (hcheck : r.checkInheritance names = .ok ()) :
    Build.Admitted r {n | n ∈ names} (c.tracedBuild r names).2.2 ∧
      ∀ x, (c.build r names).1 = .error x → x.OfBuilding := by
  have hs := checkInheritance_ok_iff.1 hcheck
  have hstart : Build.Recorded r {n | n ∈ names} (.supertypes, c, []) :=
    ⟨rfl, hc, ⟨List.nodup_nil, rfl, by simp, by simp⟩, by simp⟩
  have hspec := Traced.ensures_aggregate hs (VisitGuard.maxSupertypeDepth + 1) hstart
    (fun n hn => ⟨r.subset_closure _ hn, ready_of_sound hs hn (.refl _)⟩) (Nat.lt_succ_self _)
  obtain ⟨hok, herr⟩ := after_start hspec
  rw [build_eq_traced]
  cases hout : (c.tracedBuild r names).1 with
  | ok type =>
    obtain ⟨g, hst, -⟩ := hok type hout
    exact ⟨hst.admitted, fun x hx => by cases hx⟩
  | error y =>
    obtain ⟨g, hadmitted, hy⟩ := herr y hout
    exact ⟨hadmitted, fun x hx => Except.error.inj hx ▸ hy⟩

/-- A request that fails before building leaves what is cached as it was. -/
theorem entries_resolve (hc : c.Keyed) (hx : x.OfInheritance) (h : (c.resolve r names).1 = .error x) :
    (c.resolve r names).2.entries = c.entries := by
  have hends := c.resolve_ends r names
  generalize c.resolve r names = out at hends h ⊢
  cases hends with
  | unnamed _ => rfl
  | cached _ _ => rfl
  | refused _ _ _ => rfl
  | failed _ _ hcheck hout =>
    have hok := checkInheritance_ok_iff.2 (checkRequest_ok_iff.1 hcheck)
    obtain ⟨-, herr⟩ := build_calls (keyFor_keyed hc names) hok
    obtain rfl := Except.error.inj h
    exact absurd (herr _ hout) hx.not_ofBuilding
  | built _ _ _ _ => cases h

end Cache

namespace Resolver

/-- **Inheritance fails before anything is built.** After any run, with whatever stale entries, a request that
has passed the check of its inheritance is built without an error of inheritance: the guard is asked for
registered names only, for each at most once, and admits them all. So a request that fails with an error of
inheritance leaves all that is cached as it was. -/
theorem inheritance_fails_before_building (r : Registry) (events : List Event) (names : List Name) :
    let s := (fresh r).run events
    let c := (s.cache.keyFor names).2
    let traced := c.tracedBuild s.registry names
    c.build s.registry names = (traced.1, traced.2.1) ∧
      (s.registry.checkInheritance names = .ok () →
        (∀ x, traced.1 = .error x → ¬ x.OfInheritance) ∧ (traced.2.2.map (·.name)).Nodup ∧
          ∀ call ∈ traced.2.2, call.answer = .entered ∧ s.registry.contains call.name = true) ∧
      ∀ x, x.OfInheritance → (s.resolve names).1 = .error x →
        (s.resolve names).2.cache.entries = s.cache.entries := by
  intro s c traced
  have hkeyed : s.cache.Keyed := (trusted_run r events).keyed
  have hbuild : c.build s.registry names = (traced.1, traced.2.1) := c.build_eq_traced s.registry names
  refine ⟨hbuild, fun hcheck => ?_, fun x hx h => ?_⟩
  · obtain ⟨hadmitted, herr⟩ := Cache.build_calls (Cache.keyFor_keyed hkeyed names) hcheck
    have hsound := checkInheritance_ok_iff.1 hcheck
    refine ⟨fun x hx hinh => hinh.not_ofBuilding (herr x ?_), hadmitted.nodup, fun call hcall => ?_⟩
    · rw [hbuild]
      exact hx
    · exact ⟨hadmitted.entered call hcall, hsound.registered _ (hadmitted.mem call hcall)⟩
  · exact Cache.entries_resolve hkeyed hx (resolve_eq_error_iff.1 h)

/-- After pages were cached, their base is replaced, and a note that is a page and a ring that is a ring come
in. -/
def overtaken : List Event :=
  [.resolve ["page", "draft"],
    .register (({ name := "base" } : Declaration).withProperty "headline" .string),
    .register { name := "note", supertypes := ["page"] },
    .register { name := "ring", supertypes := ["ring"] }]

/-- For a note that is a draft only the note is built, on the page cached before. A page that is a ring is
refused, and nothing cached changes. -/
theorem inheritance_fails_before_building_overtaken :
    let s := (fresh pages).run overtaken
    let calls := ((s.cache.keyFor ["note", "draft"]).2.tracedBuild s.registry ["note", "draft"]).2.2
    s.registry.checkInheritance ["note", "draft"] = .ok () ∧ calls.map (·.name) = ["note"] ∧
      (∀ call ∈ calls, call.answer = .entered) ∧
      (s.resolve ["page", "ring"]).1 = .error (.inheritanceCycle "ring") ∧
      (s.resolve ["page", "ring"]).2.cache.entries = s.cache.entries := by
  intro s calls
  have hcheck : s.registry.checkInheritance ["note", "draft"] = .ok () := by decide +kernel
  have hring : (s.resolve ["page", "ring"]).1 = .error (.inheritanceCycle "ring") := by decide +kernel
  obtain ⟨-, hbuilt, -⟩ := inheritance_fails_before_building pages overtaken ["note", "draft"]
  obtain ⟨-, -, hcalls⟩ := hbuilt hcheck
  obtain ⟨-, -, hfails⟩ := inheritance_fails_before_building pages overtaken ["page", "ring"]
  exact ⟨hcheck, by decide +kernel, fun call hcall => (hcalls call hcall).1, hring,
    hfails _ (.cycle "ring") hring⟩

end Resolver

end ContentTypes
