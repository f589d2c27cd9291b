import ContentTypes.Proofs.Cache.Order
import ContentTypes.Proofs.Effective.Appending
import ContentTypes.Proofs.Resolver.FoldOrder

/-! # Which restriction on mixins survives

A request is merged from several types, and the mixins that the result supports are those of the type which
the others are merged into. That is the type of the largest cached subset of the requested names
(`Cache.base?`), or if none is cached the declared type whose name comes first (`Cache.mixins_resolve`). So
a primary type need not impose its restriction on the result (`restriction_does_not_survive`), as a mixin may
come first; but one of the requested declarations decides, and the restriction survives if those of the mixins
are within it (`supportsMixin_of_primary`). -/

namespace ContentTypes

open Registry Visit VisitGuard EffectiveType Contract

/-! ### The base of a request -/

namespace Cache

variable {c : Cache} {names : List Name} {type : EffectiveType}

/-- The type that the others are merged into in a request for a list of names: that of the largest cached
subset, if there is one. -/
def base? (c : Cache) (names : List Name) : Option EffectiveType :=
  let (key, c) := c.keyFor names
  (c.findBest? key).bind c.get?

/-- The base is what the search gives with its key. -/
theorem base?_eq (c : Cache) (names : List Name) : c.base? names =
    (((c.keyFor names).2.findBest? (c.keyFor names).1).bind fun best =>
      ((c.keyFor names).2.get? best).map (best, ·)).map (·.2) := by
  show ((c.keyFor names).2.findBest? (c.keyFor names).1).bind (c.keyFor names).2.get? = _
  cases (c.keyFor names).2.findBest? (c.keyFor names).1 with
  | none => rfl
  | some best => cases h : (c.keyFor names).2.get? best <;> simp [h]

theorem base?_keyFor (hc : c.Keyed) (names : List Name) :
    (c.keyFor names).2.base? names = c.base? names :=
  congrArg (Option.bind · (c.keyFor names).2.get?) (findBest?_keyFor hc names)

/-- What is cached for the very names is the base. -/
theorem base?_of_get? (hc : c.Keyed) (h : (c.keyFor names).2.get? (c.keyFor names).1 = some type) :
    c.base? names = some type := by
  have hc' := keyFor_keyed hc names
  have hk := keyFor_numbered hc names
  obtain ⟨e, he, rfl⟩ := Option.map_eq_some_iff.1 h
  have hn := hc'.entries e (List.mem_of_find?_eq_some he)
  have hsame := List.find?_some (p := fun e : Entry => e.key.same (c.keyFor names).1) he
  have hnames := hn.names_eq.trans ((Key.same_iff hc'.valid hn.key hk).1 hsame)
  have hbits := (Key.bits_eq_iff hc'.valid hn.firstKey hk).2 hnames
  show ((c.keyFor names).2.findBest? (c.keyFor names).1).bind (c.keyFor names).2.get? = some e.type
  rw [findBest?, he, Option.bind_some, get?, find?_of_bits _ hbits, he, Option.map_some]

end Cache

/-! ### What the others are merged into -/

namespace Build

variable {α : Type} {r : Registry} {st : State Cache} {names : List Name} {type e : EffectiveType}
  {build : Name → Build EffectiveType} {P : EffectiveType → Prop}

/-- The contract that tells nothing of the state. -/
def stateless : Contract Cache :=
  ⟨fun _ => True, fun _ _ => True, fun _ _ => True, fun _ => trivial, fun _ _ => trivial⟩

theorem stateless_any (v : Build α) (st : State Cache) : stateless.Ensures v st fun _ _ => True := by
  unfold Contract.Ensures After
  split
  · exact ⟨trivial, trivial, trivial⟩
  · trivial

theorem stateless_keyFor (names : List Name) (st : State Cache) :
    stateless.Ensures (keyFor names) st fun key st' =>
      key = (st.2.keyFor names).1 ∧ st' = (st.1, (st.2.keyFor names).2) :=
  ensures_change trivial trivial ⟨rfl, rfl⟩

/-- What is merged into a type leaves the supported mixins as they are. -/
theorem mixins_merged (e o : EffectiveType) (kind : MergeKind) (st : State Cache) :
    stateless.Ensures (merged e o kind) st fun m _ => m.supportedMixins = e.supportedMixins := by
  unfold merged
  cases h : e.merge o kind with
  | ok m => exact ensures_pure trivial (continues_of_merge h).mixins
  | error c => exact ensures_throw trivial

theorem mixins_mergeNext (e type : EffectiveType) (st : State Cache) :
    stateless.Ensures (mergeNext (some e) type) st fun m _ => m.supportedMixins = e.supportedMixins :=
  (mixins_merged e type .aggregate st).bind fun m st' _ _ hm =>
    (stateless_any (putMerged m) st').bind fun _ _ _ _ _ => ensures_pure trivial hm

theorem mixins_mergeSubsets : ∀ (rounds : Nat) {remaining : Key} {e : EffectiveType} {st : State Cache},
    stateless.Ensures (mergeSubsets rounds remaining (some e)) st fun out _ =>
      ∃ m, out.2 = some m ∧ m.supportedMixins = e.supportedMixins := by
  intro rounds
  induction rounds with
  | zero => exact ensures_pure trivial ⟨_, rfl, rfl⟩
  | succ rounds ih =>
    intro remaining e st
    unfold mergeSubsets
    split
    · exact ensures_pure trivial ⟨e, rfl, rfl⟩
    · refine ensures_read ?_
      split
      · exact ensures_pure trivial ⟨e, rfl, rfl⟩
      · next best type _ =>
        refine (mixins_mergeNext e type st).bind fun m st' _ _ hm => ih.mono fun out _ hout => ?_
        obtain ⟨m', hm', heq⟩ := hout
        exact ⟨m', hm', heq.trans hm⟩

theorem mixins_mergeSingles (build : Name → Build EffectiveType) (names : List Name) (e : EffectiveType)
    (st : State Cache) : stateless.Ensures (mergeSingles build names (some e)) st fun out _ =>
      ∃ m, out = some m ∧ m.supportedMixins = e.supportedMixins := by
  refine Ensures.foldlM (C := stateless) (fun _ out _ => ∃ m, out = some m ∧ m.supportedMixins = e.supportedMixins)
    (fun n rest out st' _ _ hout => ?_) trivial ⟨e, rfl, rfl⟩
  obtain ⟨m, rfl, hm⟩ := hout
  refine (stateless_any (single build n) st').bind fun type st'' _ _ _ => ?_
  refine (mixins_mergeNext m type st'').bind fun m' st3 _ _ hm' => ?_
  exact ensures_pure trivial ⟨m', rfl, hm'.trans hm⟩

/-- The parts of aggregating: what is cached for the names, or what is merged from subsets and single names. -/
theorem gives_aggregateWith
    (hhit : ∀ type, (st.2.keyFor names).2.get? (st.2.keyFor names).1 = some type → P type)
    (hmiss : (st.2.keyFor names).2.get? (st.2.keyFor names).1 = none →
      stateless.Ensures (mergeSubsets (st.2.keyFor names).1.size (st.2.keyFor names).1 none)
        (st.1, (st.2.keyFor names).2) fun out st' =>
          stateless.Ensures (mergeSingles build out.1.names.toList out.2) st' fun out _ => ∀ e ∈ out, P e) :
    stateless.Ensures (aggregateWith build names) st fun e _ => P e := by
  unfold aggregateWith
  refine (stateless_keyFor names st).bind fun key st' _ _ h => ?_
  obtain ⟨rfl, rfl⟩ := h
  refine ensures_read ?_
  dsimp only
  split
  · next type hget => exact ensures_pure trivial (hhit type hget)
  · next hget =>
    refine (hmiss hget).bind fun out st' _ _ hsingles => ?_
    refine Ensures.bind hsingles fun out st'' _ _ hout => ?_
    cases out with
    | none => exact ensures_throw trivial
    | some type =>
      refine (stateless_any _ st'').bind fun _ st3 _ _ _ => ?_
      exact (stateless_any _ st3).bind fun _ _ _ _ _ => ensures_pure trivial (hout type rfl)

/-- A list that names something has a key with something in it. -/
theorem exists_size_keyFor {c : Cache} (hc : c.Keyed) (hne : names ≠ []) :
    ∃ rounds, (c.keyFor names).1.size = rounds + 1 ∧ (c.keyFor names).1.isEmpty ≠ true := by
  have hempty : (c.keyFor names).1.isEmpty ≠ true := fun h => by
    obtain ⟨n, hn⟩ := List.exists_mem_of_ne_nil names hne
    exact (Key.isEmpty_iff (Cache.keyFor_numbered hc names)).1 h n (NameSet.mem_ofList.2 hn)
  obtain ⟨rounds, hsize⟩ := Nat.exists_eq_succ_of_ne_zero fun hzero => hempty (beq_iff_eq.2 hzero)
  exact ⟨rounds, hsize, hempty⟩

/-- With a cached subset, the others are merged into the largest one. -/
theorem mixins_of_base (hc : st.2.Keyed) (hne : names ≠ []) (hbase : st.2.base? names = some type) :
    stateless.Ensures (aggregateWith build names) st fun e _ =>
      e.supportedMixins = type.supportedMixins := by
  refine gives_aggregateWith (fun found hget => ?_) fun hget => ?_
  · rw [Cache.base?_of_get? hc hget] at hbase
    rw [Option.some.inj hbase]
  · rw [Cache.base?_eq, Option.map_eq_some_iff] at hbase
    obtain ⟨⟨best, type'⟩, hlargest, rfl⟩ := hbase
    obtain ⟨rounds, hsize, hempty⟩ := exists_size_keyFor hc hne
    rw [hsize]
    unfold mergeSubsets
    rw [if_neg hempty]
    refine ensures_read ?_
    rw [hlargest]
    -- the first subset is not merged into anything
    have hstart : stateless.Ensures (mergeNext none type') (st.1, (st.2.keyFor names).2) fun m _ =>
      m = type' := ensures_pure trivial rfl
    refine hstart.bind fun m st' _ _ hm => ?_
    obtain rfl := hm
    refine (mixins_mergeSubsets rounds).mono fun out st'' hout => ?_
    obtain ⟨m', hm', heq⟩ := hout
    rw [hm']
    refine (mixins_mergeSingles build out.1.names.toList m' st'').mono fun out' _ hout' e he => ?_
    obtain ⟨m'', rfl, heq'⟩ := hout'
    obtain rfl := Option.some.inj he
    exact heq'.trans heq

/-- What no subset is cached of has to be built. -/
theorem gives_single {n : Name} (hc : st.2.Keyed) (hno : ∀ e, ¬ st.2.Holds (.ofList [n]) e)
    (hbuild : ∀ st', stateless.Ensures (build n) st' fun e _ => P e) :
    stateless.Ensures (single build n) st fun e _ => P e := by
  unfold single
  refine (stateless_keyFor [n] st).bind fun key st' _ _ h => ?_
  obtain ⟨rfl, rfl⟩ := h
  refine ensures_read ?_
  dsimp only
  split
  · next e hget =>
    exact absurd (Cache.holds_of_get? (Cache.keyFor_keyed hc [n]) (Cache.keyFor_numbered hc [n]) hget) (hno e)
  · exact hbuild _

/-- With no cached subset, the others are merged into the type of the name that comes first. -/
theorem mixins_of_first {first : Name} (hc : st.2.Keyed) (hfirst : first ∈ names)
    (hmin : ∀ n ∈ names, first ≤ n) (hbase : st.2.base? names = none)
    (hbuild : ∀ st', stateless.Ensures (build first) st' fun e _ => P e) :
    stateless.Ensures (aggregateWith build names) st fun m _ =>
      ∃ e, P e ∧ m.supportedMixins = e.supportedMixins := by
  refine gives_aggregateWith (fun found hget => ?_) fun hget => ?_
  · rw [Cache.base?_of_get? hc hget] at hbase
    cases hbase
  · rw [Cache.base?_eq, Option.map_eq_none_iff] at hbase
    obtain ⟨rounds, hsize, hempty⟩ := exists_size_keyFor hc (List.ne_nil_of_mem hfirst)
    rw [hsize]
    unfold mergeSubsets
    rw [if_neg hempty]
    refine ensures_read ?_
    rw [hbase]
    refine ensures_pure trivial ?_
    have hc' := Cache.keyFor_keyed hc names
    have hno : ∀ e, ¬ (st.2.keyFor names).2.Holds (.ofList [first]) e := fun e =>
      Cache.not_holds_of_largest hc' (Cache.keyFor_numbered hc names) hbase fun n hn => by
        rw [NameSet.mem_ofList, List.mem_singleton] at hn
        exact NameSet.mem_ofList.2 (hn ▸ hfirst)
    obtain ⟨rest, hrest⟩ := NameSet.exists_toList_eq_cons (NameSet.mem_ofList.2 hfirst)
      fun n hn => hmin n (NameSet.mem_ofList.1 hn)
    dsimp only
    rw [Cache.names_keyFor, hrest]
    unfold mergeSingles
    rw [List.foldlM_cons]
    -- the first name is not merged into anything
    have hsingle : stateless.Ensures (single build first) (st.1, (st.2.keyFor names).2) fun e _ => P e :=
      gives_single hc' hno hbuild
    have hround : stateless.Ensures (do return some (← mergeNext none (← single build first)))
        (st.1, (st.2.keyFor names).2) fun out _ => ∃ e, out = some e ∧ P e := by
      refine hsingle.bind fun e st' _ _ he => ?_
      have hstart : stateless.Ensures (mergeNext none e) st' fun m _ => m = e := ensures_pure trivial rfl
      exact hstart.bind fun m _ _ _ hm => ensures_pure trivial ⟨m, rfl, hm ▸ he⟩
    refine hround.bind fun out st' _ _ hout => ?_
    obtain ⟨e, rfl, he⟩ := hout
    refine (mixins_mergeSingles build rest e st').mono fun out _ hout m hm => ?_
    obtain ⟨m', rfl, heq⟩ := hout
    obtain rfl := Option.some.inj hm
    exact ⟨e, he, heq⟩

/-- The type of a declaration supports the mixins that the declaration says, whatever it inherits. -/
theorem mixins_buildDeclared (r : Registry) (aggregate : List Name → Build EffectiveType) (n : Name)
    (st : State Cache) : stateless.Ensures (r.buildDeclared aggregate n) st fun e _ =>
      ∃ d, r.find? n = some d ∧ e.supportedMixins = d.supportedMixins.map .ofList := by
  have hdeclared : ∀ st, stateless.Ensures (r.declaredType aggregate n) st fun e _ =>
      ∃ d, r.find? n = some d ∧ e.supportedMixins = d.supportedMixins.map .ofList := by
    intro st
    unfold declaredType
    cases r.find? n with
    | none => exact ensures_throw trivial
    | some d =>
      dsimp only
      cases hown : ofDeclaration d with
      | error x => exact ensures_throw trivial
      | ok own =>
        have hmixins : own.supportedMixins = d.supportedMixins.map .ofList := by
          obtain ⟨-, -, -, rfl⟩ := ofDeclaration_ok_iff.1 hown
          exact supportedMixins_pushAll _ (bare d)
        have hkeep : ∀ e st, e.supportedMixins = own.supportedMixins →
            stateless.Ensures (putMerged e >>= fun _ => pure e) st fun e _ =>
              ∃ d', some d = some d' ∧ e.supportedMixins = d'.supportedMixins.map .ofList := fun e st he =>
          (stateless_any _ st).bind fun _ _ _ _ _ => ensures_pure trivial ⟨d, rfl, he.trans hmixins⟩
        dsimp only
        split
        · exact hkeep own st rfl
        · refine (stateless_any _ st).bind fun o st' _ _ _ => ?_
          exact (mixins_merged own o .supertype st').bind fun m st'' _ _ hm => hkeep m st'' hm
  unfold buildDeclared
  refine after_within (fun g _ => ?_) fun _ _ _ _ => trivial
  exact After.mono (hdeclared _) (fun e st' h => ⟨trivial, trivial, h.2.2⟩) fun _ _ _ => trivial

end Build

namespace Cache

variable {c : Cache} {r : Registry} {names : List Name} {res : Resolution}

/-- **What a request supports** is what its base supports, or else what the declaration of the first name
says. -/
theorem mixins_resolve (hc : c.Keyed) (h : (c.resolve r names).1 = .ok res) :
    (∀ type, c.base? names = some type → res.type.supportedMixins = type.supportedMixins) ∧
      (c.base? names = none → ∀ first ∈ names, (∀ n ∈ names, first ≤ n) → ∃ d, r.find? first = some d ∧
        res.type.supportedMixins = d.supportedMixins.map .ofList) := by
  have hends := c.resolve_ends r names
  generalize c.resolve r names = out at hends h
  cases hends with
  | unnamed _ => cases h
  | cached _ hget =>
    obtain rfl := Except.ok.inj h
    rw [base?_of_get? hc hget]
    exact ⟨fun _ htype => congrArg _ (Option.some.inj htype), fun hnone => by cases hnone⟩
  | refused _ _ _ => cases h
  | failed _ _ _ _ => cases h
  | built hnames _ _ hout =>
    obtain rfl := Except.ok.inj h
    have hne := (checkNames_ok_iff.1 hnames).1
    have hc' := keyFor_keyed hc names
    rw [← base?_keyFor hc names]
    refine ⟨fun type htype => ?_, fun hnone first hfirst hmin => ?_⟩
    · have hspec : Build.stateless.Ensures (r.aggregate (maxSupertypeDepth + 1) names)
          (.supertypes, (c.keyFor names).2) fun m _ => m.supportedMixins = type.supportedMixins :=
        Build.mixins_of_base hc' hne htype
      obtain ⟨-, -, -, he⟩ := (after_start hspec).1 _ hout
      exact he
    · have hspec : Build.stateless.Ensures (r.aggregate (maxSupertypeDepth + 1) names)
          (.supertypes, (c.keyFor names).2) fun m _ => ∃ e : EffectiveType,
            (∃ d, r.find? first = some d ∧ e.supportedMixins = d.supportedMixins.map .ofList) ∧
              m.supportedMixins = e.supportedMixins :=
        Build.mixins_of_first hc' hfirst hmin hnone (Build.mixins_buildDeclared r _ first)
      obtain ⟨-, -, -, e', ⟨d, hd, he'⟩, he⟩ := (after_start hspec).1 _ hout
      exact ⟨d, hd, he.trans he'⟩

end Cache

namespace Resolver

/-- Accounts and reports take audits alone; what is audited takes any mixin. -/
def audits : Registry := registerAll {}
  [({ name := "account" } : Declaration).withSupportedMixins ["audited"],
    ({ name := "audited" } : Declaration).mixin,
    ({ name := "report" } : Declaration).withSupportedMixins ["audited"]]

/-- **The restriction of a primary type does not survive.** An audited report supports comments: the mixin
comes first, so the report is merged into it. -/
theorem restriction_does_not_survive :
    ¬ ∀ (r : Registry) (events : List Event) (primary : Name) (mixins : List Name) (d : Declaration)
      (allowed : List Name) (e : EffectiveType) (m : Name), (∀ n, ¬ (fresh r).Pending events n) →
      ((fresh r).run events).registry.find? primary = some d → d.isMixin = false →
      d.supportedMixins = some allowed →
      (∀ q ∈ mixins, (((fresh r).run events).registry.find? q).any (·.isMixin) = true) →
      (((fresh r).run events).resolveWithMixins primary mixins).1 = .ok e →
      e.supportsMixin m = true → m ∈ allowed := by
  intro h
  obtain ⟨e, he, hcommented⟩ := exists_ok_of_any
    (p := fun e : EffectiveType => e.supportsMixin "commented" = true)
    (x := (((fresh audits).run []).resolveWithMixins "report" ["audited"]).1) (by decide +kernel)
  have hreport : ((fresh audits).run []).registry.find? "report" =
      some (({ name := "report" } : Declaration).withSupportedMixins ["audited"]) := by decide +kernel
  have hmixins : ∀ q ∈ ["audited"], (((fresh audits).run []).registry.find? q).any (·.isMixin) = true := by
    decide +kernel
  have hmem := h audits [] "report" ["audited"] _ ["audited"] e "commented" (not_pending_nil _) hreport rfl rfl
    hmixins he hcommented
  exact absurd hmem (by decide)

/-- **What a primary type with mixins supports.** With nothing pending, a mixin is supported only if the
primary type lists it or the declaration of one of the mixins allows it. Which declaration decides is given by
what is cached: with no cached subset of the names it is that of the name which comes first, and otherwise the
cached type of the largest subset. -/
theorem supportsMixin_of_primary {r : Registry} {events : List Event} {primary : Name} {mixins : List Name}
    {d : Declaration} {allowed : List Name} {e : EffectiveType} (hp : ∀ n, ¬ (fresh r).Pending events n)
    (hd : ((fresh r).run events).registry.find? primary = some d) (hallowed : d.supportedMixins = some allowed)
    (h : (((fresh r).run events).resolveWithMixins primary mixins).1 = .ok e) :
    let s := (fresh r).run events
    (∀ m, e.supportsMixin m = true → m ∈ allowed ∨ ∃ q ∈ mixins, q ∈ e.mergedTypes ∧
      ∃ d', s.registry.find? q = some d' ∧ d'.allowsMixin m = true) ∧
    (s.cache.base? (primary :: mixins) = none → ∀ first ∈ primary :: mixins,
      (∀ n ∈ primary :: mixins, first ≤ n) →
        ∃ d', s.registry.find? first = some d' ∧ ∀ m, e.supportsMixin m = d'.allowsMixin m) ∧
    ∀ type, s.cache.base? (primary :: mixins) = some type → ∀ m, e.supportsMixin m = type.supportsMixin m := by
  intro s
  obtain ⟨res, hres, rfl⟩ := resolve_eq_ok_iff.1 h
  obtain ⟨hbase, hfirst⟩ := Cache.mixins_resolve (trusted_run r events).keyed hres
  refine ⟨fun m hm => ?_, fun hnone first hmem hmin => ?_, fun type htype m => ?_⟩
  · -- the declaration that decides is that of a merged type
    have hy := ((answers_run_resolve h).yields fun t _ => hp t).1
    obtain ⟨q, hq, d', hd', hs⟩ := hy.mixins
    rw [supportsMixin_eq_allowsMixin hs] at hm
    rcases List.mem_cons.1 (hy.merged_mem q hq) with rfl | hmixin
    · rw [hd] at hd'
      obtain rfl := Option.some.inj hd'
      refine Or.inl ?_
      simpa [Declaration.allowsMixin, hallowed] using hm
    · exact Or.inr ⟨q, hmixin, hq, d', hd', hm⟩
  · obtain ⟨d', hd', hs⟩ := hfirst hnone first hmem hmin
    exact ⟨d', hd', supportsMixin_eq_allowsMixin hs⟩
  · rw [EffectiveType.supportsMixin, EffectiveType.supportsMixin, hbase type htype]

/-- An audited account takes audits alone: the account comes first. -/
theorem supportsMixin_of_primary_account :
    ∃ e, (((fresh audits).run []).resolveWithMixins "account" ["audited"]).1 = .ok e ∧
      e.mergedTypes.toList = ["account", "audited"] ∧ ∀ m, e.supportsMixin m = true ↔ m = "audited" := by
  obtain ⟨e, he, hmerged⟩ := exists_ok_of_any
    (p := fun e : EffectiveType => e.mergedTypes.toList = ["account", "audited"])
    (x := (((fresh audits).run []).resolveWithMixins "account" ["audited"]).1) (by decide +kernel)
  have haccount : ((fresh audits).run []).registry.find? "account" =
      some (({ name := "account" } : Declaration).withSupportedMixins ["audited"]) := by decide +kernel
  obtain ⟨-, hfirst, -⟩ := supportsMixin_of_primary (not_pending_nil _) haccount rfl he
  obtain ⟨d, hd, hs⟩ := hfirst (by decide +kernel) "account" (by decide) (by decide)
  rw [haccount] at hd
  obtain rfl := Option.some.inj hd
  refine ⟨e, he, hmerged, fun m => ?_⟩
  rw [hs]
  simp [Declaration.allowsMixin, Declaration.withSupportedMixins]

end Resolver

end ContentTypes
