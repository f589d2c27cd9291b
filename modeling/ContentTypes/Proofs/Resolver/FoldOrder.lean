import ContentTypes.Proofs.Resolver.ChildNodes

/-! # What the order of merging decides

Which cached types a request is merged from, and in which order, depends on the requests before it. Two
answers show this. The mixins that an effective type supports are those of the type merged first
(`supportsMixin_depends_on_history`); and of residual definitions that take a child, the one merged first
decides whether the child may be added (`checkAdd_depends_on_history`).

Histories cannot make a difference beyond that. The answers after two histories of requests are the same
if the requested declarations agree on the mixin (`supportsMixin_of_requested`), and if the definitions
that can decide on the child agree on whether it may be added (`checkAdd_same_of_agree`). -/

namespace ContentTypes

open Registry

/-- May the mixin be added to a node of the declared type alone? -/
def Declaration.allowsMixin (d : Declaration) (mixin : Name) : Bool :=
  match d.supportedMixins with
  | none => true
  | some names => decide (mixin ∈ names)

namespace Resolver

variable {r : Registry} {history history₁ history₂ : List (List Name)} {names : List Name}
  {child primary : Name} {e e₁ e₂ : EffectiveType} {s s₁ s₂ : Resolver}

/-- What a request gives after a history of requests. -/
theorem yields_of_resolve (h : (((fresh r).run (requests history)).resolve names).1 = .ok e) :
    EffectiveType.Built e ∧ r.Yields {n | n ∈ names} e := by
  obtain ⟨res, hres, rfl⟩ := resolve_eq_ok_iff.1 h
  rw [registry_run_requests] at hres
  have hans := Cache.answers_resolve (trusted_requests r history) hres
  exact ⟨hans.built, (hans.yields fun t _ => Set.notMem_empty t).1⟩

/-! ### Supported mixins -/

/-- A type that takes over the supported mixins of a declaration supports what it allows. -/
theorem supportsMixin_eq_allowsMixin {d : Declaration}
    (h : e.supportedMixins = d.supportedMixins.map .ofList) (mixin : Name) :
    e.supportsMixin mixin = d.allowsMixin mixin := by
  unfold EffectiveType.supportsMixin Declaration.allowsMixin
  rw [h]
  cases d.supportedMixins with
  | none => rfl
  | some mixins =>
    refine Bool.eq_iff_iff.2 ?_
    rw [decide_eq_true_iff]
    exact NameSet.contains_iff.trans NameSet.mem_ofList

/-- The supported mixins are those of one of the declarations. -/
theorem exists_allowsMixin {s : Set Name} (h : r.Yields s e) :
    ∃ n ∈ s, ∃ d, r.find? n = some d ∧ ∀ mixin, e.supportsMixin mixin = d.allowsMixin mixin := by
  obtain ⟨n, hn, d, hd, hs⟩ := h.mixins
  exact ⟨n, h.merged_mem n hn, d, hd, supportsMixin_eq_allowsMixin hs⟩

/-- A report supports reviews alone, a note any mixin. -/
def notes : Registry := registerAll {}
  [({ name := "note" } : Declaration),
    ({ name := "report" } : Declaration).withSupportedMixins ["reviewed"]]

/-- **The supported mixins depend on the history.** A report with a note does not support comments after
the report was requested alone, and supports them otherwise. -/
theorem supportsMixin_depends_on_history :
    ¬ ∀ (r : Registry) (history₁ history₂ : List (List Name)) (names : List Name) (mixin : Name)
      (e₁ e₂ : EffectiveType),
      (((fresh r).run (requests history₁)).resolve names).1 = .ok e₁ →
      (((fresh r).run (requests history₂)).resolve names).1 = .ok e₂ →
      e₁.supportsMixin mixin = e₂.supportsMixin mixin := by
  intro h
  obtain ⟨e₁, he₁, hyes⟩ := exists_ok_of_any
    (p := fun e : EffectiveType => e.supportsMixin "commented" = true)
    (x := (((fresh notes).run (requests [])).resolve ["note", "report"]).1) (by decide +kernel)
  obtain ⟨e₂, he₂, hno⟩ := exists_ok_of_any
    (p := fun e : EffectiveType => e.supportsMixin "commented" = false)
    (x := (((fresh notes).run (requests [["report"]])).resolve ["note", "report"]).1) (by decide +kernel)
  have heq := h notes [] [["report"]] _ "commented" e₁ e₂ he₁ he₂
  rw [hyes, hno] at heq
  cases heq

/-- **What histories cannot change about the supported mixins.** After any two histories of requests, an
answer supports the mixins that the declaration of one of the requested names allows; so both answers
agree on a mixin on which the requested declarations agree. -/
theorem supportsMixin_of_requested
    (h₁ : (((fresh r).run (requests history₁)).resolve names).1 = .ok e₁)
    (h₂ : (((fresh r).run (requests history₂)).resolve names).1 = .ok e₂) :
    (∃ n ∈ names, ∃ d, r.find? n = some d ∧ ∀ mixin, e₁.supportsMixin mixin = d.allowsMixin mixin) ∧
    (∃ n ∈ names, ∃ d, r.find? n = some d ∧ ∀ mixin, e₂.supportsMixin mixin = d.allowsMixin mixin) ∧
    ∀ mixin, (∀ n ∈ names, ∀ n' ∈ names, ∀ d d', r.find? n = some d → r.find? n' = some d' →
        d.allowsMixin mixin = d'.allowsMixin mixin) →
      e₁.supportsMixin mixin = e₂.supportsMixin mixin := by
  have hone := exists_allowsMixin (yields_of_resolve h₁).2
  have htwo := exists_allowsMixin (yields_of_resolve h₂).2
  refine ⟨hone, htwo, fun mixin hagree => ?_⟩
  obtain ⟨n, hn, d, hd, hs⟩ := hone
  obtain ⟨n', hn', d', hd', hs'⟩ := htwo
  rw [hs, hs', hagree n hn n' hn' d d' hd hd']

/-- Both answers support reviews, which a note and a report allow. -/
theorem supportsMixin_of_requested_notes :
    ∃ e₁ e₂, (((fresh notes).run (requests [])).resolve ["note", "report"]).1 = .ok e₁ ∧
      (((fresh notes).run (requests [["report"]])).resolve ["note", "report"]).1 = .ok e₂ ∧
      e₁ ≠ e₂ ∧ e₁.supportsMixin "reviewed" = e₂.supportsMixin "reviewed" := by
  obtain ⟨e₁, he₁, hone⟩ := exists_ok_of_any (p := fun e : EffectiveType => e.supportedMixins = none)
    (x := (((fresh notes).run (requests [])).resolve ["note", "report"]).1) (by decide +kernel)
  obtain ⟨e₂, he₂, htwo⟩ := exists_ok_of_any (p := fun e : EffectiveType => e.supportedMixins ≠ none)
    (x := (((fresh notes).run (requests [["report"]])).resolve ["note", "report"]).1) (by decide +kernel)
  refine ⟨e₁, e₂, he₁, he₂, fun heq => htwo (heq ▸ hone), ?_⟩
  refine (supportsMixin_of_requested he₁ he₂).2.2 "reviewed" fun n hn n' hn' d d' hd hd' => ?_
  have hall : ∀ n ∈ ["note", "report"],
      ((notes.find? n).map (·.allowsMixin "reviewed")) = some true := by decide +kernel
  have h := hall n hn
  have h' := hall n' hn'
  rw [hd, Option.map_some, Option.some.injEq] at h
  rw [hd', Option.map_some, Option.some.injEq] at h'
  rw [h, h']

/-! ### Adding a child -/

/-- The resolver after a request is the one after the longer history. -/
theorem eq_run_of_resolve (h : ((fresh r).run (requests history)).resolve names = (.ok e, s)) :
    s = (fresh r).run (requests (history ++ [names])) := by
  rw [requests, List.map_append]
  exact (congrArg Prod.snd h).symm.trans (run_concat _ (requests history) (.resolve names)).symm

/-- **When a child may be added**, given that the residual definitions which can decide on it agree: its
type is declared, no mixin and can be resolved, and a definition that decides is addable. -/
theorem checkAdd_ok_iff_of_agree (h : ((fresh r).run (requests history)).resolve names = (.ok e, s))
    (hagree : ∀ i j, r.DecidesResidual {n | n ∈ names} child primary i →
      r.DecidesResidual {n | n ∈ names} child primary j → (i.Addable ↔ j.Addable)) :
    (s.checkAdd e child (some primary)).1 = .ok () ↔
      (∃ d, r.find? primary = some d ∧ d.isMixin = false) ∧ r.Resolvable [primary] ∧
        ∃ i, r.DecidesChild {n | n ∈ names} child primary i ∧ i.Addable := by
  obtain ⟨hbuilt, hy⟩ := yields_of_resolve (congrArg Prod.fst h)
  have he := hbuilt.wellFormed
  obtain rfl := eq_run_of_resolve h
  have hreg : ((fresh r).run (requests (history ++ [names]))).registry = r := registry_run_requests _ _
  have hset : {n | n ∈ [primary]} = ({primary} : Set Name) := Set.ext fun _ => List.mem_singleton
  have htarget : ∀ {target}, (((fresh r).run (requests (history ++ [names]))).resolve [primary]).1 =
      .ok target → ∀ t, t ∈ target.allTypes ↔ t ∈ r.closure {primary} := fun ht t => by
    rw [(yields_of_resolve ht).2.all_iff t, hset]
  have hresolvable : (∃ target, (((fresh r).run (requests (history ++ [names]))).resolve [primary]).1 =
      .ok target) ↔ r.Resolvable [primary] := by
    have htrusted := trusted_run r (requests (history ++ [names]))
    rw [exists_resolve_ok_iff htrusted (not_pending_requests _ _), hreg]
  rw [checkAdd_typed_ok_iff, hreg, ← hresolvable]
  constructor
  · rintro ⟨d, target, i, hd, hm, ht, hi, hadd⟩
    exact ⟨⟨d, hd, hm⟩, ⟨target, ht⟩, i, decidesChild_of_choose he hy (htarget ht) hi, hadd⟩
  · rintro ⟨⟨d, hd, hm⟩, ⟨target, ht⟩, i, hi, hadd⟩
    -- what is chosen need not be `i`, but it decides too
    obtain ⟨j, hj⟩ := exists_choose he hy (htarget ht) hi
    have hdj := decidesChild_of_choose he hy (htarget ht) hj
    exact ⟨d, target, j, hd, hm, ht, hj, (decidesChild_agree he hy hagree hi hdj).1 hadd⟩

/-- An album takes photos. An archive takes scans, which are read-only. A portrait is both. -/
def albums : Registry := registerAll {}
  [({ name := "photo" } : Declaration), ({ name := "scan" } : Declaration),
    { name := "portrait", supertypes := ["photo", "scan"] },
    ({ name := "album" } : Declaration).withItem (.childNode "album" none ["photo"]),
    ({ name := "archive" } : Declaration).withItem
      ((ItemDef.childNode "archive" none ["scan"]).withFlags .protectedItem)]

/-- **Whether a child may be added depends on the history.** A portrait may not be added to an album that
is an archive after the archive was requested alone, and may be added otherwise. -/
theorem checkAdd_depends_on_history :
    ¬ ∀ (r : Registry) (history₁ history₂ : List (List Name)) (names : List Name) (child primary : Name)
      (e₁ e₂ : EffectiveType) (s₁ s₂ : Resolver),
      ((fresh r).run (requests history₁)).resolve names = (.ok e₁, s₁) →
      ((fresh r).run (requests history₂)).resolve names = (.ok e₂, s₂) →
      ((s₁.checkAdd e₁ child (some primary)).1 = .ok () ↔
        (s₂.checkAdd e₂ child (some primary)).1 = .ok ()) := by
  intro h
  obtain ⟨e₁, he₁, hyes⟩ := exists_ok_of_any
    (p := fun e => ((((fresh albums).run (requests [])).resolve ["album", "archive"]).2.checkAdd e "me"
      (some "portrait")).1 = .ok ())
    (x := (((fresh albums).run (requests [])).resolve ["album", "archive"]).1) (by decide +kernel)
  obtain ⟨e₂, he₂, hno⟩ := exists_ok_of_any
    (p := fun e =>
      ((((fresh albums).run (requests [["archive"]])).resolve ["album", "archive"]).2.checkAdd e "me"
        (some "portrait")).1 ≠ .ok ())
    (x := (((fresh albums).run (requests [["archive"]])).resolve ["album", "archive"]).1)
    (by decide +kernel)
  have hiff := h albums [] [["archive"]] _ "me" "portrait" e₁ e₂ _ _ (Prod.ext he₁ rfl)
    (Prod.ext he₂ rfl)
  exact hno (hiff.1 hyes)

/-- **What histories cannot change about adding a child.** After any two histories of requests the verdict
is the same, if a definition of the child's name takes the child, or else if the first residual ones of
each of the nearest types with one that takes it agree on whether it may be added. -/
theorem checkAdd_same_of_agree
    (h₁ : ((fresh r).run (requests history₁)).resolve names = (.ok e₁, s₁))
    (h₂ : ((fresh r).run (requests history₂)).resolve names = (.ok e₂, s₂))
    (hagree : ∀ i j, r.DecidesResidual {n | n ∈ names} child primary i →
      r.DecidesResidual {n | n ∈ names} child primary j → (i.Addable ↔ j.Addable)) :
    (s₁.checkAdd e₁ child (some primary)).1 = .ok () ↔
      (s₂.checkAdd e₂ child (some primary)).1 = .ok () := by
  rw [checkAdd_ok_iff_of_agree h₁ hagree, checkAdd_ok_iff_of_agree h₂ hagree]

/-- The only definition that takes a photo is that of an album. -/
theorem addable_of_takes_photo {t : Name} {i : ItemDef} (hi : i ∈ albums.items t)
    (h : albums.Takes "photo" i) : i.Addable := by
  have hphoto : albums.find? "photo" = some { name := "photo" } := by decide +kernel
  have hrequired : ∀ u ∈ i.requiredPrimaryTypes, u = "photo" := fun u hu => by
    rcases (mem_closure_singleton hphoto).1 (h.2 u hu) with rfl | ⟨v, hv, -⟩
    · rfl
    · cases hv
  have hall : ∀ p ∈ albums.declarations.toList, ∀ i ∈ p.2.items,
      (∀ u ∈ i.requiredPrimaryTypes, u = "photo") →
        i.isProtected = false ∧ i.isAutoCreated = false := by
    decide +kernel
  obtain ⟨d, hd, hi⟩ := mem_items_iff.1 hi
  exact hall (t, d) (Std.TreeMap.mem_toList_iff_getElem?_eq_some.2 hd) i hi hrequired

/-- An album that is an archive takes photos, whichever of its definitions comes first. -/
theorem checkAdd_same_of_agree_albums :
    ∃ e₁ e₂ s₁ s₂, ((fresh albums).run (requests [])).resolve ["album", "archive"] = (.ok e₁, s₁) ∧
      ((fresh albums).run (requests [["archive"]])).resolve ["album", "archive"] = (.ok e₂, s₂) ∧
      e₁.residual ≠ e₂.residual ∧
      ((s₁.checkAdd e₁ "me" (some "photo")).1 = .ok () ↔
        (s₂.checkAdd e₂ "me" (some "photo")).1 = .ok ()) := by
  obtain ⟨e₁, he₁, hone⟩ := exists_ok_of_any
    (p := fun e : EffectiveType => e.residual.map (·.declaringType) = ["album", "archive"])
    (x := (((fresh albums).run (requests [])).resolve ["album", "archive"]).1) (by decide +kernel)
  obtain ⟨e₂, he₂, htwo⟩ := exists_ok_of_any
    (p := fun e : EffectiveType => e.residual.map (·.declaringType) = ["archive", "album"])
    (x := (((fresh albums).run (requests [["archive"]])).resolve ["album", "archive"]).1)
    (by decide +kernel)
  have h₁ : ((fresh albums).run (requests [])).resolve ["album", "archive"] = (.ok e₁, _) :=
    Prod.ext he₁ rfl
  have h₂ : ((fresh albums).run (requests [["archive"]])).resolve ["album", "archive"] = (.ok e₂, _) :=
    Prod.ext he₂ rfl
  refine ⟨e₁, e₂, _, _, h₁, h₂, ?_, checkAdd_same_of_agree h₁ h₂ fun i j hi hj => ?_⟩
  · intro heq
    rw [heq, htwo] at hone
    exact absurd hone (by decide)
  · have haddable : ∀ i, albums.DecidesResidual {n | n ∈ ["album", "archive"]} "me" "photo" i →
        i.Addable := by
      rintro i ⟨-, t, -, hfirst⟩
      obtain ⟨a, b, -, ⟨-, htakes⟩, -⟩ := id hfirst
      exact addable_of_takes_photo hfirst.mem htakes
    exact ⟨fun _ => haddable j hj, fun _ => haddable i hi⟩

end Resolver

end ContentTypes
