import ContentTypes.Proofs.Resolver.Runs

/-! # What requests give after a run

After any run, whatever is cached and includes no pending name is up to date: its types are the supertype
closure of its key, and it holds their definitions (`cache_upToDate`). With nothing pending a request
succeeds exactly if the declarations allow it (`resolve_ok_iff_resolvable`), whatever is cached. -/

namespace ContentTypes

open Registry

/-- **An effective type that is up to date**: its types are the closure of the set, all registered, and
its definitions are the ones declared by these types, each once. -/
structure Registry.UpToDate (r : Registry) (s : Set Name) (e : EffectiveType) : Prop where
  types : ∀ t, t ∈ e.allTypes ↔ t ∈ r.closure s
  registered : ∀ t ∈ e.allTypes, r.contains t = true
  definitions : e.definitions.Perm (e.allTypes.toList.flatMap r.items)
  nodup : e.definitions.Nodup

theorem Registry.Answers.upToDate {r : Registry} {pending s : Set Name} {e : EffectiveType}
    (h : r.Answers pending s e) (hp : ∀ t ∈ e.allTypes, t ∉ pending) : r.UpToDate s e := by
  obtain ⟨hy, hs⟩ := h.yields hp
  have he := h.built.wellFormed
  exact ⟨hy.all_iff, fun t ht => hs.registered t ((hy.all_iff t).1 ht), hy.definitions_perm he,
    he.nodup_definitions⟩

namespace Resolver

/-- A result that passes a test exists. -/
theorem exists_ok_of_any {ε α : Type} {x : Except ε α} {p : α → Prop} [DecidablePred p]
    (h : x.toOption.any (p ·) = true) : ∃ a, x = .ok a ∧ p a := by
  cases x with
  | ok a => exact ⟨a, rfl, by simpa [Except.toOption] using h⟩
  | error e => simp [Except.toOption] at h

theorem resolve_eq_ok_iff {s : Resolver} {names : List Name} {type : EffectiveType} :
    (s.resolve names).1 = .ok type ↔
      ∃ res, (s.cache.resolve s.registry names).1 = .ok res ∧ res.type = type := by
  show (s.cache.resolve s.registry names).1.map (·.type) = .ok type ↔ _
  cases (s.cache.resolve s.registry names).1 <;> simp [Except.map]

/-- What a request gives after a run answers for the requested names. -/
theorem answers_run_resolve {r : Registry} {events : List Event} {names : List Name}
    {type : EffectiveType} (h : (((fresh r).run events).resolve names).1 = .ok type) :
    ((fresh r).run events).registry.Answers {n | (fresh r).Pending events n} {n | n ∈ names} type := by
  obtain ⟨res, hres, rfl⟩ := resolve_eq_ok_iff.1 h
  exact Cache.answers_resolve (trusted_run r events) hres

/-- With nothing pending it is built of declarations, and the declarations now yield it. -/
theorem yields_run_resolve {r : Registry} {events : List Event} {names : List Name}
    {type : EffectiveType} (hp : ∀ n, ¬ (fresh r).Pending events n)
    (h : (((fresh r).run events).resolve names).1 = .ok type) :
    EffectiveType.Built type ∧ ((fresh r).run events).registry.Yields {n | n ∈ names} type := by
  have hans := answers_run_resolve h
  exact ⟨hans.built, (hans.yields fun t _ => hp t).1⟩

/-! ### Freshness -/

/-- **Freshness of the cache.** After any run, every cached type that includes no pending name is up to
date for the names of its key; so with nothing pending, whatever a request gives is up to date. -/
theorem cache_upToDate (r : Registry) (events : List Event) :
    (∀ entry ∈ ((fresh r).run events).cache.entries,
      (∀ t ∈ entry.type.allTypes, ¬ (fresh r).Pending events t) →
        entry.firstKey.names = entry.key.names ∧
          ((fresh r).run events).registry.UpToDate {n | n ∈ entry.key.names} entry.type) ∧
    ((∀ n, ¬ (fresh r).Pending events n) → ∀ names type,
      (((fresh r).run events).resolve names).1 = .ok type →
        ((fresh r).run events).registry.UpToDate {n | n ∈ names} type) := by
  have htrusted := trusted_run r events
  constructor
  · intro entry hentry hp
    have hanswers := htrusted.answers ⟨entry, hentry, rfl, rfl⟩
    exact ⟨(htrusted.keyed.entries entry hentry).names_eq, hanswers.upToDate hp⟩
  · intro hp names type h
    exact (answers_run_resolve h).upToDate fun t _ => hp t

/-- A page has a body, and a title from its supertype; a draft is a mixin beside it. -/
def pages : Registry := registerAll {}
  [({ name := "base" } : Declaration).withProperty "title" .string,
    ({ name := "page", supertypes := ["base"] } : Declaration).withProperty "body" .string,
    ({ name := "draft" } : Declaration).mixin]

/-- The title is renamed after pages were cached. -/
def retitled : List Event :=
  [.resolve ["page", "draft"],
    .register (({ name := "base" } : Declaration).withProperty "headline" .string),
    .invalidate "base"]

theorem not_pending_retitled (n : Name) : ¬ (fresh pages).Pending retitled n := by
  show ¬ (fresh pages).Pending ([] ++ [_] ++ [_] ++ [_]) n
  rw [pending_concat, pending_concat, pending_concat]
  simp [not_pending_nil, Changes, Declaration.withProperty, Declaration.withItem, eq_comm]

theorem eq_draft_of_pending {n : Name}
    (h : (fresh pages).Pending (retitled ++ [.resolve ["page"]] ++ [.unregister "draft"]) n) :
    n = "draft" := by
  rw [pending_concat, pending_concat] at h
  rcases h with ⟨hn, -⟩ | ⟨h | ⟨h, -⟩, -⟩
  · exact hn
  · exact h.elim
  · exact absurd h (not_pending_retitled n)

/-- Pages are up to date after the change, also while drafts are pending. -/
theorem cache_upToDate_pages :
    (∃ entry ∈
        ((fresh pages).run (retitled ++ [.resolve ["page"]] ++ [.unregister "draft"])).cache.entries,
      entry.key.names.toList = ["page"] ∧ "draft" ∉ entry.type.allTypes ∧
        ((fresh pages).run (retitled ++ [.resolve ["page"]] ++ [.unregister "draft"])).registry.UpToDate
          {n | n ∈ entry.key.names} entry.type) ∧
    ∃ type, (((fresh pages).run retitled).resolve ["page"]).1 = .ok type ∧
      type.definitions.map (·.name) = [some "body", some "headline"] ∧
        ((fresh pages).run retitled).registry.UpToDate {n | n ∈ ["page"]} type := by
  constructor
  · obtain ⟨entry, hentry, hkey, hdraft⟩ : ∃ entry ∈
        ((fresh pages).run (retitled ++ [.resolve ["page"]] ++ [.unregister "draft"])).cache.entries,
        entry.key.names.toList = ["page"] ∧ "draft" ∉ entry.type.allTypes := by
      decide +kernel
    refine ⟨entry, hentry, hkey, hdraft, ((cache_upToDate pages _).1 entry hentry fun t ht hp => ?_).2⟩
    exact hdraft (eq_draft_of_pending hp ▸ ht)
  · obtain ⟨type, hok, hnames⟩ := exists_ok_of_any
      (p := fun type : EffectiveType => type.definitions.map (·.name) = [some "body", some "headline"])
      (x := (((fresh pages).run retitled).resolve ["page"]).1) (by decide +kernel)
    exact ⟨type, hok, hnames, (cache_upToDate pages _).2 not_pending_retitled _ type hok⟩

/-! ### Success -/

theorem exists_resolve_ok_iff {s : Resolver} {pending : Set Name} {names : List Name}
    (hs : s.cache.Trusted s.registry pending) (hp : ∀ n, n ∉ pending) :
    (∃ type, (s.resolve names).1 = .ok type) ↔ s.registry.Resolvable names := by
  rw [← Cache.resolve_ok_iff hs hp]
  simp only [resolve_eq_ok_iff]
  constructor
  · rintro ⟨_, res, hres, -⟩
    exact ⟨res, hres⟩
  · rintro ⟨res, hres⟩
    exact ⟨_, res, hres, rfl⟩

/-- **When a request succeeds.** With nothing pending this depends on the declarations alone. -/
theorem resolve_ok_iff_resolvable (r : Registry) (events : List Event) (names : List Name)
    (hp : ∀ n, ¬ (fresh r).Pending events n) :
    (∃ type, (((fresh r).run events).resolve names).1 = .ok type) ↔
      ((fresh r).run events).registry.Resolvable names :=
  exists_resolve_ok_iff (trusted_run r events) hp

/-- A page can be resolved after the change, together with its supertype but not with an unknown name. -/
theorem resolve_ok_iff_resolvable_pages :
    (∀ n, ¬ (fresh pages).Pending retitled n) ∧
      ((fresh pages).run retitled).registry.Resolvable ["page", "base"] ∧
      ¬ ((fresh pages).run retitled).registry.Resolvable ["page", "cover"] := by
  refine ⟨not_pending_retitled, ?_, fun h => ?_⟩
  · obtain ⟨type, hok, -⟩ := exists_ok_of_any (p := fun _ : EffectiveType => True)
      (x := (((fresh pages).run retitled).resolve ["page", "base"]).1) (by decide +kernel)
    exact (resolve_ok_iff_resolvable pages retitled _ not_pending_retitled).1 ⟨type, hok⟩
  · obtain ⟨type, hok⟩ := (resolve_ok_iff_resolvable pages retitled _ not_pending_retitled).2 h
    have hno : (((fresh pages).run retitled).resolve ["page", "cover"]).1.toOption = none := by
      decide +kernel
    rw [hok] at hno
    cases hno

end Resolver

end ContentTypes
