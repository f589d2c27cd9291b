import ContentTypes.Proofs.Effective.TypeSets
import ContentTypes.Proofs.Resolver.Outcome

/-! # The type sets of an answer

With nothing pending the type sets of an answer, and of whatever is cached, are read off the declarations
(`typeSets_of_run`). The cache decides only which requested types are merged that others inherit; the
inherited types and all types are the same whatever is cached. -/

namespace ContentTypes

namespace Resolver

open Registry

/-- **The type sets after a run.** With nothing pending, the type sets of whatever is cached are those of
the names of its key, and so are those of whatever a request gives. The answers after two runs that end with
the same declarations have the same inherited types and the same types, and what only one of them counts as
merged is a requested type that both inherit. -/
theorem typeSets_of_run (r : Registry) (events : List Event)
    (hp : ∀ n, ¬ (fresh r).Pending events n) :
    (∀ entry ∈ ((fresh r).run events).cache.entries, entry.firstKey.names = entry.key.names ∧
      ((fresh r).run events).registry.TypeSets {n | n ∈ entry.key.names} entry.type) ∧
    (∀ names e, (((fresh r).run events).resolve names).1 = .ok e →
      ((fresh r).run events).registry.TypeSets {n | n ∈ names} e) ∧
    ∀ (r' : Registry) (events' : List Event), (∀ n, ¬ (fresh r').Pending events' n) →
      (∀ n, ((fresh r).run events).registry.find? n = ((fresh r').run events').registry.find? n) →
      ∀ names e e', (((fresh r).run events).resolve names).1 = .ok e →
        (((fresh r').run events').resolve names).1 = .ok e' →
        e.inheritedTypes = e'.inheritedTypes ∧ e.allTypes = e'.allTypes ∧
          (∀ n ∈ e.mergedTypes, n ∉ e'.mergedTypes → n ∈ names ∧ n ∈ e.inheritedTypes) ∧
          ∀ n ∈ e'.mergedTypes, n ∉ e.mergedTypes → n ∈ names ∧ n ∈ e.inheritedTypes := by
  have hresolve : ∀ {r : Registry} {events : List Event} {names : List Name} {e : EffectiveType},
      (∀ n, ¬ (fresh r).Pending events n) → (((fresh r).run events).resolve names).1 = .ok e →
        ((fresh r).run events).registry.TypeSets {n | n ∈ names} e := fun hp h => by
    have hans := answers_run_resolve h
    exact (hans.yields fun t _ => hp t).1.typeSets hans.built.wellFormed
  refine ⟨fun entry hentry => ?_, fun names e h => hresolve hp h, ?_⟩
  · have htrusted := trusted_run r events
    have hans := htrusted.answers ⟨entry, hentry, rfl, rfl⟩
    exact ⟨(htrusted.keyed.entries entry hentry).names_eq,
      (hans.yields fun t _ => hp t).1.typeSets hans.built.wellFormed⟩
  · intro r' events' hp' hfind names e e' h h'
    have hsets := hresolve hp h
    have hsets' := (hresolve hp' h').congr fun n => (hfind n).symm
    have hinh := hsets.inherited_eq hsets'
    refine ⟨hinh, hsets.all_eq hsets', fun n hn hno => hsets.redundant hsets' hn hno,
      fun n hn hno => ?_⟩
    rw [hinh]
    exact hsets'.redundant hsets hn hno

/-- A page with its base counts the base as merged, unless base and page were requested before, one after
the other. -/
theorem typeSets_of_run_pages :
    ∃ e e', ((fresh pages).resolve ["page", "base"]).1 = .ok e ∧
      (((fresh pages).run (requests [["base"], ["page"]])).resolve ["page", "base"]).1 = .ok e' ∧
      e.mergedTypes.toList = ["base", "page"] ∧ e'.mergedTypes.toList = ["page"] ∧
      pages.TypeSets {n | n ∈ ["page", "base"]} e ∧ e.inheritedTypes = e'.inheritedTypes := by
  obtain ⟨e, he, hmerged⟩ := exists_ok_of_any
    (p := fun e : EffectiveType => e.mergedTypes.toList = ["base", "page"])
    (x := ((fresh pages).resolve ["page", "base"]).1) (by decide +kernel)
  obtain ⟨e', he', hmerged'⟩ := exists_ok_of_any
    (p := fun e : EffectiveType => e.mergedTypes.toList = ["page"])
    (x := (((fresh pages).run (requests [["base"], ["page"]])).resolve ["page", "base"]).1)
    (by decide +kernel)
  obtain ⟨-, hsets, htwo⟩ := typeSets_of_run pages [] (not_pending_nil _)
  have hsame := htwo pages (requests [["base"], ["page"]]) (not_pending_requests _ _)
    (fun n => by rw [registry_run_requests]; rfl) _ e e' he he'
  exact ⟨e, e', he, he', hmerged, hmerged', hsets _ e he, hsame.1⟩

end Resolver

end ContentTypes
