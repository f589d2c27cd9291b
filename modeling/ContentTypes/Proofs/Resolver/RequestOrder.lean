import ContentTypes.Proofs.Effective.TypeSets
import ContentTypes.Proofs.Resolver.Assembling
import ContentTypes.Proofs.Resolver.Repeat

/-! # The order of a request

Names that are new to the cache are numbered in the order of the request, and keys are compared by these
numbers. Still, the order of the names in a request and their repetitions make no difference
(`resolve_same_of_same_names`): whether it succeeds is read off the declarations, the definitions are those
of the closure, and the head is assembled from rows that were numbered before. -/

namespace ContentTypes

open Registry

theorem EffectiveType.Alike.under_perm {e e' : EffectiveType} (h : e.Alike e') (he : e.WellFormed)
    (he' : e'.WellFormed) (k : Option Name) : (e'.under k).Perm (e.under k) := by
  rw [← he.filter_name, ← he'.filter_name]
  exact ((List.perm_append_comm.trans h.definitions).trans List.perm_append_comm).filter _

theorem Registry.Resolvable.congr {r : Registry} {names names' : List Name} (h : r.Resolvable names)
    (hsame : ∀ n, n ∈ names ↔ n ∈ names') : r.Resolvable names' := by
  obtain ⟨hne, hnamed, hsound, hharmonious⟩ := h
  have hset : {n | n ∈ names} = {n | n ∈ names'} := Set.ext hsame
  rw [hset] at hsound hharmonious
  refine ⟨fun hnil => ?_, fun hempty => hnamed ((hsame "").2 hempty), hsound, hharmonious⟩
  obtain ⟨n, hn⟩ := List.exists_mem_of_ne_nil names hne
  have hn' := (hsame n).1 hn
  rw [hnil] at hn'
  cases hn'

namespace Resolver

/-- With nothing pending, an answer is assembled from what is cached when the request is made. -/
theorem assembled_run_resolve {r : Registry} {events : List Event} {names : List Name}
    {e : EffectiveType} (hp : ∀ n, ¬ (fresh r).Pending events n)
    (h : (((fresh r).run events).resolve names).1 = .ok e) :
    Assembled ((fresh r).run events).cache.rows ((fresh r).run events).registry (.ofList names) e := by
  obtain ⟨res, hres, rfl⟩ := resolve_eq_ok_iff.1 h
  obtain ⟨w, hw⟩ := coherent_run r events
  exact Cache.assembled_resolve (trusted_run r events) hw.ordered hp hres

/-- **The order of a request does not matter**, nor do repetitions. After a run that leaves nothing pending,
requests for the same set of names either both fail, or both succeed and give the same types and supported
mixins, and the same definitions under every name. -/
theorem resolve_same_of_same_names (r : Registry) (events : List Event)
    (hp : ∀ n, ¬ (fresh r).Pending events n) {names names' : List Name}
    (hsame : ∀ n, n ∈ names ↔ n ∈ names') :
    ((∃ x, (((fresh r).run events).resolve names).1 = .error x) ∧
      ∃ x, (((fresh r).run events).resolve names').1 = .error x) ∨
    ∃ e e', (((fresh r).run events).resolve names).1 = .ok e ∧
      (((fresh r).run events).resolve names').1 = .ok e' ∧
      e.mergedTypes = e'.mergedTypes ∧ e.inheritedTypes = e'.inheritedTypes ∧
      e.allTypes = e'.allTypes ∧ e.supportedMixins = e'.supportedMixins ∧
      (∀ n, (e.namedItems n).Perm (e'.namedItems n)) ∧ e.residual.Perm e'.residual := by
  have htrusted := trusted_run r events
  have hset : {n | n ∈ names} = {n | n ∈ names'} := Set.ext hsame
  have hkey : NameSet.ofList names = .ofList names' := NameSet.ext_mem fun n => by
    rw [NameSet.mem_ofList, NameSet.mem_ofList, hsame]
  have hboth : (∃ e, (((fresh r).run events).resolve names).1 = .ok e) ↔
      ∃ e, (((fresh r).run events).resolve names').1 = .ok e := by
    rw [exists_resolve_ok_iff htrusted hp, exists_resolve_ok_iff htrusted hp]
    exact ⟨fun h => h.congr hsame, fun h => h.congr fun n => (hsame n).symm⟩
  cases hone : (((fresh r).run events).resolve names).1 with
  | error x =>
    refine Or.inl ⟨⟨x, rfl⟩, ?_⟩
    cases htwo : (((fresh r).run events).resolve names').1 with
    | error y => exact ⟨y, rfl⟩
    | ok e' =>
      obtain ⟨e, he⟩ := hboth.2 ⟨e', htwo⟩
      rw [hone] at he
      cases he
  | ok e =>
    obtain ⟨e', htwo⟩ := hboth.1 ⟨e, hone⟩
    obtain ⟨hbuilt, hyields⟩ := yields_run_resolve hp hone
    obtain ⟨hbuilt', hyields'⟩ := yields_run_resolve hp htwo
    rw [← hset] at hyields'
    have he := hbuilt.wellFormed
    have he' := hbuilt'.wellFormed
    have halike := hyields'.alike he' he hyields
    have hassembled' := assembled_run_resolve hp htwo
    rw [← hkey] at hassembled'
    have hhead := (assembled_run_resolve hp hone).head_eq hassembled'
    obtain ⟨hmerged, -, hmixins⟩ := Head.mk.inj hhead
    exact Or.inr ⟨e, e', rfl, htwo, hmerged, halike.inherited, halike.all, hmixins,
      fun n => halike.under_perm he' he (some n), halike.under_perm he' he none⟩

/-- The base of pages gets a title after it was cached. -/
def titled : List Event :=
  [.resolve ["base"],
    .register (({ name := "base" } : Declaration).withProperty "title" .string),
    .invalidate "base", .resolve ["base"]]

theorem not_pending_titled (n : Name) : ¬ (fresh drafts).Pending titled n := by
  show ¬ (fresh drafts).Pending ([] ++ [_] ++ [_] ++ [_] ++ [_]) n
  rw [pending_concat, pending_concat, pending_concat, pending_concat]
  simp [not_pending_nil, Changes, Declaration.withProperty, Declaration.withItem, eq_comm]

/-- A page that is a draft is the same in either order, though page and draft are numbered differently. -/
theorem resolve_same_of_same_names_drafts :
    (∀ n, ¬ (fresh drafts).Pending titled n) ∧
    (((fresh drafts).run titled).resolve ["page", "draft", "page"]).2.cache.numbering.names.toList =
      ["base", "page", "draft"] ∧
    (((fresh drafts).run titled).resolve ["draft", "page"]).2.cache.numbering.names.toList =
      ["base", "draft", "page"] ∧
    ∃ e e', (((fresh drafts).run titled).resolve ["page", "draft", "page"]).1 = .ok e ∧
      (((fresh drafts).run titled).resolve ["draft", "page"]).1 = .ok e' ∧
      e.mergedTypes = e'.mergedTypes ∧ e.supportedMixins = e'.supportedMixins ∧
      (e.namedItems "title").Perm (e'.namedItems "title") := by
  refine ⟨not_pending_titled, by decide +kernel, by decide +kernel, ?_⟩
  have hsame : ∀ n, n ∈ ["page", "draft", "page"] ↔ n ∈ ["draft", "page"] := fun n => by
    simp only [List.mem_cons, List.not_mem_nil, or_false]
    tauto
  obtain ⟨e, he, -⟩ := exists_ok_of_any (p := fun _ : EffectiveType => True)
    (x := (((fresh drafts).run titled).resolve ["page", "draft", "page"]).1) (by decide +kernel)
  rcases resolve_same_of_same_names drafts titled not_pending_titled hsame with
    ⟨⟨x, hx⟩, -⟩ | ⟨e, e', hone, htwo, hmerged, -, -, hmixins, hnamed, -⟩
  · rw [he] at hx
    cases hx
  · exact ⟨e, e', hone, htwo, hmerged, hmixins, hnamed "title"⟩

end Resolver

end ContentTypes
