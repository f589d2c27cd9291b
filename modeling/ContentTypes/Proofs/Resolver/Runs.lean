import ContentTypes.Proofs.Resolver.Request

/-! # Runs of a resolver

A run is a list of events over a resolver: changes of the registry, requests, invalidations and clearings
of the cache, in any order. A name is `Pending` after a run if its declaration was changed and the name
has not been invalidated since. Every event keeps the cache trusted up to the names that are pending
(`trusted_apply`), so every run does (`trusted_run`). -/

namespace ContentTypes

open Registry

/-- What happens to a resolver. -/
inductive Event where
  | register (d : Declaration)
  | unregister (n : Name)
  | resolve (names : List Name)
  | invalidate (n : Name)
  | clear

namespace Resolver

/-- The resolver after an event. -/
def apply (s : Resolver) : Event → Resolver
  | .register d => s.register d
  | .unregister n => s.unregister n
  | .resolve names => (s.resolve names).2
  | .invalidate n => (s.invalidate n).2
  | .clear => s.clear

/-- The resolver after a run. -/
def run (s : Resolver) (events : List Event) : Resolver := events.foldl apply s

/-- A resolver over a registry, with nothing cached. -/
def fresh (r : Registry) : Resolver := { registry := r }

variable {s : Resolver} {r : Registry} {pending pending' : Set Name} {events : List Event} {e : Event}
  {n : Name}

theorem run_concat (s : Resolver) (events : List Event) (e : Event) :
    s.run (events ++ [e]) = (s.run events).apply e := by
  rw [run, List.foldl_append]
  rfl

/-! ### Pending names -/

/-- The event registers, replaces or removes the declaration of a name. -/
def Changes (s : Resolver) : Event → Name → Prop
  | .register d, n => n = d.name
  | .unregister m, n => n = m ∧ s.registry.contains m = true
  | _, _ => False

/-- **A pending name**: during the run its declaration was changed, and the name was not invalidated
since. -/
def Pending (s : Resolver) (events : List Event) (n : Name) : Prop :=
  ∃ before e after, events = before ++ e :: after ∧ (s.run before).Changes e n ∧
    Event.invalidate n ∉ after

theorem not_pending_nil (s : Resolver) (n : Name) : ¬ s.Pending [] n := by
  rintro ⟨before, e, after, h, -⟩
  simp at h

theorem pending_concat : s.Pending (events ++ [e]) n ↔
    (s.run events).Changes e n ∨ (s.Pending events n ∧ e ≠ .invalidate n) := by
  constructor
  · rintro ⟨before, f, after, heq, hch, hno⟩
    rcases List.eq_nil_or_concat' after with rfl | ⟨after, g, rfl⟩
    · obtain ⟨rfl, hef⟩ := List.append_inj' heq rfl
      obtain rfl := (List.cons.inj hef).1
      exact Or.inl hch
    · rw [← List.cons_append, ← List.append_assoc] at heq
      obtain ⟨rfl, heg⟩ := List.append_inj' heq rfl
      obtain rfl := (List.cons.inj heg).1
      rw [List.mem_append, not_or] at hno
      exact Or.inr ⟨⟨before, f, after, rfl, hch, hno.1⟩, fun h => hno.2 (by simp [h])⟩
  · rintro (hch | ⟨⟨before, f, after, rfl, hch, hno⟩, hne⟩)
    · exact ⟨events, e, [], rfl, hch, List.not_mem_nil⟩
    · refine ⟨before, f, after ++ [e], by simp, hch, fun h => ?_⟩
      rcases List.mem_append.1 h with h | h
      · exact hno h
      · exact hne (List.mem_singleton.1 h).symm

/-! ### One event -/

/-- The declaration of a name that an event does not change is the same afterwards. -/
theorem find?_apply (h : ¬ s.Changes e n) : (s.apply e).registry.find? n = s.registry.find? n := by
  cases e with
  | register d => exact s.registry.find?_register_of_ne h
  | unregister m =>
    by_cases hm : n = m
    · have hno : s.registry.contains m = false := by simpa using fun hc => h ⟨hm, hc⟩
      exact s.registry.find?_unregister_of_not_contains hno n
    · exact s.registry.find?_unregister_of_ne hm
  | resolve names => rfl
  | invalidate m => rfl
  | clear => rfl

/-- **An event keeps the cache trusted** up to the names that are pending after it. -/
theorem trusted_apply (h : s.cache.Trusted s.registry pending)
    (hp : ∀ n, n ∉ pending' → ¬ s.Changes e n ∧ (n ∉ pending ∨ e = .invalidate n)) :
    (s.apply e).cache.Trusted (s.apply e).registry pending' := by
  have hfind : ∀ n, n ∉ pending' → s.registry.find? n = (s.apply e).registry.find? n :=
    fun n hn => (find?_apply (hp n hn).1).symm
  -- the cache is only touched by the last three; the first two make pending what they change
  cases e with
  | register d =>
    exact h.change fun _ t _ ht => ⟨(hp t ht).2.resolve_right (by simp), hfind t ht⟩
  | unregister m =>
    exact h.change fun _ t _ ht => ⟨(hp t ht).2.resolve_right (by simp), hfind t ht⟩
  | resolve names =>
    exact (h.resolve names).change fun _ t _ ht => ⟨(hp t ht).2.resolve_right (by simp), rfl⟩
  | invalidate m =>
    -- what is still held does not include `m`, so `m` need not be pending for it
    refine (h.invalidate m).change fun {names type} hheld t htype ht => ⟨fun hpend => ?_, rfl⟩
    obtain rfl : m = t := by simpa using (hp t ht).2.resolve_left (not_not_intro hpend)
    exact (Cache.holds_invalidate hheld).2 htype
  | clear => exact Cache.trusted_empty _ _

/-! ### Whole runs -/

/-- **A run keeps the cache trusted**: whatever is cached and includes no pending name is up to date. -/
theorem trusted_run (r : Registry) (events : List Event) :
    ((fresh r).run events).cache.Trusted ((fresh r).run events).registry
      {n | (fresh r).Pending events n} := by
  induction events using List.reverseRecOn with
  | nil => exact Cache.trusted_empty r _
  | append_singleton events e ih =>
    rw [run_concat]
    refine trusted_apply ih fun n hn => ?_
    have hn : ¬ (fresh r).Pending (events ++ [e]) n := hn
    rw [pending_concat, not_or, not_and_or, not_not] at hn
    exact hn

/-- The events of a history of requests. -/
def requests (history : List (List Name)) : List Event := history.map .resolve

theorem registry_run_requests (s : Resolver) (history : List (List Name)) :
    (s.run (requests history)).registry = s.registry := by
  induction history generalizing s with
  | nil => rfl
  | cons names history ih => exact ih (s.apply (.resolve names))

/-- Requests leave nothing pending. -/
theorem not_pending_requests (s : Resolver) (history : List (List Name)) (n : Name) :
    ¬ s.Pending (requests history) n := by
  rintro ⟨before, e, after, heq, hch, -⟩
  have he : e ∈ requests history := by
    rw [heq]
    simp
  obtain ⟨names, -, rfl⟩ := List.mem_map.1 he
  exact hch

/-- After requests alone everything cached is up to date. -/
theorem trusted_requests (r : Registry) (history : List (List Name)) :
    ((fresh r).run (requests history)).cache.Trusted r ∅ := by
  have h := trusted_run r (requests history)
  rw [registry_run_requests] at h
  exact h.change fun _ t _ _ => ⟨not_pending_requests _ _ t, rfl⟩

end Resolver

end ContentTypes
