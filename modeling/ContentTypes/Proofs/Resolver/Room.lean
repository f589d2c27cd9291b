import ContentTypes.Proofs.Registry.Supertypes
import ContentTypes.Proofs.Resolver.After

/-! # Room for a visit

A guard admits a name if the name is not being visited, the walk is not too deep and there are visits left.
On a sound set of types this follows from two facts about the walk: every type being visited lies below the
name (`Ready`), and the visits so far were of different names, each under way or settled (`Counted`).

A walk that knows the whole way it has come, from a requested type along immediate supertypes (`Trail`), can
tell even when the types are not sound why it is not admitted. -/

namespace ContentTypes

open VisitGuard

namespace Registry

/-- The walk has come to `n` from below, and a chain from `n` upwards fits in. -/
structure Ready (r : Registry) (g : VisitGuard Name) (n : Name) : Prop where
  below : ∀ v ∈ g.visiting, Relation.TransGen r.Extends v n
  room : ∀ l, (n :: l).IsChain r.Extends → g.depth + (n :: l).length ≤ g.maxDepth

variable {r : Registry} {g g' : VisitGuard Name} {n u : Name}

theorem Ready.level (h : r.Ready g n) (hg : g.Level g') : r.Ready g' n :=
  ⟨by rw [hg.visiting]; exact h.below, by rw [hg.depth, hg.maxDepth]; exact h.room⟩

theorem Ready.not_visiting (h : r.Ready g n) (hn : ¬ Relation.TransGen r.Extends n n) :
    n ∉ g.visiting :=
  fun hv => hn (h.below n hv)

theorem Ready.depth_lt (h : r.Ready g n) : g.depth < g.maxDepth := by
  have := h.room [] (List.isChain_singleton n)
  simpa using this

/-- From `n` the walk goes on to its immediate supertypes. -/
theorem Ready.step (h : r.Ready g n) (hu : r.Extends n u) : r.Ready (g.during n) u where
  below v hv := by
    rcases List.mem_cons.1 hv with rfl | hv
    · exact .single hu
    · exact (h.below v hv).tail hu
  room l hl := by
    have := h.room (u :: l) (List.isChain_cons_cons.2 ⟨hu, hl⟩)
    simp only [during, List.length_cons] at this ⊢
    omega

/-! ### The way a walk has come -/

/-- The types being visited are the way from `requested` to `n`, one immediate supertype after the other. -/
structure Trail (r : Registry) (requested : Name) (g : VisitGuard Name) (n : Name) : Prop where
  starts : (g.visiting.reverse ++ [n]).head? = some requested
  chain : (g.visiting.reverse ++ [n]).IsChain r.Extends
  nodup : g.visiting.Nodup
  depth : g.depth = g.visiting.length
  fits : g.depth ≤ g.maxDepth
  maxDepth : g.maxDepth = maxSupertypeDepth

namespace Trail

variable {requested v : Name} {s : Set Name} {l : List Name}

theorem start (hg : VisitGuard.supertypes.Level g) : r.Trail n g n := by
  obtain ⟨hv, hd, hm, -⟩ := hg
  simp only [VisitGuard.supertypes] at hv hd hm
  refine ⟨?_, ?_, ?_, ?_, ?_, hm⟩
  · rw [hv]; rfl
  · rw [hv]; exact List.isChain_singleton n
  · rw [hv]; exact List.nodup_nil
  · rw [hv, hd]; rfl
  · rw [hd]; exact Nat.zero_le _

theorem level (h : r.Trail requested g n) (hg : g.Level g') : r.Trail requested g' n := by
  obtain ⟨h1, h2, h3, h4, h5, h6⟩ := h
  rw [← hg.visiting] at h1 h2 h3 h4
  rw [← hg.depth] at h4 h5
  rw [← hg.maxDepth] at h5 h6
  exact ⟨h1, h2, h3, h4, h5, h6⟩

/-- The way goes on along any chain from `n`. -/
theorem walk (h : r.Trail requested g n) (hl : (n :: l).IsChain r.Extends) :
    ∃ w, g.visiting.reverse ++ n :: l = requested :: w ∧ (requested :: w).IsChain r.Extends := by
  have hchain := List.isChain_split.2 ⟨h.chain, hl⟩
  have hhead : (g.visiting.reverse ++ n :: l).head? = some requested := by
    rw [List.append_cons, List.head?_append, h.starts]
    rfl
  obtain ⟨w, hw⟩ := List.head?_eq_some_iff.1 hhead
  exact ⟨w, hw, hw ▸ hchain⟩

/-- Every type being visited lies below `n`. -/
theorem below (h : r.Trail requested g n) (hv : v ∈ g.visiting) : Relation.TransGen r.Extends v n := by
  have hpairs := (h.chain.imp fun _ _ => Relation.TransGen.single).pairwise
  exact (List.pairwise_append.1 hpairs).2.2 v (List.mem_reverse.2 hv) n (List.mem_singleton_self n)

/-- What is being visited has supertypes, so it is registered. -/
theorem registered (h : r.Trail requested g n) (hv : v ∈ g.visiting) : r.contains v = true := by
  obtain ⟨u, ⟨d, hd, -⟩, -⟩ := Relation.TransGen.head'_iff.1 (h.below hv)
  exact contains_iff.2 ⟨d, hd⟩

theorem mem_closure (h : r.Trail requested g n) (hs : requested ∈ s) : n ∈ r.closure s := by
  obtain ⟨w, hw, hchain⟩ := h.walk (List.isChain_singleton n)
  have hn : n ∈ requested :: w := by rw [← hw]; simp
  rcases List.mem_cons.1 hn with rfl | hn
  · exact r.subset_closure s hs
  · exact ⟨requested, hs, (transGen_of_isChain hchain hn).to_reflTransGen⟩

/-- Once `n` is admitted, the way goes on to its immediate supertypes. -/
theorem step (h : r.Trail requested g n) (hn : n ∉ g.visiting) (hd : g.depth < g.maxDepth)
    (hu : r.Extends n u) : r.Trail requested (g.during n) u := by
  obtain ⟨w, hw, hchain⟩ := h.walk (List.isChain_cons_cons.2 ⟨hu, List.isChain_singleton u⟩)
  have hway : (g.during n).visiting.reverse ++ [u] = requested :: w := by
    rw [← hw]
    simp [during]
  refine ⟨?_, hway ▸ hchain, List.nodup_cons.2 ⟨hn, h.nodup⟩, ?_, hd, h.maxDepth⟩
  · rw [hway]; rfl
  · simp [during, h.depth]

/-- On sound types there is room to go on from the requested ones. -/
theorem ready (h : r.Trail requested g n) (hs : r.Sound s) (hreq : requested ∈ s) : r.Ready g n where
  below _ hv := h.below hv
  room l hl := by
    obtain ⟨w, hw, hchain⟩ := h.walk hl
    have hlen := hs.shallow requested hreq w hchain
    rw [← hw, List.length_append, List.length_reverse, ← h.depth] at hlen
    rwa [h.maxDepth]

end Trail

end Registry

/-! ### Counting visits -/

/-- The visits so far were of the different names `V` of `z`, each under way or settled. -/
structure Counted (V : List Name) (z : Set Name) (settled : Name → Prop) (g : VisitGuard Name) :
    Prop where
  nodup : V.Nodup
  length : V.length = g.visits
  mem : ∀ v ∈ V, v ∈ z
  accounted : ∀ v ∈ V, v ∈ g.visiting ∨ settled v

namespace Counted

variable {V : List Name} {z : Set Name} {settled settled' : Name → Prop} {g g' : VisitGuard Name}
  {n : Name} {k : ℕ}

theorem not_mem (h : Counted V z settled g) (hv : n ∉ g.visiting) (hs : ¬ settled n) : n ∉ V :=
  fun hn => (h.accounted n hn).elim hv hs

/-- A new name of a set of at most `k` names finds less than `k` visits made. -/
theorem visits_lt (h : Counted V z settled g) (hz : z.encard ≤ k) (hn : n ∈ z)
    (hv : n ∉ g.visiting) (hs : ¬ settled n) : g.visits < k := by
  have := Registry.length_le_of_encard hz (List.nodup_cons.2 ⟨h.not_mem hv hs, h.nodup⟩) fun v hv => by
    rcases List.mem_cons.1 hv with rfl | hv
    · exact hn
    · exact h.mem v hv
  rwa [List.length_cons, h.length] at this

theorem during (h : Counted V z settled g) (hn : n ∈ z) (hv : n ∉ g.visiting) (hs : ¬ settled n)
    (hcap : g.visits < visitCap) : Counted (n :: V) z settled (g.during n) where
  nodup := List.nodup_cons.2 ⟨h.not_mem hv hs, h.nodup⟩
  length := by
    simp only [List.length_cons, h.length, VisitGuard.during]
    omega
  mem v hv := by
    rcases List.mem_cons.1 hv with rfl | hv
    · exact hn
    · exact h.mem v hv
  accounted v hv := by
    rcases List.mem_cons.1 hv with rfl | hv
    · exact Or.inl List.mem_cons_self
    · exact (h.accounted v hv).imp (List.mem_cons_of_mem n) id

/-- Names stay accounted for when more are settled. -/
theorem mono (h : Counted V z settled g) (hs : ∀ v, settled v → settled' v) : Counted V z settled' g :=
  ⟨h.nodup, h.length, h.mem, fun v hv => (h.accounted v hv).imp id (hs v)⟩

/-- A visit ends with its name settled. -/
theorem leave (h : Counted V z settled g') (hg : (g.during n).Level g') (hn : settled n) :
    Counted V z settled (g'.leave n) where
  nodup := h.nodup
  length := h.length
  mem := h.mem
  accounted v hv := by
    rcases h.accounted v hv with hv | hv
    · rw [hg.visiting] at hv
      rcases List.mem_cons.1 hv with rfl | hv
      · exact Or.inr hn
      · exact Or.inl (by rw [hg.leave.visiting]; exact hv)
    · exact Or.inr hv

end Counted

/-- **Room on sound types**: a name that is neither being visited nor settled is admitted, and its visit is
counted. -/
theorem Registry.Ready.admitted {r : Registry} {s : Set Name} {V : List Name} {settled : Name → Prop}
    {g : VisitGuard Name} {n : Name} (hready : r.Ready g n) (hs : r.Sound s) (hn : n ∈ r.closure s)
    (hmax : g.maxVisits = maxSupertypeVisits) (hV : Counted V (r.closure s) settled g) (hnew : ¬ settled n) :
    g.enter n = (.entered, g.during n) ∧ Counted (n :: V) (r.closure s) settled (g.during n) := by
  have hv := hready.not_visiting (hs.acyclic n hn)
  have hvisits : g.visits < maxSupertypeVisits := hV.visits_lt hs.few hn hv hnew
  have hcap : g.visits < visitCap := hvisits.trans (by decide)
  refine ⟨enter_of_room hv hready.depth_lt ?_, hV.during hn hv hnew hcap⟩
  rw [hmax]
  exact hvisits

end ContentTypes
