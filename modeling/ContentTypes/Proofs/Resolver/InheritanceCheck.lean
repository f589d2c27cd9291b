import ContentTypes.Proofs.Resolver.Room
import ContentTypes.Resolver.Inheritance

/-! # The inheritance check accepts exactly the sound requests

The check measures the height of every type above the request. Heights are right as soon as they are
written down (`Measured`): a height is the length of the longest chain that starts there, and everything
above a measured type is measured. So after a check that succeeds the whole closure is measured, which
makes it registered, free of cycles and shallow, and the count of visits bounds its size.

Conversely the guard has room for every visit on a sound set of types, so a measurement is refused only if
the request is not sound, and then what the error says is the case (`Registry.Justifies`): the walk stands at
the end of a way from a requested type, and every visit it has counted was of another registered type. Both
directions together are `checkInheritance_exact`. -/

namespace ContentTypes.Registry

open Visit VisitGuard

variable {r : Registry} {s : Set Name} {n : Name}

/-- `k` is the number of types on the longest chain from `n` upwards. -/
def IsHeight (r : Registry) (n : Name) (k : Nat) : Prop :=
  (∀ l, (n :: l).IsChain r.Extends → (n :: l).length ≤ k) ∧
    ∃ l, (n :: l).IsChain r.Extends ∧ (n :: l).length = k

/-- The heights written down are right, and what is above a measured type is measured. -/
structure Measured (r : Registry) (h : Heights) : Prop where
  isHeight : ∀ n k, h[n]? = some k → r.IsHeight n k
  registered : ∀ n k, h[n]? = some k → r.contains n = true
  closed : ∀ n k u, h[n]? = some k → r.Extends n u → ∃ j, h[u]? = some j

/-- `h'` keeps the heights of `h`. -/
def Keeps (h h' : Heights) : Prop := ∀ (n : Name) (k : Nat), h[n]? = some k → h'[n]? = some k

/-- Where the check stands: right heights, and every visit counted. -/
structure Measuring (r : Registry) (z : Set Name) (st : State Heights) : Prop where
  maxVisits : st.1.maxVisits = maxSupertypeVisits
  measured : r.Measured st.2
  counted : ∃ V, Counted V z (fun n => ∃ k, st.2[n]? = some k) st.1 ∧
    (∀ n, n ∈ st.1.visiting ∨ (∃ k, st.2[n]? = some k) → n ∈ V) ∧ V.length ≤ maxSupertypeVisits

/-- **What an error of the check says of a request**: an unregistered type is reached, or one on a cycle; a
requested type heads too long a way through different types, or the visits do not suffice. -/
inductive Justifies (r : Registry) (s : Set Name) : Error → Prop where
  | missing {n : Name} (hn : n ∈ r.closure s) (h : r.contains n = false) : Justifies r s (.noSuchType n)
  | circular {n : Name} (hn : n ∈ r.closure s) (h : Relation.TransGen r.Extends n n) :
    Justifies r s (.inheritanceCycle n)
  | tooDeep {n : Name} {l : List Name} (hn : n ∈ s) (hl : (n :: l).IsChain r.Extends)
    (hnodup : (n :: l).Nodup) (hlen : maxSupertypeDepth < (n :: l).length) :
    Justifies r s (.inheritanceTooDeep n)
  | tooMany {n : Name} (hn : n ∈ s)
    (h : (maxSupertypeVisits : ℕ∞) ≤ {t ∈ r.closure s | r.contains t = true}.encard) :
    Justifies r s (.inheritanceTooDeep n)

theorem Keeps.refl (h : Heights) : Keeps h h := fun _ _ hn => hn

theorem Keeps.trans {h h' h'' : Heights} (h1 : Keeps h h') (h2 : Keeps h' h'') : Keeps h h'' :=
  fun n k hn => h2 n k (h1 n k hn)

/-! ### Heights -/

theorem IsHeight.unique {j k : Nat} (hj : r.IsHeight n j) (hk : r.IsHeight n k) : j = k := by
  obtain ⟨l, hl, rfl⟩ := hj.2
  obtain ⟨m, hm, rfl⟩ := hk.2
  exact le_antisymm (hk.1 l hl) (hj.1 m hm)

/-- A type that has a height is on no cycle. -/
theorem IsHeight.acyclic {k : Nat} (h : r.IsHeight n k) : ¬ Relation.TransGen r.Extends n n := by
  intro hcycle
  obtain ⟨l, hl, hlen⟩ := exists_chain_of_cycle hcycle k
  have := h.1 l hl
  rw [List.length_cons] at this
  omega

/-- A type is one higher than the highest of its immediate supertypes. -/
theorem isHeight_succ {d : Declaration} {k : Nat} (hd : r.find? n = some d)
    (hle : ∀ u ∈ d.supertypes, ∃ j ≤ k, r.IsHeight u j)
    (hmax : k = 0 ∨ ∃ u ∈ d.supertypes, r.IsHeight u k) : r.IsHeight n (k + 1) := by
  constructor
  · rintro l hl
    cases l with
    | nil => simp
    | cons u l =>
      obtain ⟨⟨d', hd', hu⟩, hl⟩ := List.isChain_cons_cons.1 hl
      rw [hd] at hd'
      obtain rfl := Option.some.inj hd'
      obtain ⟨j, hj, hh⟩ := hle u hu
      have := hh.1 l hl
      simp only [List.length_cons] at this ⊢
      omega
  · rcases hmax with rfl | ⟨u, hu, hh⟩
    · exact ⟨[], List.isChain_singleton n, rfl⟩
    · obtain ⟨l, hl, hlen⟩ := hh.2
      refine ⟨u :: l, List.isChain_cons_cons.2 ⟨⟨d, hd, hu⟩, hl⟩, ?_⟩
      rw [List.length_cons, hlen]

/-- A type whose immediate supertypes are measured can be measured. -/
theorem Measured.insert {h : Heights} {d : Declaration} {k : Nat} (hm : r.Measured h)
    (hd : r.find? n = some d) (hle : ∀ u ∈ d.supertypes, ∃ j ≤ k, h[u]? = some j)
    (hmax : k = 0 ∨ ∃ u ∈ d.supertypes, h[u]? = some k) :
    r.Measured (h.insert n (k + 1)) ∧ Keeps h (h.insert n (k + 1)) := by
  have hheight : r.IsHeight n (k + 1) := by
    refine isHeight_succ hd (fun u hu => ?_) (hmax.imp id ?_)
    · obtain ⟨j, hj, hu⟩ := hle u hu
      exact ⟨j, hj, hm.isHeight u j hu⟩
    · rintro ⟨u, hu, huk⟩
      exact ⟨u, hu, hm.isHeight u k huk⟩
  -- a height that is written down already is the same one
  have hkeep : Keeps h (h.insert n (k + 1)) := fun m j hmj => by
    by_cases hne : n = m
    · subst hne
      rw [(hm.isHeight n j hmj).unique hheight]
      simp
    · simpa [Std.TreeMap.getElem?_insert, hne] using hmj
  have hcases : ∀ m j, (h.insert n (k + 1))[m]? = some j → (m = n ∧ j = k + 1) ∨ h[m]? = some j := by
    intro m j hmj
    rw [Std.TreeMap.getElem?_insert] at hmj
    split at hmj
    · next heq =>
      exact Or.inl ⟨(Std.compare_eq_iff_eq.1 heq).symm, (Option.some.inj hmj).symm⟩
    · exact Or.inr hmj
  refine ⟨⟨fun m j hmj => ?_, fun m j hmj => ?_, fun m j u hmj hu => ?_⟩, hkeep⟩
  · rcases hcases m j hmj with ⟨rfl, rfl⟩ | hmj
    · exact hheight
    · exact hm.isHeight m j hmj
  · rcases hcases m j hmj with ⟨rfl, rfl⟩ | hmj
    · exact contains_iff.2 ⟨d, hd⟩
    · exact hm.registered m j hmj
  · rcases hcases m j hmj with ⟨rfl, rfl⟩ | hmj
    · obtain ⟨d', hd', hu⟩ := hu
      rw [hd] at hd'
      obtain rfl := Option.some.inj hd'
      obtain ⟨i, -, hi⟩ := hle u hu
      exact ⟨i, hkeep u i hi⟩
    · obtain ⟨i, hi⟩ := hm.closed m j u hmj hu
      exact ⟨i, hkeep u i hi⟩

/-- What is above a measured type is measured. -/
theorem Measured.closure {h : Heights} (hm : r.Measured h) (hs : ∀ n ∈ s, ∃ k, h[n]? = some k) :
    ∀ t ∈ r.closure s, ∃ k, h[t]? = some k := by
  rintro t ⟨n, hn, hnt⟩
  induction hnt with
  | refl => exact hs n hn
  | tail _ hu ih =>
    obtain ⟨k, hk⟩ := ih
    exact hm.closed _ k _ hk hu

/-- A measured type heads a chain of its height that meets no type twice. -/
theorem Measured.exists_chain {h : Heights} {k : Nat} (hm : r.Measured h) (hn : h[n]? = some k) :
    ∃ l, (n :: l).IsChain r.Extends ∧ (n :: l).Nodup ∧ (n :: l).length = k := by
  obtain ⟨l, hl, hlen⟩ := (hm.isHeight n k hn).2
  refine ⟨l, hl, nodup_of_isChain hl fun t ht => ?_, hlen⟩
  have habove : t ∈ r.closure {n} := by
    rcases List.mem_cons.1 ht with rfl | ht
    · exact r.subset_closure _ rfl
    · exact ⟨n, rfl, (transGen_of_isChain hl ht).to_reflTransGen⟩
  obtain ⟨j, hj⟩ := hm.closure (s := {n}) (by rintro m rfl; exact ⟨k, hn⟩) t habove
  exact (hm.isHeight t j hj).acyclic

/-! ### Measuring the immediate supertypes -/

/-- The greatest height of `names`, all of them measured. -/
def Greatest (names : List Name) (k : Nat) (h : Heights) : Prop :=
  (∀ n ∈ names, ∃ j ≤ k, h[n]? = some j) ∧ (k = 0 ∨ ∃ n ∈ names, h[n]? = some k)

theorem greatestHeight_after {z : Set Name} {measure : Name → Visit Heights Nat}
    {failed : Error → Prop} {names : List Name} {st : State Heights} (hst : r.Measuring z st)
    (hmeasure : ∀ n ∈ names, ∀ st', r.Measuring z st' → st.1.Level st'.1 →
      After (measure n) st' (fun k st'' => r.Measuring z st'' ∧ st'.1.Level st''.1 ∧
        Keeps st'.2 st''.2 ∧ st''.2[n]? = some k) fun x _ => failed x) :
    After (greatestHeight measure names) st (fun k st' => r.Measuring z st' ∧ st.1.Level st'.1 ∧
      Keeps st.2 st'.2 ∧ Greatest names k st'.2) fun x _ => failed x := by
  -- the names measured so far are those in front of the rest
  refine (after_foldlM (fun rest k st' => r.Measuring z st' ∧ st.1.Level st'.1 ∧
    Keeps st.2 st'.2 ∧ ∃ done, names = done ++ rest ∧ Greatest done k st'.2)
    (fun n rest k st' => ?_) names 0 st ?_).mono ?_ fun _ _ h => h
  · rintro ⟨hst', hlev, hkeep, done, hnames, hle, hmax⟩
    have hn : n ∈ names := by rw [hnames]; simp
    rw [after_bind]
    refine (hmeasure n hn st' hst' hlev).mono ?_ fun _ _ h => h
    rintro j st'' ⟨hst'', hlev', hkeep', hj⟩
    refine ⟨hst'', hlev.trans hlev', hkeep.trans hkeep', done ++ [n], by simp [hnames], ?_, ?_⟩
    · intro m hm
      rcases List.mem_append.1 hm with hm | hm
      · obtain ⟨i, hi, him⟩ := hle m hm
        exact ⟨i, le_max_of_le_left hi, hkeep' m i him⟩
      · obtain rfl := List.mem_singleton.1 hm
        exact ⟨j, le_max_right k j, hj⟩
    · rcases le_total k j with hkj | hkj
      · rw [max_eq_right hkj]
        exact Or.inr ⟨n, by simp, hj⟩
      · rw [max_eq_left hkj]
        refine hmax.imp id ?_
        rintro ⟨m, hm, hmk⟩
        exact ⟨m, List.mem_append_left _ hm, hkeep' m k hmk⟩
  · exact ⟨hst, .refl st.1, .refl st.2, [], rfl, by simp, Or.inl rfl⟩
  · rintro k st' ⟨hst', hlev, hkeep, done, hnames, hg⟩
    rw [List.append_nil] at hnames
    exact ⟨hst', hlev, hkeep, hnames ▸ hg⟩

/-! ### Measuring one type -/

/-- The guard admits a name that is not measured yet and counts the visit. -/
theorem Measuring.during {z : Set Name} {g : VisitGuard Name} {h : Heights}
    (hst : r.Measuring z (g, h)) (hn : n ∈ z) (hv : n ∉ g.visiting) (hnew : ¬ ∃ k, h[n]? = some k)
    (hroom : min (g.visits + 1) visitCap ≤ g.maxVisits) : r.Measuring z (g.during n, h) := by
  obtain ⟨V, hV, hall, hlen⟩ := hst.counted
  have hmax : g.maxVisits = maxSupertypeVisits := hst.maxVisits
  have hcap : maxSupertypeVisits < visitCap := by decide
  have hvisits : V.length = g.visits := hV.length
  -- below the cap a visit is counted: the room left keeps the count from saturating
  have hcounted := hV.during hn hv hnew (show g.visits < visitCap by omega)
  refine ⟨hmax, hst.measured, n :: V, hcounted, fun m hm => ?_, ?_⟩
  · rcases hm with hm | hm
    · rcases List.mem_cons.1 hm with rfl | hm
      · exact List.mem_cons_self
      · exact List.mem_cons_of_mem n (hall m (Or.inl hm))
    · exact List.mem_cons_of_mem n (hall m (Or.inr hm))
  · rw [List.length_cons]
    omega

/-- The visit of `n` ends with its height written down. -/
theorem Measuring.leave {z : Set Name} {g g' : VisitGuard Name} {h : Heights} {d : Declaration} {k : Nat}
    (hst : r.Measuring z (g', h)) (hg : (g.during n).Level g') (hd : r.find? n = some d)
    (hgreatest : Greatest d.supertypes k h) :
    r.Measuring z (g'.leave n, h.insert n (k + 1)) ∧ Keeps h (h.insert n (k + 1)) := by
  obtain ⟨V, hV, hall, hlen⟩ := hst.counted
  obtain ⟨hm, hkeep⟩ := hst.measured.insert hd hgreatest.1 hgreatest.2
  have hself : (h.insert n (k + 1))[n]? = some (k + 1) := by simp
  have hvisiting : n ∈ g'.visiting := by rw [hg.visiting]; exact List.mem_cons_self
  refine ⟨⟨hst.maxVisits, hm, V, ?_, fun m hm => ?_, hlen⟩, hkeep⟩
  · exact (hV.mono fun m ⟨j, hj⟩ => ⟨j, hkeep m j hj⟩).leave hg ⟨k + 1, hself⟩
  · rcases hm with hm | ⟨j, hj⟩
    · exact hall m (Or.inl (List.mem_of_mem_erase hm))
    · rw [Std.TreeMap.getElem?_insert] at hj
      split at hj
      · next heq =>
        obtain rfl := Std.compare_eq_iff_eq.1 heq
        exact hall n (Or.inl hvisiting)
      · exact hall m (Or.inr ⟨j, hj⟩)

/-- On a sound set of types the guard has room for a name that is not measured yet. -/
theorem Measuring.enter {g : VisitGuard Name} {h : Heights} (hst : r.Measuring (r.closure s) (g, h))
    (hs : r.Sound s) (hn : n ∈ r.closure s) (hready : r.Ready g n) (hnew : ¬ ∃ k, h[n]? = some k) :
    g.enter n = (.entered, g.during n) := by
  obtain ⟨V, hV, -, -⟩ := hst.counted
  exact (hready.admitted hs hn hst.maxVisits hV hnew).1

/-- The visits of a walk were of different registered types above the request. -/
theorem Measuring.visits_le {requested : Name} {g : VisitGuard Name} {h : Heights}
    (hst : r.Measuring (r.closure s) (g, h)) (htrail : r.Trail requested g n) :
    (g.visits : ℕ∞) ≤ {t ∈ r.closure s | r.contains t = true}.encard := by
  obtain ⟨V, hV, -, -⟩ := hst.counted
  rw [← hV.length]
  refine length_le_encard hV.nodup fun v hv => ⟨hV.mem v hv, ?_⟩
  rcases hV.accounted v hv with hv | ⟨k, hk⟩
  · exact htrail.registered hv
  · exact hst.measured.registered v k hk

/-- **A refused visit** is that of an unsound request, and what the refusal says is the case. -/
theorem Measuring.refused {requested : Name} {g g' : VisitGuard Name} {h : Heights} {a : Admission}
    (hst : r.Measuring (r.closure s) (g, h)) (hreq : requested ∈ s) (htrail : r.Trail requested g n)
    (hnew : ¬ ∃ k, h[n]? = some k) (hg : g.enter n = (a, g')) (ha : a ≠ .entered) :
    ¬ r.Sound s ∧
      r.Justifies s (if a = .cycle then .inheritanceCycle n else .inheritanceTooDeep requested) := by
  have hn := htrail.mem_closure hreq
  constructor
  · intro hs
    rw [hst.enter hs hn (htrail.ready hs hreq) hnew] at hg
    exact ha (Prod.mk.inj hg).1.symm
  · rcases enter_refused hg ha with ⟨rfl, hspent⟩ | ⟨rfl, hv⟩ | ⟨rfl, hv, hdeep⟩
    · -- the budget is spent on the visits made so far
      have hmax : g.maxVisits = maxSupertypeVisits := hst.maxVisits
      have hvisits : maxSupertypeVisits ≤ g.visits := by omega
      exact .tooMany hreq ((Nat.cast_le.2 hvisits).trans (hst.visits_le htrail))
    · exact .circular hn (htrail.below hv)
    · -- the way to `n` is too long
      obtain ⟨w, hw, hchain⟩ := htrail.walk (List.isChain_singleton n)
      have hnodup : (g.visiting.reverse ++ [n]).Nodup := by
        rw [List.nodup_append]
        refine ⟨List.nodup_reverse.2 htrail.nodup, List.nodup_singleton n, fun v hv' u hu heq => ?_⟩
        rw [List.mem_singleton.1 hu] at heq
        exact hv (heq ▸ List.mem_reverse.1 hv')
      refine .tooDeep hreq hchain (hw ▸ hnodup) ?_
      rw [← hw, List.length_append, List.length_reverse, ← htrail.depth, ← htrail.maxDepth]
      exact Nat.lt_succ_of_le hdeep

/-- **Measuring a type** writes down its height. It fails only if the request is unsound, and says why. -/
theorem chainHeight_after {requested : Name} (hreq : requested ∈ s) :
    ∀ (levels : Nat) {n : Name} {st : State Heights}, r.Measuring (r.closure s) st →
      r.Trail requested st.1 n → maxSupertypeDepth < levels + st.1.depth →
    After (r.chainHeight requested levels n) st (fun k st' => r.Measuring (r.closure s) st' ∧
      st.1.Level st'.1 ∧ Keeps st.2 st'.2 ∧ st'.2[n]? = some k)
      fun x _ => ¬ r.Sound s ∧ r.Justifies s x := by
  intro levels
  induction levels with
  | zero =>
    intro n st hst htrail hlevels
    unfold chainHeight
    rw [after_bind, after_read]
    split
    · next k hk => exact ⟨hst, .refl _, .refl _, hk⟩
    · -- the guard would have ended the walk before
      have := htrail.fits
      rw [htrail.maxDepth] at this
      omega
  | succ levels ih =>
    rintro n ⟨g, h⟩ hst htrail hlevels
    unfold chainHeight
    rw [after_bind, after_read]
    split
    · next k hk => exact ⟨hst, .refl _, .refl _, hk⟩
    next hnone =>
    have hn := htrail.mem_closure hreq
    have hnew : ¬ ∃ k, h[n]? = some k := by
      rintro ⟨k, hk⟩
      rw [hnone] at hk
      cases hk
    have hwithin : After (within n requested (r.supertypeHeight (r.chainHeight requested levels) n))
        (g, h) (fun k st' => ∃ g' d, st'.1 = g'.leave n ∧ (g.during n).Level g' ∧
          r.Measuring (r.closure s) (g', st'.2) ∧ Keeps h st'.2 ∧ r.find? n = some d ∧
          Greatest d.supertypes k st'.2) fun x _ => ¬ r.Sound s ∧ r.Justifies s x := by
      refine after_within (fun g' hg => ?_) fun a g' hg ha => hst.refused hreq htrail hnew hg ha
      -- the immediate supertypes, under the guard during the visit
      obtain ⟨rfl, hv, hdepth, hroom⟩ := enter_entered hg
      have hst' := hst.during hn hv hnew hroom
      unfold supertypeHeight
      split
      · next hd =>
        have hmissing : r.contains n = false := by
          rw [Bool.eq_false_iff]
          intro hreg
          obtain ⟨d, hd'⟩ := contains_iff.1 hreg
          rw [hd] at hd'
          cases hd'
        refine ⟨fun hs => ?_, .missing hn hmissing⟩
        rw [hs.registered n hn] at hmissing
        cases hmissing
      · next d hd =>
        refine (greatestHeight_after hst' fun u hu st'' hst'' hlev => ?_).mono ?_ fun _ _ h => h
        · have hext : r.Extends n u := ⟨d, hd, hu⟩
          refine ih hst'' ((htrail.step hv hdepth hext).level hlev) ?_
          rw [hlev.depth]
          simp only [VisitGuard.during] at hlevels ⊢
          omega
        · rintro k ⟨g', h'⟩ ⟨hst'', hlev, hkeep, hgreatest⟩
          exact ⟨g', d, rfl, hlev, hst'', hkeep, hd, hgreatest⟩
    rw [after_bind]
    refine hwithin.mono ?_ fun _ _ h => h
    rintro k ⟨-, h'⟩ ⟨g', d, rfl, hlev, hst', hkeep, hd, hgreatest⟩
    obtain ⟨hst'', hkeep'⟩ := hst'.leave hlev hd hgreatest
    exact ⟨hst'', hlev.leave, hkeep.trans hkeep', by simp⟩

/-! ### Checking a request -/

/-- A guard between two requested types. -/
theorem ready_of_sound {g : VisitGuard Name} (hs : r.Sound s) (hn : n ∈ s)
    (hg : VisitGuard.supertypes.Level g) : r.Ready g n where
  below v hv := by rw [hg.visiting] at hv; cases hv
  room l hl := by
    rw [hg.depth, hg.maxDepth]
    simpa [VisitGuard.supertypes] using hs.shallow n hn l hl

theorem checkChain_after {st : State Heights} (hst : r.Measuring (r.closure s) st)
    (hlev : VisitGuard.supertypes.Level st.1) (hn : n ∈ s) :
    After (r.checkChain n) st (fun _ st' => r.Measuring (r.closure s) st' ∧
      VisitGuard.supertypes.Level st'.1 ∧ Keeps st.2 st'.2 ∧
      ∃ k ≤ maxSupertypeDepth, st'.2[n]? = some k) fun x _ => ¬ r.Sound s ∧ r.Justifies s x := by
  unfold checkChain
  rw [after_bind]
  refine (chainHeight_after hn (maxSupertypeDepth + 1) hst (.start hlev) (by omega)).mono ?_
    fun _ _ h => h
  rintro k st' ⟨hst', hlev', hkeep, hk⟩
  split
  · -- measured supertypes hide from the guard how high the chain is
    next hdeep =>
    obtain ⟨l, hl, hnodup, hlen⟩ := hst'.measured.exists_chain hk
    refine ⟨fun hs => ?_, .tooDeep hn hl hnodup (hlen.symm ▸ hdeep)⟩
    have := hs.shallow n hn l hl
    omega
  · next hdeep => exact ⟨hst', hlev.trans hlev', hkeep, k, Nat.le_of_not_lt hdeep, hk⟩

/-- Once every requested type is measured and none is too high, the request is sound. -/
theorem sound_of_measured {st : State Heights} (hst : r.Measuring (r.closure s) st)
    (hs : ∀ n ∈ s, ∃ k ≤ maxSupertypeDepth, st.2[n]? = some k) : r.Sound s := by
  have hall := hst.measured.closure fun n hn => (hs n hn).imp fun _ h => h.2
  obtain ⟨V, -, hV, hlen⟩ := hst.counted
  refine ⟨fun t ht => ?_, fun t ht hcycle => ?_, fun n hn l hl => ?_, ?_⟩
  · obtain ⟨k, hk⟩ := hall t ht
    exact hst.measured.registered t k hk
  · obtain ⟨k, hk⟩ := hall t ht
    exact (hst.measured.isHeight t k hk).acyclic hcycle
  · obtain ⟨k, hk, hnk⟩ := hs n hn
    exact ((hst.measured.isHeight n k hnk).1 l hl).trans hk
  · have hsub : r.closure s ⊆ {t | t ∈ V} := fun t ht => hV t (Or.inr (hall t ht))
    exact (Set.encard_le_encard hsub).trans (encard_le_of_length hlen)

theorem measuring_start (z : Set Name) : r.Measuring z (.supertypes, {}) := by
  have hempty : ∀ (n : Name) (k : Nat), ({} : Heights)[n]? ≠ some k := by simp
  refine ⟨rfl, ⟨fun n k h => absurd h (hempty n k), fun n k h => absurd h (hempty n k),
    fun n k _ h => absurd h (hempty n k)⟩, [], ⟨List.nodup_nil, rfl, by simp, by simp⟩, ?_, by simp⟩
  rintro n (h | ⟨k, hk⟩)
  · cases h
  · exact absurd hk (hempty n k)

/-- After the check the request is sound, or it is not and the error says why. -/
theorem checkInheritance_after (r : Registry) (names : List Name) :
    After ((NameSet.ofList names).toList.forM r.checkChain) (.supertypes, ({} : Heights))
      (fun _ _ => r.Sound {n | n ∈ names})
      fun x _ => ¬ r.Sound {n | n ∈ names} ∧ r.Justifies {n | n ∈ names} x := by
  have hmem : ∀ n, n ∈ (NameSet.ofList names).toList ↔ n ∈ names := fun n => NameSet.mem_ofList
  -- a requested type has been measured or is still to come
  refine (after_forM (fun rest st => r.Measuring (r.closure {n | n ∈ names}) st ∧
    VisitGuard.supertypes.Level st.1 ∧ (∀ n ∈ rest, n ∈ names) ∧
    ∀ n ∈ names, n ∈ rest ∨ ∃ k ≤ maxSupertypeDepth, st.2[n]? = some k)
    (fun n rest st => ?_) _ _ ?_).mono ?_ fun _ _ h => h
  · rintro ⟨hst, hlev, hrest, hdone⟩
    refine (checkChain_after hst hlev (hrest n List.mem_cons_self)).mono ?_ fun _ _ h => h
    rintro - st' ⟨hst', hlev', hkeep, k, hk, hnk⟩
    refine ⟨hst', hlev', fun m hm => hrest m (List.mem_cons_of_mem n hm), fun m hm => ?_⟩
    rcases hdone m hm with hm | ⟨j, hj, hmj⟩
    · rcases List.mem_cons.1 hm with rfl | hm
      · exact Or.inr ⟨k, hk, hnk⟩
      · exact Or.inl hm
    · exact Or.inr ⟨j, hj, hkeep m j hmj⟩
  · exact ⟨measuring_start _, .refl _, fun n hn => (hmem n).1 hn, fun n hn => Or.inl ((hmem n).2 hn)⟩
  · rintro - st ⟨hst, -, -, hdone⟩
    exact sound_of_measured hst fun n hn => (hdone n hn).resolve_left List.not_mem_nil

theorem checkInheritance_error {names : List Name} {x : Error}
    (h : r.checkInheritance names = .error x) :
    ¬ r.Sound {n | n ∈ names} ∧ r.Justifies {n | n ∈ names} x := by
  obtain ⟨-, herr⟩ := after_start (r.checkInheritance_after names)
  obtain ⟨-, hx⟩ := herr x h
  exact hx

/-- The check accepts a request exactly if it is sound. -/
theorem checkInheritance_ok_iff {names : List Name} :
    r.checkInheritance names = .ok () ↔ r.Sound {n | n ∈ names} := by
  constructor
  · intro h
    obtain ⟨hok, -⟩ := after_start (r.checkInheritance_after names)
    obtain ⟨-, hs⟩ := hok () h
    exact hs
  · intro hs
    cases h : r.checkInheritance names with
    | ok a => rfl
    | error e => exact absurd hs (checkInheritance_error h).1

/-- **The inheritance check is exact.** It accepts a request exactly if everything above it is registered and
on no cycle, no chain from a requested type is too long and the visits suffice; and the error of a request
that it refuses says what is the case. -/
theorem checkInheritance_exact (r : Registry) (names : List Name) :
    (r.checkInheritance names = .ok () ↔ r.Sound {n | n ∈ names}) ∧
      ∀ x, r.checkInheritance names = .error x → r.Justifies {n | n ∈ names} x :=
  ⟨checkInheritance_ok_iff, fun _ h => (checkInheritance_error h).2⟩

/-- Drafts are pages, which are not registered, or are drafts in their turn. -/
example : (registerAll {} [{ name := "draft", supertypes := ["page"] }]).checkInheritance ["draft"] =
      .error (.noSuchType "page") ∧
    (registerAll {} [{ name := "draft", supertypes := ["page"] },
      { name := "page", supertypes := ["draft"] }]).checkInheritance ["page"] =
      .error (.inheritanceCycle "page") := by
  decide +kernel

end ContentTypes.Registry
