import ContentTypes.Proofs.Resolver.After
import ContentTypes.Resolver

/-! # Every visit is left

A visit is `Balanced` if its guard is at the same place of the walk after it as before it: the same names are
being visited, and the depth is the same, whether the visit gives something or fails, and whatever state and
guard it starts from. Only `within` moves the guard, and it leaves a name however its body ends
(`Balanced.within`); there is one rule for each other way in which visits are built.

So the walks of the inheritance check and of building are balanced at all their levels, and those with a fresh
guard end with nothing being visited (`walks_balanced`). -/

namespace ContentTypes

open VisitGuard

namespace Visit

variable {σ α β : Type} {v : Visit σ α}

/-- **A balanced visit** ends at the place of the walk where it started. -/
def Balanced (v : Visit σ α) : Prop := ∀ s : State σ, s.1.Level (v.run s).2.1

/-- Balance, as what holds after the visit. -/
theorem balanced_iff : Balanced v ↔
    ∀ s, After v s (fun _ s' => s.1.Level s'.1) fun _ s' => s.1.Level s'.1 := by
  refine forall_congr' fun s => ?_
  unfold After
  generalize v.run s = out
  obtain ⟨outcome, s'⟩ := out
  cases outcome <;> rfl

/-! ### Rules -/

theorem balanced_pure (a : α) : Balanced (pure a : Visit σ α) := fun s => Level.refl s.1

theorem balanced_throw (e : Error) : Balanced (throw e : Visit σ α) := fun s => Level.refl s.1

theorem balanced_read (f : σ → α) : Balanced (read f) := fun s => Level.refl s.1

theorem balanced_change (f : σ → α × σ) : Balanced (change f) := fun s => Level.refl s.1

theorem Balanced.bind (hv : Balanced v) {f : α → Visit σ β} (hf : ∀ a, Balanced (f a)) :
    Balanced (v >>= f) := by
  refine balanced_iff.2 fun s => after_bind.2 ?_
  refine (balanced_iff.1 hv s).mono (fun a s' hs' => ?_) fun _ _ hs' => hs'
  exact (balanced_iff.1 (hf a) s').mono (fun _ _ h => hs'.trans h) fun _ _ h => hs'.trans h

/-- **A visit of a name is left again**, if its body is balanced; a refused one was not entered. -/
theorem Balanced.within (hv : Balanced v) (name blamed : Name) : Balanced (within name blamed v) := by
  refine balanced_iff.2 fun s => after_within (fun g hg => ?_) fun a g hg ha => ?_
  · obtain ⟨rfl, -⟩ := enter_entered hg
    exact (balanced_iff.1 hv (s.1.during name, s.2)).mono (fun _ _ h => h.leave) fun _ _ h => h.leave
  · have hcounted : (s.1.enter name).2 = s.1.counted := enter_snd_of_refused (by rwa [hg])
    rw [hg] at hcounted
    subst hcounted
    exact ⟨rfl, rfl, rfl, rfl⟩

theorem Balanced.foldlM {f : β → α → Visit σ β} (hf : ∀ b a, Balanced (f b a)) :
    ∀ (l : List α) (b : β), Balanced (l.foldlM f b)
  | [], b => balanced_pure b
  | a :: l, b => by
    rw [List.foldlM_cons]
    exact (hf b a).bind fun b' => Balanced.foldlM hf l b'

theorem Balanced.forM {f : α → Visit σ Unit} (hf : ∀ a, Balanced (f a)) (l : List α) : Balanced (l.forM f) := by
  rw [forM_eq_foldlM]
  exact Balanced.foldlM (fun _ a => hf a) l ()

/-- A balanced walk with a fresh guard ends with nothing being visited. -/
theorem Balanced.fresh (hv : Balanced v) (st : σ) :
    (v.run (.supertypes, st)).2.1.visiting = [] ∧ (v.run (.supertypes, st)).2.1.depth = 0 :=
  ⟨(hv (.supertypes, st)).visiting, (hv (.supertypes, st)).depth⟩

end Visit

open Visit

/-! ### Building -/

namespace Build

variable {build : Name → Build EffectiveType}

theorem balanced_merged (e other : EffectiveType) (kind : EffectiveType.MergeKind) :
    Balanced (merged e other kind) := by
  unfold merged
  split
  · exact balanced_pure _
  · exact balanced_throw _

theorem balanced_mergeNext (result : Option EffectiveType) (type : EffectiveType) :
    Balanced (mergeNext result type) := by
  cases result with
  | none => exact balanced_pure type
  | some result =>
    exact (balanced_merged result type .aggregate).bind fun _ =>
      (balanced_change _).bind fun _ => balanced_pure _

theorem balanced_mergeSubsets : ∀ (rounds : Nat) (remaining : Key) (result : Option EffectiveType),
    Balanced (mergeSubsets rounds remaining result)
  | 0, remaining, result => balanced_pure (remaining, result)
  | rounds + 1, remaining, result => by
    unfold mergeSubsets
    split
    · exact balanced_pure _
    · refine (balanced_read _).bind fun found => ?_
      cases found with
      | none => exact balanced_pure _
      | some found =>
        exact (balanced_mergeNext result found.2).bind fun _ => balanced_mergeSubsets rounds _ _

theorem balanced_single (hbuild : ∀ n, Balanced (build n)) (name : Name) : Balanced (single build name) := by
  refine (balanced_change _).bind fun key => (balanced_read _).bind fun found => ?_
  cases found with
  | some type => exact balanced_pure type
  | none => exact hbuild name

theorem balanced_mergeSingles (hbuild : ∀ n, Balanced (build n)) (names : List Name)
    (result : Option EffectiveType) : Balanced (mergeSingles build names result) := by
  refine Balanced.foldlM (fun result name => ?_) names result
  exact (balanced_single hbuild name).bind fun type =>
    (balanced_mergeNext result type).bind fun _ => balanced_pure _

theorem balanced_aggregateWith (hbuild : ∀ n, Balanced (build n)) (names : List Name) :
    Balanced (aggregateWith build names) := by
  refine (balanced_change _).bind fun key => (balanced_read _).bind fun found => ?_
  cases found with
  | some type => exact balanced_pure type
  | none =>
    refine (balanced_mergeSubsets key.size key none).bind fun out => ?_
    refine (balanced_mergeSingles hbuild out.1.names.toList out.2).bind fun result => ?_
    cases result with
    | none => exact balanced_throw _
    | some type =>
      exact (balanced_change _).bind fun _ => (balanced_change _).bind fun _ => balanced_pure type

end Build

namespace Registry

variable {r : Registry}

theorem balanced_declaredType {aggregate : List Name → Build EffectiveType}
    (haggregate : ∀ names, Balanced (aggregate names)) (name : Name) :
    Balanced (r.declaredType aggregate name) := by
  have hkeep : ∀ type, Balanced (do Build.putMerged type; return type) := fun type =>
    (balanced_change _).bind fun _ => balanced_pure type
  unfold declaredType
  cases r.find? name with
  | none => exact balanced_throw _
  | some d =>
    dsimp only
    cases EffectiveType.ofDeclaration d with
    | error e => exact balanced_throw e
    | ok own =>
      dsimp only
      split
      · exact (balanced_pure own).bind hkeep
      · exact (haggregate d.supertypes).bind fun inherited =>
          (Build.balanced_merged own inherited .supertype).bind hkeep

theorem balanced_buildDeclared {aggregate : List Name → Build EffectiveType}
    (haggregate : ∀ names, Balanced (aggregate names)) (name : Name) :
    Balanced (r.buildDeclared aggregate name) :=
  (balanced_declaredType haggregate name).within name name

theorem balanced_aggregate (r : Registry) :
    ∀ (levels : Nat) (names : List Name), Balanced (r.aggregate levels names)
  | 0, names => Build.balanced_aggregateWith (fun _ => balanced_throw _) names
  | levels + 1, names =>
    Build.balanced_aggregateWith (balanced_buildDeclared (balanced_aggregate r levels)) names

/-! ### Checking inheritance -/

theorem balanced_supertypeHeight {measure : Name → Visit Heights Nat}
    (hmeasure : ∀ n, Balanced (measure n)) (name : Name) : Balanced (r.supertypeHeight measure name) := by
  unfold supertypeHeight
  cases r.find? name with
  | none => exact balanced_throw _
  | some d =>
    exact Balanced.foldlM (fun height n => (hmeasure n).bind fun _ => balanced_pure _) d.supertypes 0

theorem balanced_chainHeight (r : Registry) (requested : Name) :
    ∀ (levels : Nat) (name : Name), Balanced (r.chainHeight requested levels name)
  | levels, name => by
    unfold chainHeight
    refine (balanced_read _).bind fun found => ?_
    cases found with
    | some height => exact balanced_pure height
    | none =>
      cases levels with
      | zero => exact balanced_throw _
      | succ levels =>
        have hmeasure := balanced_supertypeHeight (r := r) (balanced_chainHeight r requested levels) name
        exact (hmeasure.within name requested).bind fun _ => balanced_change _

theorem balanced_checkChain (r : Registry) (requested : Name) : Balanced (r.checkChain requested) := by
  refine (balanced_chainHeight r requested _ requested).bind fun height => ?_
  split
  · exact balanced_throw _
  · exact balanced_pure ()

/-- **The walks leave every name they visit.** Measuring a type and its supertypes, building a declared type
and aggregating a list are balanced at every level, with success or with any error, over any cache and under any
guard. So nothing is being visited any more after the inheritance check, and nothing after building the types of
a request. -/
theorem walks_balanced (r : Registry) :
    (∀ levels requested name, Balanced (r.chainHeight requested levels name)) ∧
    (∀ levels requested name, Balanced (r.supertypeHeight (r.chainHeight requested levels) name)) ∧
    (∀ levels name, Balanced (r.buildDeclared (r.aggregate levels) name)) ∧
    (∀ levels names, Balanced (r.aggregate levels names)) ∧
    (∀ names,
      let out := ((NameSet.ofList names).toList.forM r.checkChain).run (.supertypes, {})
      out.1 = r.checkInheritance names ∧ out.2.1.visiting = [] ∧ out.2.1.depth = 0) ∧
    ∀ (c : Cache) names,
      let out := (r.aggregate (maxSupertypeDepth + 1) names).run (.supertypes, c)
      (out.1, out.2.2) = c.build r names ∧ out.2.1.visiting = [] ∧ out.2.1.depth = 0 := by
  refine ⟨fun levels requested => balanced_chainHeight r requested levels, fun levels requested =>
    balanced_supertypeHeight (balanced_chainHeight r requested levels), fun levels =>
    balanced_buildDeclared (balanced_aggregate r levels), balanced_aggregate r, fun names => ?_,
    fun c names => ?_⟩
  · have hcheck := Balanced.forM (balanced_checkChain r) (NameSet.ofList names).toList
    exact ⟨rfl, hcheck.fresh {}⟩
  · exact ⟨rfl, (balanced_aggregate r _ names).fresh c⟩

end Registry

end ContentTypes
