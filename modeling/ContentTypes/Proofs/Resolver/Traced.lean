import ContentTypes.Proofs.Resolver.After
import ContentTypes.Resolver

/-! # Visits with their calls

The guard of a walk answers calls, one for every name that is to be visited. `Traced.aggregate` builds
effective types as `Registry.aggregate` does and puts down every call with its answer (`Call`), whether the
building succeeds or not. Without the calls it is the same computation (`erases_aggregate`), so what holds
of them is said of the building itself (`Cache.build_eq_traced`).

The calls are kept in the state beside the cache. What is done to the cache alone is taken over by `lift`;
there is one rule of `Erases` for each way in which visits are built. -/

namespace ContentTypes

/-- A name that a guard was asked to admit, and its answer. -/
structure Call where
  name : Name
  answer : Admission

/-- A visit that puts down its calls in the state, the latest first. -/
abbrev Traced (σ α : Type) := Visit (σ × List Call) α

namespace Traced

open Visit

variable {σ α β : Type}

/-- A visit that makes no calls. -/
def lift (v : Visit σ α) : Traced σ α := ExceptT.mk fun (guard, s, calls) =>
  let (outcome, guard, s) := v.run (guard, s)
  (outcome, guard, s, calls)

/-- Puts down what the guard will answer for a name. -/
def ask (name : Name) : Traced σ Unit := ExceptT.mk fun (guard, s, calls) =>
  (.ok (), guard, s, ⟨name, (guard.enter name).1⟩ :: calls)

/-- Visits a name. -/
def within (name blamed : Name) (body : Traced σ α) : Traced σ α := do
  ask name
  Visit.within name blamed body

/-! ### Building -/

/-- The type of a single name. -/
def single (build : Name → Traced Cache EffectiveType) (name : Name) : Traced Cache EffectiveType := do
  let key ← lift (Build.keyFor [name])
  match ← lift (Visit.read (·.get? key)) with
  | some type => return type
  | none => build name

def mergeSingles (build : Name → Traced Cache EffectiveType) (names : List Name)
    (result : Option EffectiveType) : Traced Cache (Option EffectiveType) :=
  names.foldlM (fun result name => return some (← lift (Build.mergeNext result (← single build name)))) result

/-- The effective type of a list of names, where `build` builds a single declared type. -/
def aggregateWith (build : Name → Traced Cache EffectiveType) (names : List Name) :
    Traced Cache EffectiveType := do
  let key ← lift (Build.keyFor names)
  match ← lift (Visit.read (·.get? key)) with
  | some type => return type
  | none =>
    let (remaining, result) ← lift (Build.mergeSubsets key.size key none)
    match ← mergeSingles build remaining.names.toList result with
    | none => throw (.badArgument .noNames)
    | some type =>
      lift (Build.put key type)
      lift (Build.putMerged type)
      return type

/-- The type of a declaration, where `aggregate` gives the type of its supertypes. -/
def declaredType (r : Registry) (aggregate : List Name → Traced Cache EffectiveType) (name : Name) :
    Traced Cache EffectiveType :=
  match r.find? name with
  | none => throw (.noSuchType name)
  | some d =>
    match EffectiveType.ofDeclaration d with
    | .error e => throw e
    | .ok own => do
      let type ← if d.supertypes.isEmpty then pure own
        else lift (Build.merged own (← aggregate d.supertypes) .supertype)
      lift (Build.putMerged type)
      return type

/-- The type of a declared name. Every call to the guard is made here. -/
def buildDeclared (r : Registry) (aggregate : List Name → Traced Cache EffectiveType) (name : Name) :
    Traced Cache EffectiveType :=
  within name name (declaredType r aggregate name)

/-- The effective type of a list of names. -/
def aggregate (r : Registry) (levels : Nat) (names : List Name) : Traced Cache EffectiveType :=
  match levels with
  | 0 => aggregateWith (fun name => throw (.inheritanceTooDeep name)) names
  | levels + 1 => aggregateWith (buildDeclared r (aggregate r levels)) names

/-! ### Erasing the calls -/

/-- Without its calls, `t` is `v`. -/
def Erases (t : Traced σ α) (v : Visit σ α) : Prop :=
  ∀ guard s calls, ∃ calls', t.run (guard, s, calls) =
    ((v.run (guard, s)).1, (v.run (guard, s)).2.1, (v.run (guard, s)).2.2, calls')

variable {t : Traced σ α} {v : Visit σ α}

theorem erases_lift (v : Visit σ α) : Erases (lift v) v := fun _ _ calls => ⟨calls, rfl⟩

theorem erases_pure (a : α) : Erases (pure a : Traced σ α) (pure a) := fun _ _ calls => ⟨calls, rfl⟩

theorem erases_throw (e : Error) : Erases (throw e : Traced σ α) (throw e) := fun _ _ calls => ⟨calls, rfl⟩

theorem Erases.bind (h : Erases t v) {f : α → Traced σ β} {f' : α → Visit σ β}
    (hf : ∀ a, Erases (f a) (f' a)) : Erases (t >>= f) (v >>= f') := by
  intro guard s calls
  obtain ⟨calls', ht⟩ := h guard s calls
  have htrun : (t >>= f).run (guard, s, calls) =
      (fun p => ExceptT.bindCont f p.1 p.2) (t.run (guard, s, calls)) := rfl
  have hvrun : (v >>= f').run (guard, s) = (fun p => ExceptT.bindCont f' p.1 p.2) (v.run (guard, s)) := rfl
  rw [htrun, hvrun, ht]
  obtain ⟨outcome, guard', s'⟩ := v.run (guard, s)
  cases outcome with
  | ok a => exact hf a guard' s' calls'
  | error e => exact ⟨calls', rfl⟩

theorem Erases.within (name blamed : Name) (h : Erases t v) :
    Erases (within name blamed t) (Visit.within name blamed v) := by
  intro guard s calls
  obtain ⟨a, guard', henter⟩ : ∃ a guard', guard.enter name = (a, guard') := ⟨_, _, rfl⟩
  obtain ⟨calls', ht⟩ := h guard' s (⟨name, a⟩ :: calls)
  have hrun : (Traced.within name blamed t).run (guard, s, calls) =
      (Visit.within name blamed t).run (guard, s, ⟨name, (guard.enter name).1⟩ :: calls) := rfl
  rw [hrun]
  unfold Visit.within
  simp only [ExceptT.run_mk, henter]
  cases a with
  | entered =>
    refine ⟨calls', ?_⟩
    simp only [ht]
    rfl
  | cycle => exact ⟨_, rfl⟩
  | depthExceeded => exact ⟨_, rfl⟩
  | iterationExceeded => exact ⟨_, rfl⟩

theorem Erases.foldlM {f : β → α → Traced σ β} {f' : β → α → Visit σ β}
    (hf : ∀ b a, Erases (f b a) (f' b a)) : ∀ (l : List α) (b : β), Erases (l.foldlM f b) (l.foldlM f' b)
  | [], b => erases_pure b
  | a :: l, b => by
    rw [List.foldlM_cons, List.foldlM_cons]
    exact (hf b a).bind fun b' => Erases.foldlM hf l b'

variable {r : Registry} {build : Name → Traced Cache EffectiveType} {build' : Name → Build EffectiveType}

theorem erases_single (h : ∀ n, Erases (build n) (build' n)) (name : Name) :
    Erases (single build name) (Build.single build' name) := by
  refine (erases_lift _).bind fun key => (erases_lift _).bind fun found => ?_
  cases found with
  | some type => exact erases_pure type
  | none => exact h name

theorem erases_mergeSingles (h : ∀ n, Erases (build n) (build' n)) (names : List Name)
    (result : Option EffectiveType) :
    Erases (mergeSingles build names result) (Build.mergeSingles build' names result) := by
  refine Erases.foldlM (fun result name => ?_) names result
  exact (erases_single h name).bind fun type => (erases_lift _).bind fun m => erases_pure (some m)

theorem erases_aggregateWith (h : ∀ n, Erases (build n) (build' n)) (names : List Name) :
    Erases (aggregateWith build names) (Build.aggregateWith build' names) := by
  refine (erases_lift _).bind fun key => (erases_lift _).bind fun found => ?_
  cases found with
  | some type => exact erases_pure type
  | none =>
    refine (erases_lift _).bind fun out => ?_
    obtain ⟨remaining, result⟩ := out
    refine (erases_mergeSingles h remaining.names.toList result).bind fun merged => ?_
    cases merged with
    | none => exact erases_throw _
    | some type =>
      exact (erases_lift _).bind fun _ => (erases_lift _).bind fun _ => erases_pure type

theorem erases_declaredType {aggregate : List Name → Traced Cache EffectiveType}
    {aggregate' : List Name → Build EffectiveType} (h : ∀ names, Erases (aggregate names) (aggregate' names))
    (name : Name) : Erases (declaredType r aggregate name) (r.declaredType aggregate' name) := by
  have hkeep : ∀ type, Erases (do lift (Build.putMerged type); return type)
      (do Build.putMerged type; return type) := fun type => (erases_lift _).bind fun _ => erases_pure type
  unfold declaredType Registry.declaredType
  cases r.find? name with
  | none => exact erases_throw _
  | some d =>
    dsimp only
    cases EffectiveType.ofDeclaration d with
    | error e => exact erases_throw e
    | ok own =>
      dsimp only
      split
      · exact (erases_pure own).bind hkeep
      · exact (h d.supertypes).bind fun inherited => (erases_lift _).bind hkeep

/-- **Without the calls**, traced building is building. -/
theorem erases_aggregate (r : Registry) : ∀ (levels : Nat) (names : List Name),
    Erases (aggregate r levels names) (r.aggregate levels names) := by
  intro levels
  induction levels with
  | zero => exact erases_aggregateWith fun name => erases_throw _
  | succ levels ih =>
    refine erases_aggregateWith fun name => ?_
    exact (erases_declaredType ih name).within name name

end Traced

namespace Cache

/-- Builds the effective type of checked names and gives the calls too, the latest first. -/
def tracedBuild (c : Cache) (r : Registry) (names : List Name) :
    Except Error EffectiveType × Cache × List Call :=
  Visit.start (Traced.aggregate r (VisitGuard.maxSupertypeDepth + 1) names) (c, [])

theorem build_eq_traced (c : Cache) (r : Registry) (names : List Name) :
    c.build r names = ((c.tracedBuild r names).1, (c.tracedBuild r names).2.1) := by
  obtain ⟨calls, h⟩ := Traced.erases_aggregate r (VisitGuard.maxSupertypeDepth + 1) names .supertypes c []
  unfold build tracedBuild Visit.start
  rw [h]
  rfl

end Cache

end ContentTypes
