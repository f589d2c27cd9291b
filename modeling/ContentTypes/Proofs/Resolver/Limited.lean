import ContentTypes.Proofs.Resolver.After
import ContentTypes.Resolver

/-! # Requests with limits

A request is answered by two recursions along supertypes and by a loop over cached subsets. Nothing in the
loop but the cached keys themselves makes it come to an end, and the recursions go where the declarations
lead. `Limited.resolve` answers requests under limits: at most `maxSupertypeDepth` visits of declarations lie
within one another, a loop has at most one round more than there are names, and every round that takes a
cached subset takes a name off. A computation that would pass a limit stops without an outcome
(`Limited.exhausted`).

To show that no limit is passed, `Upkeep.Completes` says of a part that it is done as without limits. There is
one rule for each way in which visits are built; what the parts keep of the state is their `Upkeep`. -/

namespace ContentTypes

open Registry Visit Contract

/-- A visit that may stop at a limit, without an outcome. -/
abbrev Limited (σ α : Type) := ExceptT Error (StateT (VisitGuard Name × σ) Option) α

namespace Limited

variable {σ α : Type}

/-- Stops at a limit. -/
def exhausted : Limited σ α := ExceptT.mk fun _ => none

/-- A visit that meets no limit. -/
def lift (v : Visit σ α) : Limited σ α := ExceptT.mk fun st => some (v.run st)

/-- Visits a name. -/
def within (name blamed : Name) (body : Limited σ α) : Limited σ α := ExceptT.mk fun (guard, s) =>
  match guard.enter name with
  | (.entered, guard) => (body.run (guard, s)).map fun (outcome, guard, s) => (outcome, guard.leave name, s)
  | (.cycle, guard) => some (.error (.inheritanceCycle name), guard, s)
  | (.depthExceeded, guard) => some (.error (.inheritanceTooDeep blamed), guard, s)
  | (.iterationExceeded, guard) => some (.error (.inheritanceTooDeep blamed), guard, s)

/-- Runs a visit with a fresh guard. -/
def start (u : Limited σ α) (s : σ) : Option (Except Error α × σ) :=
  (u.run (.supertypes, s)).map fun (outcome, _, s) => (outcome, s)

/-! ### Checking inheritance -/

/-- The height of the immediate supertypes of a type. -/
def supertypeHeight (r : Registry) (measure : Name → Limited Heights Nat) (name : Name) :
    Limited Heights Nat :=
  match r.find? name with
  | none => throw (.noSuchType name)
  | some d => d.supertypes.foldlM (fun height n => return max height (← measure n)) 0

/-- The height of a type, with at most `nested` visits within one another. -/
def chainHeight (r : Registry) (requested : Name) (nested : Nat) (name : Name) : Limited Heights Nat := do
  match ← lift (Visit.read (·[name]?)) with
  | some height => return height
  | none =>
    let height ← within name requested <| match nested with
      | 0 => exhausted
      | nested + 1 => supertypeHeight r (chainHeight r requested nested) name
    lift (Visit.change fun heights => (height + 1, heights.insert name (height + 1)))

/-- Checks the supertypes of one requested type. -/
def checkChain (r : Registry) (requested : Name) : Limited Heights Unit := do
  let height ← chainHeight r requested VisitGuard.maxSupertypeDepth requested
  if VisitGuard.maxSupertypeDepth < height then throw (.inheritanceTooDeep requested)

def checkInheritance (r : Registry) (names : List Name) : Option (Except Error Unit) :=
  (start ((NameSet.ofList names).toList.forM (checkChain r)) {}).map (·.1)

/-- Checks that the requested names are registered and their inheritance is sound. -/
def checkRequest (r : Registry) (names : List Name) : Option (Except Error Unit) :=
  match names.find? (!r.contains ·) with
  | some unknown => some (.error (.noSuchType unknown))
  | none => checkInheritance r names

/-! ### Building -/

/-- Merges in cached subsets of `remaining`, in `rounds` rounds. A round that takes a subset takes a name
off, and the last one finds nothing to take. -/
def mergeSubsets : Nat → Key → Option EffectiveType → Limited Cache (Key × Option EffectiveType)
  | 0, _, _ => exhausted
  | rounds + 1, remaining, result => do
    if remaining.isEmpty then return (remaining, result)
    match ← lift (Build.largestSubset remaining) with
    | none => return (remaining, result)
    | some (best, type) =>
      let rest := remaining.subtract best
      if remaining.names.size ≤ rest.names.size then exhausted
      else
        let result ← lift (Build.mergeNext result type)
        mergeSubsets rounds rest (some result)

/-- The type of a single name, from the cache if an earlier name brought it there. -/
def single (build : Name → Limited Cache EffectiveType) (name : Name) : Limited Cache EffectiveType := do
  let key ← lift (Build.keyFor [name])
  match ← lift (Visit.read (·.get? key)) with
  | some type => return type
  | none => build name

def mergeSingles (build : Name → Limited Cache EffectiveType) (names : List Name)
    (result : Option EffectiveType) : Limited Cache (Option EffectiveType) :=
  names.foldlM (fun result name => return some (← lift (Build.mergeNext result (← single build name)))) result

/-- The effective type of a list of names. The loop has one round more than there are different names. -/
def aggregateWith (build : Name → Limited Cache EffectiveType) (names : List Name) :
    Limited Cache EffectiveType := do
  let key ← lift (Build.keyFor names)
  match ← lift (Visit.read (·.get? key)) with
  | some type => return type
  | none =>
    let (remaining, result) ← mergeSubsets ((NameSet.ofList names).size + 1) key none
    match ← mergeSingles build remaining.names.toList result with
    | none => throw (.badArgument .noNames)
    | some type =>
      lift (Build.put key type)
      lift (Build.putMerged type)
      return type

/-- The type of a declaration, where `aggregate` gives the type of its supertypes. -/
def declaredType (r : Registry) (aggregate : List Name → Limited Cache EffectiveType) (name : Name) :
    Limited Cache EffectiveType :=
  match r.find? name with
  | none => throw (.noSuchType name)
  | some d =>
    match EffectiveType.ofDeclaration d with
    | .error e => throw e
    | .ok own => do
      let type ← if d.supertypes.isEmpty then pure own
        else lift (Build.merged own (← aggregate d.supertypes) .supertype)
      lift (Build.putMerged type)
      return type

def buildDeclared (r : Registry) (aggregate : List Name → Limited Cache EffectiveType) (name : Name) :
    Limited Cache EffectiveType :=
  within name name (declaredType r aggregate name)

/-- The effective type of a list of names, with at most `nested` declarations built within one another. -/
def aggregate (r : Registry) (nested : Nat) (names : List Name) : Limited Cache EffectiveType :=
  match nested with
  | 0 => aggregateWith (fun name => within name name exhausted) names
  | nested + 1 => aggregateWith (buildDeclared r (aggregate r nested)) names

/-- Builds the effective type of checked names. -/
def build (c : Cache) (r : Registry) (names : List Name) : Option (Except Error EffectiveType × Cache) :=
  start (aggregate r VisitGuard.maxSupertypeDepth names) c

/-- The effective type of a list of names. -/
def resolve (c : Cache) (r : Registry) (names : List Name) : Option (Except Error Resolution × Cache) :=
  match checkNames names with
  | .error e => some (.error e, c)
  | .ok () =>
    let (key, c) := c.keyFor names
    match c.get? key with
    | some type => some (.ok ⟨type, true⟩, c)
    | none => do
      match ← checkRequest r names with
      | .error e => return (.error e, c)
      | .ok () =>
        let (outcome, c) ← build c r names
        return (outcome.map (⟨·, false⟩), c)

/-- A type cached under the empty key would be taken for ever. -/
example : resolve (({} : Cache).put default default) (registerAll {} [{ name := "page" }]) ["page"] = none := by
  decide +kernel

end Limited

/-! ### Rules -/

/-- What a walk keeps of its state: what stands between its parts, and how a later state relates to an
earlier one. -/
structure Upkeep (σ : Type) where
  stands : σ → Prop
  later : σ → σ → Prop
  refl : ∀ s, later s s
  trans : ∀ {s s' s''}, later s s' → later s' s'' → later s s''

namespace Upkeep

open Limited

variable {σ α β : Type}

/-- The contract of a walk that keeps its place, too. Of errors it says nothing. -/
def contract (K : Upkeep σ) : Contract σ where
  stands st := K.stands st.2
  later st st' := st.1.Level st'.1 ∧ K.later st.2 st'.2
  failed _ _ := True
  refl _ := ⟨.refl _, K.refl _⟩
  trans h h' := ⟨h.1.trans h'.1, K.trans h.2 h'.2⟩

/-- What a part of the walk ensures of the state it leaves. -/
abbrev Ensures (K : Upkeep σ) (v : Visit σ α) (st : State σ) (ok : α → σ → Prop) : Prop :=
  K.contract.Ensures v st fun a st' => ok a st'.2

/-- **From `st` no limit is passed**: `u` is done as `v` is, which ensures `ok`. -/
def Completes (K : Upkeep σ) (u : Limited σ α) (v : Visit σ α) (st : State σ) (ok : α → σ → Prop) : Prop :=
  u.run st = some (v.run st) ∧ K.Ensures v st ok

variable {K : Upkeep σ} {u : Limited σ α} {v : Visit σ α} {st : State σ} {ok : α → σ → Prop}
  {ok₂ : β → σ → Prop}

theorem completes_pure {a : α} (hst : K.stands st.2) (h : ok a st.2) :
    K.Completes (pure a) (pure a) st ok :=
  ⟨rfl, ensures_pure hst h⟩

theorem completes_throw {e : Error} : K.Completes (throw e : Limited σ α) (throw e) st ok :=
  ⟨rfl, ensures_throw trivial⟩

theorem completes_lift (h : K.Ensures v st ok) : K.Completes (lift v) v st ok :=
  ⟨rfl, h⟩

/-- What is found of the state is there to go on with. -/
theorem completes_find {f : σ → α} {k : α → Limited σ β} {k' : α → Visit σ β}
    (h : ∀ a, f st.2 = a → K.Completes (k a) (k' a) st ok₂) :
    K.Completes (lift (read f) >>= k) (read f >>= k') st ok₂ := by
  obtain ⟨hrun, hv⟩ := h _ rfl
  exact ⟨hrun, ensures_read hv⟩

theorem Completes.bind {f : α → Limited σ β} {f' : α → Visit σ β} (h : K.Completes u v st ok)
    (hf : ∀ a st', K.stands st'.2 → K.contract.later st st' → ok a st'.2 →
      K.Completes (f a) (f' a) st' ok₂) : K.Completes (u >>= f) (v >>= f') st ok₂ := by
  obtain ⟨hrun, hv⟩ := h
  refine ⟨?_, hv.bind fun a st' hst' hl ha => (hf a st' hst' hl ha).2⟩
  have hleft : (u >>= f).run st = (u.run st).bind fun p => ExceptT.bindCont f p.1 p.2 := rfl
  have hright : (v >>= f').run st = (fun p => ExceptT.bindCont f' p.1 p.2) (v.run st) := rfl
  rw [hleft, hright, hrun]
  unfold Ensures Contract.Ensures After at hv
  split at hv
  · next a st' hout =>
    rw [hout]
    exact (hf a st' hv.1 hv.2.1 hv.2.2).1
  · next e st' hout =>
    rw [hout]
    rfl

/-- A visit passes no limit if its body does not where the guard admits it. -/
theorem Completes.within {name blamed : Name} (hst : K.stands st.2)
    (h : ∀ g, st.1.enter name = (.entered, g) → K.Completes u v (g, st.2) ok) :
    K.Completes (within name blamed u) (Visit.within name blamed v) st ok := by
  constructor
  · obtain ⟨guard, s⟩ := st
    obtain ⟨a, g, henter⟩ : ∃ a g, guard.enter name = (a, g) := ⟨_, _, rfl⟩
    unfold Limited.within Visit.within
    simp only [ExceptT.run_mk, henter]
    cases a with
    | entered =>
      simp only [(h g henter).1]
      rfl
    | cycle => rfl
    | depthExceeded => rfl
    | iterationExceeded => rfl
  · refine after_within (fun g hg => ?_) fun _ _ _ _ => trivial
    obtain ⟨rfl, -⟩ := VisitGuard.enter_entered hg
    refine After.mono (h _ hg).2 (fun a st' h => ?_) fun _ _ h => h
    obtain ⟨hst', ⟨hlev, hl⟩, ha⟩ := h
    exact ⟨hst', ⟨hlev.leave, hl⟩, ha⟩

/-- A loop passes no limit if no round does. -/
theorem Completes.foldlM {f : β → α → Limited σ β} {f' : β → α → Visit σ β} (inv : β → σ → Prop)
    {l : List α} {b : β}
    (step : ∀ a ∈ l, ∀ b st', K.stands st'.2 → K.contract.later st st' → inv b st'.2 →
      K.Completes (f b a) (f' b a) st' inv)
    (hst : K.stands st.2) (h : inv b st.2) : K.Completes (l.foldlM f b) (l.foldlM f' b) st inv := by
  -- the rounds start from later states than `st`
  suffices hrest : ∀ (rest : List α) (b : β) (st' : State σ), (∀ a ∈ rest, a ∈ l) → K.stands st'.2 →
      K.contract.later st st' → inv b st'.2 → K.Completes (rest.foldlM f b) (rest.foldlM f' b) st' inv from
    hrest l b st (fun _ ha => ha) hst (K.contract.refl st) h
  intro rest
  induction rest with
  | nil => exact fun b st' _ hst' _ h => completes_pure hst' h
  | cons a rest ih =>
    intro b st' hsub hst' hl h
    rw [List.foldlM_cons, List.foldlM_cons]
    refine (step a (hsub a List.mem_cons_self) b st' hst' hl h).bind fun b' st'' hst'' hl' h' => ?_
    exact ih b' st'' (fun a ha => hsub a (List.mem_cons_of_mem _ ha)) hst'' (K.contract.trans hl hl') h'

theorem Completes.forM {f : α → Limited σ Unit} {f' : α → Visit σ Unit} {l : List α}
    (step : ∀ a ∈ l, ∀ st', K.stands st'.2 → K.contract.later st st' →
      K.Completes (f a) (f' a) st' fun _ _ => True)
    (hst : K.stands st.2) : K.Completes (l.forM f) (l.forM f') st fun _ _ => True := by
  rw [forM_eq_foldlM, forM_eq_foldlM]
  exact .foldlM (fun _ _ => True) (fun a ha _ st' hst' hl _ => step a ha st' hst' hl) hst trivial

/-- A walk that passes no limit has the outcome it has without limits. -/
theorem Completes.start {s : σ} (h : K.Completes u v (.supertypes, s) ok) :
    Limited.start u s = some (Visit.start v s) := by
  unfold Limited.start
  rw [h.1]
  rfl

/-! ### Nothing to keep up -/

/-- The upkeep of a walk of whose state nothing needs to be known. -/
def free : Upkeep σ := ⟨fun _ => True, fun _ _ => True, fun _ => trivial, fun _ _ => trivial⟩

theorem free_change (f : σ → α × σ) :
    free.Completes (lift (change f)) (change f) st fun _ _ => True :=
  completes_lift (ensures_change trivial ⟨.refl _, trivial⟩ trivial)

theorem free_bind {f : α → Limited σ β} {f' : α → Visit σ β} (h : free.Completes u v st fun _ _ => True)
    (hf : ∀ a st', free.Completes (f a) (f' a) st' fun _ _ => True) :
    free.Completes (u >>= f) (v >>= f') st fun _ _ => True :=
  h.bind fun a st' _ _ _ => hf a st'

end Upkeep

end ContentTypes
