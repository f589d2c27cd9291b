import ContentTypes.Proofs.Cache.Containers
import ContentTypes.Proofs.Cache.Map

/-! # Using a cache as a map

Whoever uses a cache cannot tell it from a map from sets of names to effective types
(`Session.observations_eq_map`). A user is a `Session`: it holds the keys it was given since the last clear
and names them by their positions, so a key may be used at any time after it was built. The same session can
be held with a `Cache` or its two `Containers`, whose keys are bits, or with a `TypeMap`, whose keys are the
sets themselves; every command is answered alike.

If the operations of one store match those of another (`Store.Simulates`), so do commands
(`Session.Alike.answer`) and runs (`Session.Alike.run`). The containers match the cache
(`Containers.simulates`), and the cache matches the map that it represents (`Cache.simulates`). -/

namespace ContentTypes

/-! ### Stores and sessions -/

/-- Something that effective types are put into under keys. Erasing tells what was there, invalidating how
much. -/
structure Store (σ κ : Type) where
  empty : σ
  keyFor : List Name → σ → κ × σ
  names : κ → NameSet
  put : κ → EffectiveType → σ → σ
  putMerged : EffectiveType → σ → κ × σ
  get? : κ → σ → Option EffectiveType
  contains : κ → σ → Bool
  erase : κ → σ → Option EffectiveType × σ
  invalidate : Name → σ → Nat × σ
  size : σ → Nat

/-- Types are stored in a cache. -/
def Cache.store : Store Cache Key where
  empty := {}
  keyFor names c := c.keyFor names
  names key := key.names
  put key type c := c.put key type
  putMerged type c := c.putMerged type
  get? key c := c.get? key
  contains key c := c.contains key
  erase key c := (c.get? key, c.erase key)
  invalidate n c := c.invalidate n
  size c := c.size

/-- Types are stored in two containers. -/
def Containers.store : Store Containers Key where
  empty := {}
  keyFor names d := d.keyFor names
  names key := key.names
  put key type d := d.put key type
  putMerged type d := d.putMerged type
  get? key d := d.get? key
  contains key d := d.contains key
  erase key d := d.remove key
  invalidate n d := d.invalidate n
  size d := d.table.length

/-- Types are stored in a map, whose keys are the sets of names. -/
noncomputable def TypeMap.store : Store TypeMap NameSet where
  empty := fun _ => none
  keyFor names m := (.ofList names, m)
  names key := key
  put key type m := Function.update m key (some type)
  putMerged type m := (type.mergedTypes, Function.update m type.mergedTypes (some type))
  get? key m := m key
  contains key m := (m key).isSome
  erase key m := (m key, Function.update m key none)
  invalidate n m := ((m.dependents n).ncard, m.without n)
  size m := m.domain.ncard

/-- A store and the keys that it gave since it was cleared last, in order. -/
structure Session (σ κ : Type) where
  state : σ
  keys : List κ := []

/-- What the user of a store may ask for. Keys are named by their positions among those given. -/
inductive Command where
  | keyFor (names : List Name)
  | put (key : Nat) (type : EffectiveType)
  | putMerged (type : EffectiveType)
  | get (key : Nat)
  | contains (key : Nat)
  | erase (key : Nat)
  | invalidate (n : Name)
  | size
  | clear

/-- What the user of a store is told. -/
inductive Answer where
  | key (names : NameSet)
  | type (type? : Option EffectiveType)
  | truth (b : Bool)
  | count (k : Nat)
  | done
  | noSuchKey

namespace Session

variable {σ κ : Type}

/-- Answers a command about the key at a position. -/
def withKey (s : Session σ κ) (i : Nat) (answer : κ → Answer × σ) : Answer × Session σ κ :=
  match s.keys[i]? with
  | none => (.noSuchKey, s)
  | some key => ((answer key).1, { s with state := (answer key).2 })

/-- Keeps a key that was given. -/
def given (s : Session σ κ) (store : Store σ κ) (p : κ × σ) : Answer × Session σ κ :=
  (.key (store.names p.1), ⟨p.2, s.keys ++ [p.1]⟩)

/-- Answers a command. -/
def answer (store : Store σ κ) (s : Session σ κ) : Command → Answer × Session σ κ
  | .keyFor names => s.given store (store.keyFor names s.state)
  | .put i type => s.withKey i fun key => (.done, store.put key type s.state)
  | .putMerged type => s.given store (store.putMerged type s.state)
  | .get i => s.withKey i fun key => (.type (store.get? key s.state), s.state)
  | .contains i => s.withKey i fun key => (.truth (store.contains key s.state), s.state)
  | .erase i => s.withKey i fun key =>
      (.type (store.erase key s.state).1, (store.erase key s.state).2)
  | .invalidate n =>
      (.count (store.invalidate n s.state).1, { s with state := (store.invalidate n s.state).2 })
  | .size => (.count (store.size s.state), s)
  | .clear => (.done, ⟨store.empty, []⟩)

/-- Answers commands one after the other. -/
def run (store : Store σ κ) (s : Session σ κ) : List Command → List Answer × Session σ κ
  | [] => ([], s)
  | command :: rest =>
    let (answer, s) := s.answer store command
    let (answers, s) := s.run store rest
    (answer :: answers, s)

/-- The session with an empty store. -/
def start (store : Store σ κ) : Session σ κ := ⟨store.empty, []⟩

end Session

/-! ### Stores that answer alike -/

section Simulation
variable {σ τ κ κ' : Type} {S : Store σ κ} {T : Store τ κ'} {R : σ → τ → Prop} {K : σ → κ → κ' → Prop}

/-- A step from `s` to `s'` that is matched by one to `t'`: the new states are related, and keys that were
related in `s` still are. -/
structure Matches (R : σ → τ → Prop) (K : σ → κ → κ' → Prop) (s s' : σ) (t' : τ) : Prop where
  state : R s' t'
  keys : ∀ {key key'}, K s key key' → K s' key key'

/-- **One store simulates another**, where `R` relates their states and `K` their keys in a state. -/
structure Store.Simulates (S : Store σ κ) (T : Store τ κ') (R : σ → τ → Prop) (K : σ → κ → κ' → Prop) :
    Prop where
  empty : R S.empty T.empty
  names : ∀ {s key key'}, K s key key' → S.names key = T.names key'
  keyFor : ∀ {s t}, R s t → ∀ names, Matches R K s (S.keyFor names s).2 (T.keyFor names t).2 ∧
    K (S.keyFor names s).2 (S.keyFor names s).1 (T.keyFor names t).1
  put : ∀ {s t key key'}, R s t → K s key key' → ∀ type,
    Matches R K s (S.put key type s) (T.put key' type t)
  putMerged : ∀ {s t}, R s t → ∀ type, Matches R K s (S.putMerged type s).2 (T.putMerged type t).2 ∧
    K (S.putMerged type s).2 (S.putMerged type s).1 (T.putMerged type t).1
  get? : ∀ {s t key key'}, R s t → K s key key' → S.get? key s = T.get? key' t
  contains : ∀ {s t key key'}, R s t → K s key key' → S.contains key s = T.contains key' t
  erase : ∀ {s t key key'}, R s t → K s key key' →
    (S.erase key s).1 = (T.erase key' t).1 ∧ Matches R K s (S.erase key s).2 (T.erase key' t).2
  invalidate : ∀ {s t}, R s t → ∀ n, (S.invalidate n s).1 = (T.invalidate n t).1 ∧
    Matches R K s (S.invalidate n s).2 (T.invalidate n t).2
  size : ∀ {s t}, R s t → S.size s = T.size t

/-- Sessions with related states and related keys. -/
structure Session.Alike (R : σ → τ → Prop) (K : σ → κ → κ' → Prop) (s : Session σ κ) (t : Session τ κ') :
    Prop where
  state : R s.state t.state
  keys : List.Forall₂ (K s.state) s.keys t.keys

theorem Matches.refl {s : σ} {t : τ} (h : R s t) : Matches R K s s t := ⟨h, id⟩

theorem rel_getElem? {r : κ → κ' → Prop} : ∀ {l : List κ} {l' : List κ'}, List.Forall₂ r l l' →
    ∀ i : Nat, Option.Rel r l[i]? l'[i]?
  | _, _, .nil, _ => .none
  | _, _, .cons h _, 0 => .some h
  | _, _, .cons _ h, i + 1 => rel_getElem? h i

namespace Session.Alike

variable {s : Session σ κ} {t : Session τ κ'}

theorem step {s' : σ} {t' : τ} (h : Alike R K s t) (hstep : Matches R K s.state s' t') :
    Alike R K ⟨s', s.keys⟩ ⟨t', t.keys⟩ :=
  ⟨hstep.state, h.keys.imp fun _ _ => hstep.keys⟩

theorem withKey (h : Alike R K s t) (i : Nat) {answer : κ → Answer × σ} {answer' : κ' → Answer × τ}
    (hstep : ∀ {key key'}, K s.state key key' → (answer key).1 = (answer' key').1 ∧
      Matches R K s.state (answer key).2 (answer' key').2) :
    (s.withKey i answer).1 = (t.withKey i answer').1 ∧
      Alike R K (s.withKey i answer).2 (t.withKey i answer').2 := by
  have hkey := rel_getElem? h.keys i
  unfold Session.withKey
  generalize s.keys[i]? = key, t.keys[i]? = key' at hkey
  cases hkey with
  | none => exact ⟨rfl, h⟩
  | some hkey =>
    obtain ⟨hanswer, hmatches⟩ := hstep hkey
    exact ⟨hanswer, h.step hmatches⟩

theorem given (hsim : S.Simulates T R K) (h : Alike R K s t) {p : κ × σ} {q : κ' × τ}
    (hstep : Matches R K s.state p.2 q.2) (hkey : K p.2 p.1 q.1) :
    (s.given S p).1 = (t.given T q).1 ∧ Alike R K (s.given S p).2 (t.given T q).2 := by
  refine ⟨congrArg Answer.key (hsim.names hkey), hstep.state, ?_⟩
  exact List.rel_append (h.step hstep).keys (.cons hkey .nil)

/-- **One command** is answered alike, and the sessions stay alike. -/
theorem answer (hsim : S.Simulates T R K) (h : Alike R K s t) (command : Command) :
    (s.answer S command).1 = (t.answer T command).1 ∧
      Alike R K (s.answer S command).2 (t.answer T command).2 := by
  have hstate := h.state
  cases command with
  | keyFor names =>
    obtain ⟨hstep, hkey⟩ := hsim.keyFor hstate names
    exact h.given hsim hstep hkey
  | put i type => exact h.withKey i fun hkey => ⟨rfl, hsim.put hstate hkey type⟩
  | putMerged type =>
    obtain ⟨hstep, hkey⟩ := hsim.putMerged hstate type
    exact h.given hsim hstep hkey
  | get i => exact h.withKey i fun hkey => ⟨congrArg _ (hsim.get? hstate hkey), .refl hstate⟩
  | contains i => exact h.withKey i fun hkey => ⟨congrArg _ (hsim.contains hstate hkey), .refl hstate⟩
  | erase i =>
    refine h.withKey i fun hkey => ?_
    obtain ⟨htype, hstep⟩ := hsim.erase hstate hkey
    exact ⟨congrArg _ htype, hstep⟩
  | invalidate n =>
    obtain ⟨hcount, hstep⟩ := hsim.invalidate hstate n
    exact ⟨congrArg _ hcount, h.step hstep⟩
  | size => exact ⟨congrArg _ (hsim.size hstate), h⟩
  | clear => exact ⟨rfl, hsim.empty, .nil⟩

/-- **A run** is answered alike. -/
theorem run (hsim : S.Simulates T R K) (h : Alike R K s t) (commands : List Command) :
    (s.run S commands).1 = (t.run T commands).1 ∧
      Alike R K (s.run S commands).2 (t.run T commands).2 := by
  induction commands generalizing s t with
  | nil => exact ⟨rfl, h⟩
  | cons command commands ih =>
    obtain ⟨hanswer, hnext⟩ := h.answer hsim command
    obtain ⟨hanswers, hend⟩ := ih hnext
    exact ⟨congrArg₂ List.cons hanswer hanswers, hend⟩

end Session.Alike

theorem Store.Simulates.run (hsim : S.Simulates T R K) (commands : List Command) :
    ((Session.start S).run S commands).1 = ((Session.start T).run T commands).1 ∧
      Session.Alike R K ((Session.start S).run S commands).2 ((Session.start T).run T commands).2 :=
  Session.Alike.run hsim ⟨hsim.empty, .nil⟩ commands

end Simulation

/-! ### Simulations -/

/-- **A cache represents a map**: it is in order and its keys are keys of its numbering. -/
structure Cache.Represents (c : Cache) (m : TypeMap) : Prop where
  keyed : c.Keyed
  ordered : c.Ordered
  types : m = c.types

/-- A key that stands for a set of names. -/
structure Key.StandsFor (t : Numbering) (key : Key) (names : NameSet) : Prop where
  numbered : key.Numbered t
  names_eq : key.names = names

open Cache (Represents)

/-- A cache may be kept in two containers. -/
theorem Containers.simulates : Containers.store.Simulates Cache.store
    (fun d c => d.Joins c ∧ c.Ordered ∧ c.Aligned) (fun _ key key' => key = key') where
  empty := ⟨joins_empty, Cache.ordered_empty, Cache.aligned_empty⟩
  names := by
    rintro s key key' rfl
    rfl
  keyFor := by
    rintro d c ⟨h, ho, ha⟩ names
    obtain ⟨hkey, hjoins⟩ := h.keyFor names
    exact ⟨⟨⟨hjoins, ho, ha⟩, id⟩, hkey⟩
  put := by
    rintro d c key key' ⟨h, ho, ha⟩ rfl type
    exact ⟨⟨h.put ho ha key type, ho.put key type, ha.put key type⟩, id⟩
  putMerged := by
    rintro d c ⟨h, ho, ha⟩ type
    obtain ⟨hkey, hjoins⟩ := h.putMerged ho ha type
    exact ⟨⟨⟨hjoins, Cache.ordered_perform ho (.putMerged type), Cache.aligned_perform ha (.putMerged type)⟩,
      id⟩, hkey⟩
  get? := by
    rintro d c key key' ⟨h, ho, ha⟩ rfl
    exact h.get?_eq ho ha key
  contains := by
    rintro d c key key' ⟨h, ho, ha⟩ rfl
    exact h.contains_eq ho ha key
  erase := by
    rintro d c key key' ⟨h, ho, ha⟩ rfl
    obtain ⟨htype, hjoins⟩ := h.remove ho ha key
    exact ⟨htype, ⟨hjoins, ho.erase key, ha.filter _⟩, id⟩
  invalidate := by
    rintro d c ⟨h, ho, ha⟩ n
    obtain ⟨hcount, hjoins⟩ := h.invalidate ho ha n
    exact ⟨hcount, ⟨hjoins, ho.invalidate n, ha.filter _⟩, id⟩
  size := by
    rintro d c ⟨h, -, -⟩
    exact h.size_eq

/-- A cache is the map that it represents. -/
theorem Cache.simulates : Cache.store.Simulates TypeMap.store Represents
    (fun c key names => key.StandsFor c.numbering names) where
  empty := ⟨keyed_empty, ordered_empty, rfl⟩
  names h := h.names_eq
  keyFor := by
    rintro c m ⟨hc, ho, rfl⟩ names
    have hgrows := keyFor_grows hc names
    exact ⟨⟨⟨keyFor_keyed hc names, ho, rfl⟩, fun h => ⟨h.numbered.mono hgrows, h.names_eq⟩⟩,
      keyFor_numbered hc names, rfl⟩
  put := by
    rintro c m key names ⟨hc, ho, rfl⟩ ⟨hkey, rfl⟩ type
    exact ⟨⟨hc.put hkey type, ho.put key type, (types_put hc ho hkey type).symm⟩, id⟩
  putMerged := by
    rintro c m ⟨hc, ho, rfl⟩ type
    have hkeyed := keyFor_keyed hc type.mergedTypes.toList
    have hkey := keyFor_numbered hc type.mergedTypes.toList
    have hgrows := keyFor_grows hc type.mergedTypes.toList
    have hnames := c.names_keyFor_mergedTypes type
    have hput := types_put hkeyed ho hkey type
    rw [hnames] at hput
    have hordered := ordered_perform ho (.putMerged type)
    exact ⟨⟨⟨hkeyed.put hkey type, hordered, hput.symm⟩, fun h => ⟨h.numbered.mono hgrows, h.names_eq⟩⟩,
      hkey, hnames⟩
  get? := by
    rintro c m key names ⟨hc, ho, rfl⟩ ⟨hkey, rfl⟩
    exact get?_eq_types hc ho hkey
  contains := by
    rintro c m key names ⟨hc, ho, rfl⟩ ⟨hkey, rfl⟩
    exact contains_eq_types hc ho hkey
  erase := by
    rintro c m key names ⟨hc, ho, rfl⟩ ⟨hkey, rfl⟩
    have herase := types_erase hc ho hkey
    exact ⟨get?_eq_types hc ho hkey, ⟨hc.filter _, ho.erase key, herase.symm⟩, id⟩
  invalidate := by
    rintro c m ⟨hc, ho, rfl⟩ n
    have hrest := types_invalidate hc ho n
    exact ⟨(ncard_dependents hc ho n).symm, ⟨hc.invalidate n, ho.invalidate n, hrest.symm⟩, id⟩
  size := by
    rintro c m ⟨hc, ho, rfl⟩
    exact (ncard_domain hc ho).symm

/-- **A cache is a map.** Whatever commands are given, they are answered as a map from sets of names to types
answers them, and also if the cache is kept in two containers. In the end the listed keys are those of the
index, their sets are those that the map has a type at, each once and in strict order, and the size is their
number. -/
theorem Session.observations_eq_map (commands : List Command) :
    let kept := (start Containers.store).run Containers.store commands
    let cached := (start Cache.store).run Cache.store commands
    let mapped := (start TypeMap.store).run TypeMap.store commands
    kept.1 = mapped.1 ∧ cached.1 = mapped.1 ∧ kept.2.state.index = cached.2.state.keys ∧
      (∀ names, names ∈ cached.2.state.keys.map (·.names) ↔ (mapped.2.state names).isSome) ∧
      (cached.2.state.keys.map (·.names)).Nodup ∧
      cached.2.state.keys.Pairwise (fun k l => k.compare l = .lt) ∧
      cached.2.state.size = cached.2.state.keys.length := by
  intro kept cached mapped
  obtain ⟨hkept, ⟨hjoins, -, -⟩, -⟩ := Containers.simulates.run commands
  obtain ⟨hcached, ⟨hc, ho, htypes⟩, -⟩ := Cache.simulates.run commands
  have hkeys : cached.2.state.keys.map (·.names) = cached.2.state.entries.map (·.key.names) := List.map_map
  refine ⟨hkept.trans hcached, hcached, hjoins.index, fun names => ?_, ?_, List.pairwise_map.2 ho, ?_⟩
  · show _ ↔ names ∈ mapped.2.state.domain
    rw [show mapped.2.state = cached.2.state.types from htypes, Cache.mem_domain_iff hc ho, hkeys,
      List.mem_map]
  · rw [hkeys]
    exact Cache.nodup_names hc ho
  · exact (List.length_map _).symm

end ContentTypes
