import ContentTypes.Proofs.Resolver.Outcome

/-! # Removing items

The check before an item is removed reads the definitions that an effective type holds under the name of
the item (`EffectiveType.checkRemove_refused_iff`). An answer holds all that are declared under it, whatever
it was merged from. So with nothing pending the removal is refused exactly if some included type forbids it
(`checkRemove_refused_iff_declared`). Only which of two reasons is reported, mandatory or read-only, depends
on the order of merging (`reason_depends_on_history`). -/

namespace ContentTypes

open Registry

/-- The definition forbids to remove its item. -/
def ItemDef.ForbidsRemoval (i : ItemDef) : Prop := i.isMandatory = true ∨ i.isProtected = true

namespace EffectiveType

variable {e : EffectiveType} {n : Name} {i : ItemDef} {x : Error}

theorem removalRefusal_eq_none_iff : removalRefusal n i = none ↔ ¬ i.ForbidsRemoval := by
  unfold removalRefusal ItemDef.ForbidsRemoval
  cases i.isMandatory <;> cases i.isProtected <;> simp

/-- The removal is refused if one of the definitions of the name forbids it. -/
theorem checkRemove_refused_iff :
    (∃ x, e.checkRemove n = .error x) ↔ ∃ i ∈ e.namedItems n, i.ForbidsRemoval := by
  have hnone : (e.namedItems n).findSome? (removalRefusal n) = none ↔
      ¬ ∃ i ∈ e.namedItems n, i.ForbidsRemoval := by
    simp only [List.findSome?_eq_none_iff, removalRefusal_eq_none_iff, not_exists, not_and]
  unfold checkRemove
  cases hfind : (e.namedItems n).findSome? (removalRefusal n) with
  | none => exact iff_of_false (by simp) (hnone.1 hfind)
  | some refusal =>
    have hsome : ¬ (e.namedItems n).findSome? (removalRefusal n) = none := by simp [hfind]
    exact iff_of_true ⟨refusal, rfl⟩ (not_not.1 (hsome ∘ hnone.2))

/-- A refusal names the item and what a definition of it says. -/
theorem reason_of_checkRemove (h : e.checkRemove n = .error x) :
    (x = .mandatoryRemoval n ∧ ∃ i ∈ e.namedItems n, i.isMandatory = true) ∨
      (x = .protectedRemoval n ∧ ∃ i ∈ e.namedItems n, i.isProtected = true) := by
  unfold checkRemove at h
  split at h
  · next refusal hfind =>
    obtain rfl := Except.error.inj h
    obtain ⟨i, hi, hrefusal⟩ := List.exists_of_findSome?_eq_some hfind
    unfold removalRefusal at hrefusal
    split at hrefusal
    · next hm => exact Or.inl ⟨(Option.some.inj hrefusal).symm, i, hi, hm⟩
    · split at hrefusal
      · next hprot => exact Or.inr ⟨(Option.some.inj hrefusal).symm, i, hi, hprot⟩
      · cases hrefusal
  · cases h

end EffectiveType

namespace Registry

variable {r r' : Registry} {s : Set Name} {e : EffectiveType} {n : Name} {p : ItemDef → Prop}

/-- Some type of the closure declares a definition of the name with `p`. -/
def Declares (r : Registry) (s : Set Name) (n : Name) (p : ItemDef → Prop) : Prop :=
  ∃ t ∈ r.closure s, ∃ i ∈ r.items t, i.name = some n ∧ p i

theorem Yields.exists_named_iff (he : e.WellFormed) (h : r.Yields s e) :
    (∃ i ∈ e.namedItems n, p i) ↔ r.Declares s n p := by
  have hmem : ∀ i, i ∈ e.namedItems n ↔ i.name = some n ∧ ∃ t ∈ r.closure s, i ∈ r.items t :=
    fun i => h.mem_under he (k := some n)
  constructor
  · rintro ⟨i, hi, hpi⟩
    obtain ⟨hname, t, ht, hit⟩ := (hmem i).1 hi
    exact ⟨t, ht, i, hit, hname, hpi⟩
  · rintro ⟨t, ht, i, hit, hname, hpi⟩
    exact ⟨i, (hmem i).2 ⟨hname, t, ht, hit⟩, hpi⟩

theorem AgreeOn.declares_iff (h : r.AgreeOn r' (r.closure s)) :
    r'.Declares s n p ↔ r.Declares s n p := by
  unfold Declares
  rw [h.closure_eq]
  exact exists_congr fun t => and_congr_right fun ht => by rw [h.items_eq ht]

end Registry

namespace Resolver

/-- What an answer holds under a name, if nothing is pending. -/
theorem exists_named_iff_declares {r : Registry} {events : List Event} {names : List Name}
    {e : EffectiveType} {n : Name} {p : ItemDef → Prop} (hp : ∀ m, ¬ (fresh r).Pending events m)
    (h : (((fresh r).run events).resolve names).1 = .ok e) :
    (∃ i ∈ e.namedItems n, p i) ↔ ((fresh r).run events).registry.Declares {m | m ∈ names} n p := by
  obtain ⟨hbuilt, hyields⟩ := yields_run_resolve hp h
  exact hyields.exists_named_iff hbuilt.wellFormed

/-- **When the removal of an item is refused.** With nothing pending, an answer to a request refuses it
exactly if a type in the closure of the requested names declares a definition of the item that is mandatory
or protected, and it says which of the two. So the verdict is the same after any two runs that end with the
same declarations of these types, and in whatever order the names are requested. -/
theorem checkRemove_refused_iff_declared (r : Registry) (events : List Event)
    (hp : ∀ m, ¬ (fresh r).Pending events m) {names : List Name} {e : EffectiveType}
    (h : (((fresh r).run events).resolve names).1 = .ok e) (n : Name) :
    ((∃ x, e.checkRemove n = .error x) ↔
      ((fresh r).run events).registry.Declares {m | m ∈ names} n ItemDef.ForbidsRemoval) ∧
    (∀ x, e.checkRemove n = .error x →
      (x = .mandatoryRemoval n ∧
        ((fresh r).run events).registry.Declares {m | m ∈ names} n (·.isMandatory = true)) ∨
      (x = .protectedRemoval n ∧
        ((fresh r).run events).registry.Declares {m | m ∈ names} n (·.isProtected = true))) ∧
    ∀ (r' : Registry) (events' : List Event) (names' : List Name) (e' : EffectiveType),
      (∀ m, ¬ (fresh r').Pending events' m) → (∀ m, m ∈ names' ↔ m ∈ names) →
      ((fresh r).run events).registry.AgreeOn ((fresh r').run events').registry
        (((fresh r).run events).registry.closure {m | m ∈ names}) →
      (((fresh r').run events').resolve names').1 = .ok e' →
      ((∃ x, e'.checkRemove n = .error x) ↔ ∃ x, e.checkRemove n = .error x) := by
  have hiff : ∀ {r : Registry} {events : List Event} {names : List Name} {e : EffectiveType},
      (∀ m, ¬ (fresh r).Pending events m) → (((fresh r).run events).resolve names).1 = .ok e →
      ((∃ x, e.checkRemove n = .error x) ↔
        ((fresh r).run events).registry.Declares {m | m ∈ names} n ItemDef.ForbidsRemoval) :=
    fun hp h => EffectiveType.checkRemove_refused_iff.trans (exists_named_iff_declares hp h)
  refine ⟨hiff hp h, fun x hx => ?_, fun r' events' names' e' hp' hsame hagree h' => ?_⟩
  · rw [← exists_named_iff_declares hp h, ← exists_named_iff_declares hp h]
    exact EffectiveType.reason_of_checkRemove hx
  · have hset : {m | m ∈ names'} = {m | m ∈ names} := Set.ext hsame
    rw [hiff hp h, hiff hp' h', hset]
    exact hagree.declares_iff

/-- A letter is signed, and its author must be there. The author of what is sealed is read-only. -/
def letters : Registry := registerAll {}
  [({ name := "signed" } : Declaration).withItem
      ((ItemDef.property "signed" (some "author") .string).withFlags .mandatory),
    { name := "letter", supertypes := ["signed"] },
    ({ name := "sealed" } : Declaration).mixin.withItem
      ((ItemDef.property "sealed" (some "author") .uri).withFlags .protectedItem)]

/-- After a sealed letter was requested, letters may be anonymous. -/
def anonymous : List Event :=
  [.resolve ["letter", "sealed"],
    .register (({ name := "signed" } : Declaration).withProperty "author" .string),
    .invalidate "signed"]

theorem not_pending_anonymous (n : Name) : ¬ (fresh letters).Pending anonymous n := by
  show ¬ (fresh letters).Pending ([] ++ [_] ++ [_] ++ [_]) n
  rw [pending_concat, pending_concat, pending_concat]
  simp [not_pending_nil, Changes, Declaration.withProperty, Declaration.withItem, eq_comm]

/-- The author of a letter may be removed then, unless the letter is sealed. -/
theorem checkRemove_refused_iff_declared_letters :
    (∀ n, ¬ (fresh letters).Pending anonymous n) ∧
    (∃ e, (((fresh letters).run anonymous).resolve ["letter"]).1 = .ok e ∧
      e.checkRemove "author" = .ok () ∧
      ¬ ((fresh letters).run anonymous).registry.Declares {m | m ∈ ["letter"]} "author"
        ItemDef.ForbidsRemoval) ∧
    ∃ e, (((fresh letters).run anonymous).resolve ["letter", "sealed"]).1 = .ok e ∧
      e.checkRemove "author" = .error (.protectedRemoval "author") ∧
      ((fresh letters).run anonymous).registry.Declares {m | m ∈ ["letter", "sealed"]} "author"
        ItemDef.ForbidsRemoval := by
  refine ⟨not_pending_anonymous, ?_, ?_⟩
  · obtain ⟨e, he, hok⟩ := exists_ok_of_any
      (p := fun e : EffectiveType => e.checkRemove "author" = .ok ())
      (x := (((fresh letters).run anonymous).resolve ["letter"]).1) (by decide +kernel)
    refine ⟨e, he, hok, fun hdeclares => ?_⟩
    obtain ⟨x, hx⟩ :=
      (checkRemove_refused_iff_declared letters anonymous not_pending_anonymous he "author").1.2 hdeclares
    rw [hok] at hx
    cases hx
  · obtain ⟨e, he, hrefused⟩ := exists_ok_of_any
      (p := fun e : EffectiveType => e.checkRemove "author" = .error (.protectedRemoval "author"))
      (x := (((fresh letters).run anonymous).resolve ["letter", "sealed"]).1) (by decide +kernel)
    exact ⟨e, he, hrefused,
      (checkRemove_refused_iff_declared letters anonymous not_pending_anonymous he "author").1.1
        ⟨_, hrefused⟩⟩

/-- **The reason depends on the history.** The author of a sealed letter is said to be mandatory, and
read-only if the seal was requested before. -/
theorem reason_depends_on_history :
    ¬ ∀ (r : Registry) (history₁ history₂ : List (List Name)) (names : List Name) (n : Name)
      (e₁ e₂ : EffectiveType),
      (((fresh r).run (requests history₁)).resolve names).1 = .ok e₁ →
      (((fresh r).run (requests history₂)).resolve names).1 = .ok e₂ →
      e₁.checkRemove n = e₂.checkRemove n := by
  intro h
  obtain ⟨e₁, he₁, hmandatory⟩ := exists_ok_of_any
    (p := fun e : EffectiveType => e.checkRemove "author" = .error (.mandatoryRemoval "author"))
    (x := (((fresh letters).run (requests [])).resolve ["letter", "sealed"]).1) (by decide +kernel)
  obtain ⟨e₂, he₂, hprotected⟩ := exists_ok_of_any
    (p := fun e : EffectiveType => e.checkRemove "author" = .error (.protectedRemoval "author"))
    (x := (((fresh letters).run (requests [["sealed"]])).resolve ["letter", "sealed"]).1)
    (by decide +kernel)
  have heq := h letters [] [["sealed"]] _ "author" e₁ e₂ he₁ he₂
  rw [hmandatory, hprotected] at heq
  cases heq

end Resolver

end ContentTypes
