import ContentTypes.Proofs.Resolver.ChildNodes

/-! # The definition of a child of a stated type

A definition `Accepts` a child if it is a child node definition of its name or a residual one, and all types
that it requires lie in the closure of the type of the child. Looking up the definition of a child gives the
first that accepts it. There is one exactly if the stated type is registered, no mixin and can be resolved,
and some definition accepts the child (`childDefinition_spec`); otherwise the first of these that fails is
the error. -/

namespace ContentTypes

open EffectiveType

namespace Registry

/-- A name that is registered, and not as a mixin. -/
def IsPrimary (r : Registry) (t : Name) : Prop := ∃ d, r.find? t = some d ∧ d.isMixin = false

/-- **`i` accepts the child** of the name `child` and the type `primary`, as a definition of `e`. -/
def Accepts (r : Registry) (e : EffectiveType) (child primary : Name) (i : ItemDef) : Prop :=
  i ∈ e.definitions ∧ (i.name = some child ∨ i.name = none) ∧ r.Takes primary i

variable {r : Registry} {e : EffectiveType} {child primary : Name} {i : ItemDef}

theorem accepts_iff (he : e.WellFormed) : r.Accepts e child primary i ↔
    i ∈ e.under (some child) ++ e.under none ∧ r.Takes primary i := by
  unfold Accepts
  rw [he.mem_definitions, List.mem_append, ← and_assoc]
  refine and_congr_left fun _ => ⟨?_, ?_⟩
  · rintro ⟨hi, hname | hname⟩
    · exact Or.inl (hname ▸ hi)
    · exact Or.inr (hname ▸ hi)
  · rintro (hi | hi)
    · have hname := he.name_eq _ i hi
      exact ⟨hname ▸ hi, Or.inl hname⟩
    · have hname := he.name_eq _ i hi
      exact ⟨hname ▸ hi, Or.inr hname⟩

end Registry

namespace Resolver

open Registry

variable {r : Registry} {e target : EffectiveType} {child primary : Name} {i : ItemDef} {x : Error}
  {s : Resolver}

/-! ### Choosing -/

/-- Something is chosen if a definition accepts the child. -/
theorem exists_choose_iff (he : e.WellFormed) (ht : ∀ t, t ∈ target.allTypes ↔ t ∈ r.closure {primary}) :
    (∃ i, choose e child (target.includesAll ·.requiredPrimaryTypes) = .ok i) ↔
      ∃ i, r.Accepts e child primary i := by
  simp only [choose_eq_ok_iff ht, accepts_iff he]
  constructor
  · rintro ⟨i, hi⟩
    obtain ⟨a, b, -, htakes, -⟩ := id hi
    exact ⟨i, hi.mem, htakes⟩
  · rintro ⟨i, hi, htakes⟩
    exact exists_firstWith hi htakes

/-- The only error of choosing. -/
theorem choose_eq_error_iff {p : ItemDef → Bool} :
    choose e child p = .error x ↔ x = .noMatchingDefinition child ∧ ¬ ∃ i, choose e child p = .ok i := by
  unfold choose
  cases (candidates e child).find? p <;> simp [eq_comm]

/-- A residual definition is chosen only if no named one accepts the child. -/
theorem not_accepts_of_choose_residual (he : e.WellFormed)
    (ht : ∀ t, t ∈ target.allTypes ↔ t ∈ r.closure {primary})
    (h : choose e child (target.includesAll ·.requiredPrimaryTypes) = .ok i) (hi : i.name = none)
    {j : ItemDef} (hj : j.name = some child) : ¬ r.Accepts e child primary j := by
  intro hacc
  obtain ⟨hmem, -, htakes⟩ := hacc
  rw [he.mem_definitions, hj] at hmem
  rcases firstWith_append.1 ((choose_eq_ok_iff ht).1 h) with hfirst | ⟨hno, -⟩
  · have hname := he.name_eq _ i hfirst.mem
    rw [hi] at hname
    cases hname
  · exact hno j hmem htakes

theorem firstWith_candidates : FirstWith (r.Takes primary) (candidates e child) i ↔
    FirstWith (r.Takes primary) (e.under (some child) ++ e.under none) i := by
  rw [candidates_eq, firstWith_filter]
  exact ⟨fun h => h.congr fun _ _ => and_iff_right_of_imp And.left,
    fun h => h.congr fun _ _ => (and_iff_right_of_imp And.left).symm⟩

/-! ### Looking up -/

/-- What can go wrong, in the order in which it is noticed. -/
theorem typedChildDefinition_error_iff :
    (s.typedChildDefinition e child primary).1 = .error x ↔
      (s.registry.find? primary = none ∧ x = .noSuchType primary) ∨
      (∃ d, s.registry.find? primary = some d ∧ d.isMixin = true ∧ x = .mixinAsPrimaryType primary) ∨
      (s.registry.IsPrimary primary ∧ (s.resolveOne primary).1 = .error x) ∨
      ∃ target, s.registry.IsPrimary primary ∧ (s.resolveOne primary).1 = .ok target ∧
        choose e child (target.includesAll ·.requiredPrimaryTypes) = .error x := by
  unfold IsPrimary
  cases hd : s.registry.find? primary with
  | none => simpa [typedChildDefinition, hd] using eq_comm
  | some d =>
    cases hm : d.isMixin with
    | true => simpa [typedChildDefinition, hd, hm] using eq_comm
    | false =>
      rw [typedChildDefinition_of_primary hd hm]
      show (s.resolveOne primary).1 >>= _ = _ ↔ _
      cases (s.resolveOne primary).1 <;> simp [hm, bind, Except.bind]

/-- **What looking up the definition of a child of a stated type gives.** -/
structure LooksUp (s : Resolver) (e : EffectiveType) (child primary : Name) : Prop where
  /-- A definition is found exactly if the type may be that of a child and a definition accepts it. -/
  found_iff : (∃ i, (s.childDefinition e child (some primary)).1 = .ok i) ↔
    s.registry.IsPrimary primary ∧ (∃ target, (s.resolveOne primary).1 = .ok target) ∧
      ∃ i, s.registry.Accepts e child primary i
  /-- It is the first candidate that accepts the child, and a residual one only if no named one does. -/
  found : ∀ i, (s.childDefinition e child (some primary)).1 = .ok i →
    s.registry.Accepts e child primary i ∧
      FirstWith (s.registry.Takes primary) (candidates e child) i ∧
      (i.name = none → ∀ j, j.name = some child → ¬ s.registry.Accepts e child primary j)
  /-- Of several reasons to fail the first is reported. -/
  failed_iff : ∀ x, (s.childDefinition e child (some primary)).1 = .error x ↔
    (s.registry.find? primary = none ∧ x = .noSuchType primary) ∨
    (∃ d, s.registry.find? primary = some d ∧ d.isMixin = true ∧ x = .mixinAsPrimaryType primary) ∨
    (s.registry.IsPrimary primary ∧ (s.resolveOne primary).1 = .error x) ∨
    (s.registry.IsPrimary primary ∧ (∃ target, (s.resolveOne primary).1 = .ok target) ∧
      (¬ ∃ i, s.registry.Accepts e child primary i) ∧ x = .noMatchingDefinition child)

/-- The lookup over a resolver that resolves the stated type to its closure. -/
theorem looksUp_of_closure (he : e.WellFormed) (ht : ∀ target, (s.resolveOne primary).1 = .ok target →
    ∀ t, t ∈ target.allTypes ↔ t ∈ s.registry.closure {primary}) : s.LooksUp e child primary := by
  have hok : ∀ i, (s.childDefinition e child (some primary)).1 = .ok i ↔
      ∃ d target, s.registry.find? primary = some d ∧ d.isMixin = false ∧
        (s.resolveOne primary).1 = .ok target ∧
        choose e child (target.includesAll ·.requiredPrimaryTypes) = .ok i :=
    fun _ => typedChildDefinition_ok_iff
  refine ⟨⟨?_, ?_⟩, fun i hi => ?_, fun x => ?_⟩
  · rintro ⟨i, hi⟩
    obtain ⟨d, target, hd, hm, htarget, hchoose⟩ := (hok i).1 hi
    exact ⟨⟨d, hd, hm⟩, ⟨target, htarget⟩, (exists_choose_iff he (ht target htarget)).1 ⟨i, hchoose⟩⟩
  · rintro ⟨⟨d, hd, hm⟩, ⟨target, htarget⟩, haccepts⟩
    obtain ⟨i, hchoose⟩ := (exists_choose_iff he (ht target htarget)).2 haccepts
    exact ⟨i, (hok i).2 ⟨d, target, hd, hm, htarget, hchoose⟩⟩
  · obtain ⟨d, target, -, -, htarget, hchoose⟩ := (hok i).1 hi
    have hfirst := (choose_eq_ok_iff (ht target htarget)).1 hchoose
    obtain ⟨a, b, -, htakes, -⟩ := id hfirst
    exact ⟨(accepts_iff he).2 ⟨hfirst.mem, htakes⟩, firstWith_candidates.2 hfirst,
      fun hname j hj => not_accepts_of_choose_residual he (ht target htarget) hchoose hname hj⟩
  · refine typedChildDefinition_error_iff.trans (or_congr_right (or_congr_right (or_congr_right ?_)))
    constructor
    · rintro ⟨target, hprimary, htarget, hchoose⟩
      rw [choose_eq_error_iff, exists_choose_iff he (ht target htarget)] at hchoose
      exact ⟨hprimary, ⟨target, htarget⟩, hchoose.2, hchoose.1⟩
    · rintro ⟨hprimary, ⟨target, htarget⟩, hno, hx⟩
      refine ⟨target, hprimary, htarget, ?_⟩
      rw [choose_eq_error_iff, exists_choose_iff he (ht target htarget)]
      exact ⟨hx, hno⟩

/-- **The definition of a child of a stated type.** With nothing pending, the lookup in any effective type
made of declarations finds the first definition that accepts the child by the declarations now; when it
finds none, it reports an unknown type, a mixin, the error of resolving the type, or that no definition
accepts the child, whichever of these comes first. -/
theorem childDefinition_spec (r : Registry) (events : List Event)
    (hp : ∀ n, ¬ (fresh r).Pending events n) {e : EffectiveType} (he : Built e) (child primary : Name) :
    ((fresh r).run events).LooksUp e child primary := by
  refine looksUp_of_closure he.wellFormed fun target htarget t => ?_
  have hyields := (yields_run_resolve hp htarget).2
  have hset : {n | n ∈ [primary]} = ({primary} : Set Name) := Set.ext fun _ => List.mem_singleton
  rw [hyields.all_iff t, hset]

/-- A shelf has one best book, and takes any works. -/
def shelves : Registry := registerAll {}
  [({ name := "work" } : Declaration), { name := "book", supertypes := ["work"] },
    { name := "novel", supertypes := ["work"] }, ({ name := "label" } : Declaration).mixin,
    (({ name := "shelf" } : Declaration).withChildNode "best" ["book"]).withItem
      (.childNode "shelf" none ["work"])]

/-- Novels become books after one was resolved. -/
def bound : List Event :=
  [.resolve ["novel"], .register { name := "novel", supertypes := ["book"] }, .invalidate "novel"]

theorem not_pending_bound (n : Name) : ¬ (fresh shelves).Pending bound n := by
  show ¬ (fresh shelves).Pending ([] ++ [_] ++ [_] ++ [_]) n
  rw [pending_concat, pending_concat, pending_concat]
  simp [not_pending_nil, Changes, eq_comm]

/-- A novel can be the best book of a shelf then; any other work goes by the residual definition, and a
label is no primary type. -/
theorem childDefinition_spec_shelves :
    (∀ n, ¬ (fresh shelves).Pending bound n) ∧
    ∃ e i j, (((fresh shelves).run bound).resolve ["shelf"]).1 = .ok e ∧ Built e ∧
      (((fresh shelves).run bound).childDefinition e "best" (some "novel")).1 = .ok i ∧
      i.name = some "best" ∧
      FirstWith (((fresh shelves).run bound).registry.Takes "novel") (candidates e "best") i ∧
      (((fresh shelves).run bound).childDefinition e "best" (some "work")).1 = .ok j ∧ j.name = none ∧
      ¬ ((fresh shelves).run bound).registry.Accepts e "best" "work" i ∧
      (((fresh shelves).run bound).childDefinition e "best" (some "label")).1 =
        .error (.mixinAsPrimaryType "label") := by
  obtain ⟨e, he, hnovel, hwork⟩ := exists_ok_of_any
    (p := fun e : EffectiveType =>
      ((((fresh shelves).run bound).childDefinition e "best" (some "novel")).1.toOption.any
        (·.name = some "best") = true) ∧
      (((fresh shelves).run bound).childDefinition e "best" (some "work")).1.toOption.any
        (·.name = none) = true)
    (x := (((fresh shelves).run bound).resolve ["shelf"]).1) (by decide +kernel)
  obtain ⟨i, hi, hname⟩ := exists_ok_of_any (p := fun i : ItemDef => i.name = some "best") hnovel
  obtain ⟨j, hj, hnone⟩ := exists_ok_of_any (p := fun i : ItemDef => i.name = none) hwork
  have hbuilt := (answers_run_resolve he).built
  have hspec := childDefinition_spec shelves bound not_pending_bound hbuilt
  obtain ⟨d, hd, hmixin⟩ : ∃ d, ((fresh shelves).run bound).registry.find? "label" = some d ∧
      d.isMixin = true := by
    have hlabel : (((fresh shelves).run bound).registry.find? "label").any (·.isMixin) = true := by
      decide +kernel
    exact (Option.any_eq_true _ _).1 hlabel
  refine ⟨not_pending_bound, e, i, j, he, hbuilt, hi, hname, ((hspec "best" "novel").found i hi).2.1, hj,
    hnone, ((hspec "best" "work").found j hj).2.2 hnone i hname, ?_⟩
  exact ((hspec "best" "label").failed_iff _).2 (Or.inr (Or.inl ⟨d, hd, hmixin, rfl⟩))

end Resolver

end ContentTypes
