import Mathlib.Data.List.Nodup
import Mathlib.Tactic.Common
import ContentTypes.Effective.Merge

/-! # Adding definitions without a clash

`ItemDef.Clashes` says which two definitions cannot stand in one effective type; it is symmetric and
holds of a definition with itself. The definitions of an effective type are read by name, `under`, the
residual ones under `none`.

Adding definitions one after the other succeeds exactly if none clashes with one that is held or with one
that came before it, and then appends them (`addItems_ok_iff`); so a single declaration is taken exactly
if it has a name, declares its own definitions and none of them clash (`ofDeclaration_ok_iff`). -/

namespace ContentTypes

/-! ### Clashes -/

namespace ItemDef

/-- Two definitions of one item name exclude each other: one is auto-created, or both describe child
nodes, or both describe properties of one type and multiplicity. -/
def NamedClash (d e : ItemDef) : Prop :=
  d.isAutoCreated ∨ e.isAutoCreated ∨ (d.definesNode ∧ e.definesNode) ∨
    (¬ d.definesNode ∧ ¬ e.definesNode ∧ d.requiredType = e.requiredType ∧
      d.isMultiple = e.isMultiple)

/-- Two residual definitions exclude each other: both describe child nodes of the same required and
default types, or properties of one type, multiplicity and on-parent-version action. -/
def ResidualClash (d e : ItemDef) : Prop :=
  (d.definesNode ∧ e.definesNode ∧ d.requiredPrimaryTypes = e.requiredPrimaryTypes ∧
      d.defaultPrimaryType = e.defaultPrimaryType) ∨
    (¬ d.definesNode ∧ ¬ e.definesNode ∧ d.requiredType = e.requiredType ∧
      d.isMultiple = e.isMultiple ∧ d.onParentVersion = e.onParentVersion)

/-- **Two definitions clash**: they have one name, or none, and exclude each other. -/
def Clashes (d e : ItemDef) : Prop :=
  d.name = e.name ∧ if d.name.isSome then NamedClash d e else ResidualClash d e

theorem NamedClash.symm {d e : ItemDef} : NamedClash d e → NamedClash e d := by
  rintro (h | h | ⟨h1, h2⟩ | ⟨h1, h2, h3, h4⟩)
  · exact Or.inr (Or.inl h)
  · exact Or.inl h
  · exact Or.inr (Or.inr (Or.inl ⟨h2, h1⟩))
  · exact Or.inr (Or.inr (Or.inr ⟨h2, h1, h3.symm, h4.symm⟩))

theorem ResidualClash.symm {d e : ItemDef} : ResidualClash d e → ResidualClash e d := by
  rintro (⟨h1, h2, h3, h4⟩ | ⟨h1, h2, h3, h4, h5⟩)
  · exact Or.inl ⟨h2, h1, h3.symm, h4.symm⟩
  · exact Or.inr ⟨h2, h1, h3.symm, h4.symm, h5.symm⟩

theorem Clashes.symm {d e : ItemDef} (h : d.Clashes e) : e.Clashes d := by
  obtain ⟨hn, h⟩ := h
  refine ⟨hn.symm, ?_⟩
  rw [← hn]
  split at h
  · next hs => rw [if_pos hs]; exact h.symm
  · next hs => rw [if_neg hs]; exact h.symm

theorem clashes_named {d e : ItemDef} {n : Name} (hd : d.name = some n) (he : e.name = some n) :
    d.Clashes e ↔ d.NamedClash e := by
  simp [Clashes, hd, he]

theorem clashes_residual {d e : ItemDef} (hd : d.name = none) (he : e.name = none) :
    d.Clashes e ↔ d.ResidualClash e := by
  simp [Clashes, hd, he]

instance : Std.Symm fun d e : ItemDef => ¬ d.Clashes e := ⟨fun _ _ h hc => h hc.symm⟩

theorem clashes_self (d : ItemDef) : d.Clashes d := by
  refine ⟨rfl, ?_⟩
  split
  · by_cases h : d.definesNode = true
    · exact Or.inr (Or.inr (Or.inl ⟨h, h⟩))
    · exact Or.inr (Or.inr (Or.inr ⟨h, h, rfl, rfl⟩))
  · by_cases h : d.definesNode = true
    · exact Or.inl ⟨h, h, rfl, rfl⟩
    · exact Or.inr ⟨h, h, rfl, rfl, rfl⟩

end ItemDef

theorem namedConflict_eq_none {n : Name} {d c : ItemDef} :
    namedConflict n d c = none ↔ ¬ d.NamedClash c := by
  unfold namedConflict ItemDef.NamedClash
  cases d.isAutoCreated <;> cases c.isAutoCreated <;> cases d.definesNode <;> cases c.definesNode <;>
    simp

theorem residualConflict_eq_none {d c : ItemDef} :
    residualConflict d c = none ↔ ¬ d.ResidualClash c := by
  unfold residualConflict ItemDef.ResidualClash
  cases d.definesNode <;> cases c.definesNode <;> simp [and_assoc]

/-- A sequence of two steps succeeds if both do. -/
theorem bind_ok_iff {ε α β : Type} {x : Except ε α} {f : α → Except ε β} {b : β} :
    (x >>= f) = .ok b ↔ ∃ a, x = .ok a ∧ f a = .ok b := by
  cases x <;> simp [bind, Except.bind]

/-! ### Definitions by name -/

theorem ItemGroups.keys_addTo (n : Name) (d : ItemDef) : ∀ l : List (Name × List ItemDef),
    (ItemGroups.addTo n d l).map (·.1) =
      if n ∈ l.map (·.1) then l.map (·.1) else l.map (·.1) ++ [n]
  | [] => rfl
  | (m, ds) :: l => by
    rw [addTo]
    by_cases h : m = n
    · simp [h]
    · rw [if_neg h, List.map_cons, keys_addTo n d l]
      have : n ≠ m := Ne.symm h
      simp only [List.map_cons, List.mem_cons, this, false_or]
      split <;> rfl

namespace EffectiveType

/-- The definitions of a name, the residual ones for no name. -/
def under (e : EffectiveType) : Option Name → List ItemDef
  | some n => e.namedItems n
  | none => e.residual

/-- The definitions with a definition put at the end of those of its name. -/
def push (e : EffectiveType) (d : ItemDef) : EffectiveType :=
  match d.name with
  | some n => { e with named := e.named.add n d }
  | none => { e with residual := e.residual ++ [d] }

/-- The names of the groups are different, and every definition stands under its own name. -/
structure Tidy (e : EffectiveType) : Prop where
  groups : (e.named.groups.map (·.1)).Nodup
  name_eq : ∀ k, ∀ d ∈ e.under k, d.name = k

section push
variable (e : EffectiveType) (d : ItemDef)

@[simp] theorem mergedTypes_push : (e.push d).mergedTypes = e.mergedTypes := by
  unfold push; split <;> rfl

@[simp] theorem inheritedTypes_push : (e.push d).inheritedTypes = e.inheritedTypes := by
  unfold push; split <;> rfl

@[simp] theorem allTypes_push : (e.push d).allTypes = e.allTypes := by
  unfold push; split <;> rfl

@[simp] theorem supportedMixins_push : (e.push d).supportedMixins = e.supportedMixins := by
  unfold push; split <;> rfl

theorem under_push (k : Option Name) : (e.push d).under k = e.under k ++ [d].filter (·.name = k) := by
  unfold push under
  cases hd : d.name with
  | none => cases k <;> simp [hd, namedItems]
  | some n =>
    cases k with
    | none => simp [hd]
    | some m =>
      by_cases h : m = n
      · subst h
        simp [hd, namedItems, ItemGroups.find_add_self]
      · have hne : n ≠ m := Ne.symm h
        simp [hd, namedItems, ItemGroups.find_add_of_ne _ _ h, hne]

variable {e} in
theorem Tidy.push (he : e.Tidy) : (e.push d).Tidy := by
  refine ⟨?_, fun k c hc => ?_⟩
  · have hg := he.groups
    unfold EffectiveType.push
    cases d.name with
    | none => exact hg
    | some n =>
      show ((ItemGroups.addTo n d e.named.groups).map (·.1)).Nodup
      rw [ItemGroups.keys_addTo]
      split
      · exact hg
      · next h => exact List.nodup_append'.2 ⟨hg, List.nodup_singleton n, by simpa using h⟩
  · rw [under_push, List.mem_append] at hc
    rcases hc with hc | hc
    · exact he.name_eq k c hc
    · simpa using (List.mem_filter.1 hc).2

end push

/-! ### Adding definitions -/

variable {e e' : EffectiveType}

/-- The first conflict of a definition with those of its name. -/
def conflict? (e : EffectiveType) (d : ItemDef) : Option Conflict :=
  match d.name with
  | some n => (e.under d.name).findSome? (namedConflict n d)
  | none => (e.under d.name).findSome? (residualConflict d)

theorem addItem_eq (e : EffectiveType) (d : ItemDef) :
    e.addItem d = match e.conflict? d with
      | some c => .error c
      | none => .ok (e.push d) := by
  unfold addItem conflict? push under
  cases d.name <;> rfl

theorem conflict?_eq_none (he : e.Tidy) {d : ItemDef} :
    e.conflict? d = none ↔ ∀ c ∈ e.under d.name, ¬ d.Clashes c := by
  unfold conflict? ItemDef.Clashes
  have hname : ∀ c ∈ e.under d.name, d.name = c.name := fun c hc => (he.name_eq _ c hc).symm
  cases hd : d.name with
  | none =>
    rw [hd] at hname
    rw [List.findSome?_eq_none_iff]
    refine forall₂_congr fun c hc => ?_
    simp [residualConflict_eq_none, ← hname c hc]
  | some n =>
    rw [hd] at hname
    rw [List.findSome?_eq_none_iff]
    refine forall₂_congr fun c hc => ?_
    simp [namedConflict_eq_none, ← hname c hc]

theorem addItem_ok_iff (he : e.Tidy) {d : ItemDef} :
    e.addItem d = .ok e' ↔ (∀ c ∈ e.under d.name, ¬ d.Clashes c) ∧ e' = e.push d := by
  rw [addItem_eq, ← conflict?_eq_none he]
  cases e.conflict? d <;> simp [eq_comm]

/-- The definitions put at the end one after the other. -/
def pushAll (e : EffectiveType) (ds : List ItemDef) : EffectiveType := ds.foldl push e

theorem pushAll_cons (e : EffectiveType) (d : ItemDef) (ds : List ItemDef) :
    e.pushAll (d :: ds) = (e.push d).pushAll ds := rfl

section pushAll
variable (ds : List ItemDef)

/-- A field that `push` leaves alone is left alone by `pushAll`. -/
theorem pushAll_eq_of_push {α : Type} (f : EffectiveType → α) (hf : ∀ e d, f (push e d) = f e)
    (e : EffectiveType) : f (e.pushAll ds) = f e := by
  induction ds generalizing e with
  | nil => rfl
  | cons d ds ih => rw [pushAll_cons, ih, hf]

@[simp] theorem mergedTypes_pushAll (e : EffectiveType) :
    (e.pushAll ds).mergedTypes = e.mergedTypes :=
  pushAll_eq_of_push ds _ mergedTypes_push e

@[simp] theorem inheritedTypes_pushAll (e : EffectiveType) :
    (e.pushAll ds).inheritedTypes = e.inheritedTypes :=
  pushAll_eq_of_push ds _ inheritedTypes_push e

@[simp] theorem allTypes_pushAll (e : EffectiveType) : (e.pushAll ds).allTypes = e.allTypes :=
  pushAll_eq_of_push ds _ allTypes_push e

@[simp] theorem supportedMixins_pushAll (e : EffectiveType) :
    (e.pushAll ds).supportedMixins = e.supportedMixins :=
  pushAll_eq_of_push ds _ supportedMixins_push e

theorem under_pushAll (e : EffectiveType) (k : Option Name) :
    (e.pushAll ds).under k = e.under k ++ ds.filter (·.name = k) := by
  induction ds generalizing e with
  | nil => simp [pushAll]
  | cons d ds ih =>
    rw [pushAll_cons, ih, under_push, List.append_assoc, ← List.filter_append, List.singleton_append]

theorem Tidy.pushAll (he : e.Tidy) : (e.pushAll ds).Tidy := by
  induction ds generalizing e with
  | nil => exact he
  | cons d ds ih => exact ih (he.push d)

end pushAll

/-- No definition of the list clashes with one that `e` holds, or with another of the list. -/
def Admits (e : EffectiveType) (ds : List ItemDef) : Prop :=
  (∀ d ∈ ds, ∀ c ∈ e.under d.name, ¬ d.Clashes c) ∧ ds.Pairwise fun a b => ¬ a.Clashes b

theorem admits_cons {d : ItemDef} {ds : List ItemDef} :
    e.Admits (d :: ds) ↔ (∀ c ∈ e.under d.name, ¬ d.Clashes c) ∧ (e.push d).Admits ds := by
  unfold Admits
  rw [List.forall_mem_cons, List.pairwise_cons]
  have hsplit : (∀ b ∈ ds, ∀ c ∈ (e.push d).under b.name, ¬ b.Clashes c) ↔
      (∀ b ∈ ds, ∀ c ∈ e.under b.name, ¬ b.Clashes c) ∧ ∀ b ∈ ds, ¬ d.Clashes b := by
    rw [← forall₂_and]
    refine forall₂_congr fun b _ => ?_
    simp only [under_push, List.mem_append, or_imp, forall_and]
    refine and_congr_right fun _ => ⟨fun h hc => ?_, fun h c hc hbc => ?_⟩
    · exact h d (by simp [hc.1]) hc.symm
    · obtain rfl := List.mem_singleton.1 (List.mem_filter.1 hc).1
      exact h hbc.symm
  rw [hsplit]
  tauto

/-- What is added stands at the end, if it is not refused. -/
theorem eq_pushAll_of_addItems {ds : List ItemDef} (h : e.addItems ds = .ok e') : e' = e.pushAll ds := by
  unfold addItems at h
  induction ds generalizing e with
  | nil => exact (Except.ok.inj h).symm
  | cons d ds ih =>
    rw [List.foldlM_cons, addItem_eq] at h
    split at h
    · cases h
    · exact ih h

theorem addItems_ok_iff (he : e.Tidy) {ds : List ItemDef} :
    e.addItems ds = .ok e' ↔ e.Admits ds ∧ e' = e.pushAll ds := by
  unfold addItems
  induction ds generalizing e with
  | nil => simp [Admits, pushAll, pure, Except.pure, eq_comm]
  | cons d ds ih =>
    rw [List.foldlM_cons, bind_ok_iff, admits_cons, pushAll_cons]
    constructor
    · rintro ⟨f, hf, h⟩
      obtain ⟨hd, rfl⟩ := (addItem_ok_iff he).1 hf
      obtain ⟨ha, rfl⟩ := (ih (he.push d)).1 h
      exact ⟨⟨hd, ha⟩, rfl⟩
    · rintro ⟨⟨hd, ha⟩, rfl⟩
      exact ⟨e.push d, (addItem_ok_iff he).2 ⟨hd, rfl⟩, (ih (he.push d)).2 ⟨ha, rfl⟩⟩

/-! ### A single declaration -/

theorem tidy_bare (d : Declaration) : (bare d).Tidy :=
  ⟨by simp [bare], fun k c hc => by cases k <;> simp [under, bare, namedItems, ItemGroups.find] at hc⟩

theorem under_bare (d : Declaration) (k : Option Name) : (bare d).under k = [] := by
  cases k <;> rfl

theorem addOwnItem_ok_iff {type : Name} {d : ItemDef} :
    addOwnItem type e d = .ok e' ↔ d.declaringType = type ∧ e.addItem d = .ok e' := by
  unfold addOwnItem
  split
  · next h => cases e.addItem d <;> simp [Except.mapError, h]
  · next h => simp [h]

theorem addOwnItems_ok_iff {type : Name} {ds : List ItemDef} :
    ds.foldlM (addOwnItem type) e = .ok e' ↔
      (∀ d ∈ ds, d.declaringType = type) ∧ e.addItems ds = .ok e' := by
  unfold addItems
  induction ds generalizing e with
  | nil => simp [pure, Except.pure]
  | cons d ds ih =>
    rw [List.foldlM_cons, List.foldlM_cons, bind_ok_iff, bind_ok_iff, List.forall_mem_cons]
    constructor
    · rintro ⟨f, hf, h⟩
      obtain ⟨hd, hf⟩ := addOwnItem_ok_iff.1 hf
      obtain ⟨hds, h⟩ := ih.1 h
      exact ⟨⟨hd, hds⟩, f, hf, h⟩
    · rintro ⟨⟨hd, hds⟩, f, hf, h⟩
      exact ⟨f, addOwnItem_ok_iff.2 ⟨hd, hf⟩, ih.2 ⟨hds, h⟩⟩

/-- **A declaration is taken** if it has a name, declares its own definitions and none of them clash. -/
theorem ofDeclaration_ok_iff {d : Declaration} :
    ofDeclaration d = .ok e ↔ d.name ≠ "" ∧ (∀ i ∈ d.items, i.declaringType = d.name) ∧
      (d.items.Pairwise fun a b => ¬ a.Clashes b) ∧ e = (bare d).pushAll d.items := by
  unfold ofDeclaration
  split
  · next h => simp [h]
  · next h =>
    rw [addOwnItems_ok_iff, addItems_ok_iff (tidy_bare d)]
    simp [h, Admits, under_bare]

end EffectiveType

end ContentTypes
