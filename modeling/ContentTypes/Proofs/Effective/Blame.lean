import ContentTypes.Proofs.Effective.Conflicts
import ContentTypes.Proofs.Effective.MergeOrder

/-! # What a conflict blames

A conflict reports an item name, or none where the definitions are residual, and two declaring types.
`Conflict.Blames` says of two definitions that a conflict is about them: they are named and declared as it
reports, and they break the rule that it stands for. The conflict that an incoming definition meets in one
that is held blames the two (`blames_of_conflictWith`). Of two rules that are broken the one about
auto-created items is reported.

So a refused merge blames a definition that only the incoming side brings and one of the receiver, never two
of the incoming side, although these are added one after the other; and a merge is refused as soon as there
are two that clash (`merge_blames`). -/

namespace ContentTypes

open EffectiveType

namespace Conflict

/-- The item name that is reported; none for residual definitions. -/
def itemName : Conflict → Option Name
  | .autoCreated name _ _ => some name
  | .property name _ _ => some name
  | .childNode name _ _ => some name
  | .residualProperty _ _ => none
  | .residualChildNode _ _ => none

/-- The type that declares the definition which was to be added. -/
def declaring : Conflict → Name
  | .autoCreated _ declaring _ => declaring
  | .property _ declaring _ => declaring
  | .childNode _ declaring _ => declaring
  | .residualProperty declaring _ => declaring
  | .residualChildNode declaring _ => declaring

/-- The type that declares the definition which was there. -/
def existing : Conflict → Name
  | .autoCreated _ _ existing => existing
  | .property _ _ existing => existing
  | .childNode _ _ existing => existing
  | .residualProperty _ existing => existing
  | .residualChildNode _ existing => existing

/-- Two definitions break the rule of a conflict. -/
def BrokenBy (c : Conflict) (i j : ItemDef) : Prop :=
  match c with
  | .autoCreated .. => i.isAutoCreated ∨ j.isAutoCreated
  | .property .. => ¬ i.isAutoCreated ∧ ¬ j.isAutoCreated ∧ ¬ i.definesNode ∧ ¬ j.definesNode ∧
      i.requiredType = j.requiredType ∧ i.isMultiple = j.isMultiple
  | .childNode .. => ¬ i.isAutoCreated ∧ ¬ j.isAutoCreated ∧ i.definesNode ∧ j.definesNode
  | .residualProperty .. => ¬ i.definesNode ∧ ¬ j.definesNode ∧ i.requiredType = j.requiredType ∧
      i.isMultiple = j.isMultiple ∧ i.onParentVersion = j.onParentVersion
  | .residualChildNode .. => i.definesNode ∧ j.definesNode ∧
      i.requiredPrimaryTypes = j.requiredPrimaryTypes ∧ i.defaultPrimaryType = j.defaultPrimaryType

/-- **A conflict blames two definitions**, `i` that was to be added and `j` that was there. -/
structure Blames (c : Conflict) (i j : ItemDef) : Prop where
  name_incoming : i.name = c.itemName
  name_held : j.name = c.itemName
  declaring : i.declaringType = c.declaring
  existing : j.declaringType = c.existing
  broken : c.BrokenBy i j

end Conflict

/-! ### The conflict of two definitions -/

section
variable {i j : ItemDef} {c : Conflict} {n : Name}

theorem blames_of_namedConflict (hi : i.name = some n) (hj : j.name = some n)
    (h : namedConflict n i j = some c) : c.Blames i j := by
  unfold namedConflict at h
  split at h
  · next hauto =>
    rw [Bool.or_eq_true] at hauto
    obtain rfl := Option.some.inj h
    exact ⟨hi, hj, rfl, rfl, hauto⟩
  · next hauto =>
    rw [Bool.or_eq_true, not_or] at hauto
    split at h
    · cases h
    · next hkind =>
      have hkind : i.definesNode = j.definesNode := by simpa using hkind
      split at h
      · next hnode =>
        obtain rfl := Option.some.inj h
        exact ⟨hi, hj, rfl, rfl, hauto.1, hauto.2, hnode, hkind ▸ hnode⟩
      · next hnode =>
        split at h
        · next hsame =>
          rw [Bool.and_eq_true, beq_iff_eq, beq_iff_eq] at hsame
          obtain rfl := Option.some.inj h
          exact ⟨hi, hj, rfl, rfl, hauto.1, hauto.2, hnode, hkind ▸ hnode, hsame⟩
        · cases h

theorem blames_of_residualConflict (hi : i.name = none) (hj : j.name = none)
    (h : residualConflict i j = some c) : c.Blames i j := by
  unfold residualConflict at h
  split at h
  · cases h
  · next hkind =>
    have hkind : i.definesNode = j.definesNode := by simpa using hkind
    split at h
    · next hnode =>
      split at h
      · next hsame =>
        rw [Bool.and_eq_true, beq_iff_eq, beq_iff_eq] at hsame
        obtain rfl := Option.some.inj h
        exact ⟨hi, hj, rfl, rfl, hnode, hkind ▸ hnode, hsame⟩
      · cases h
    · next hnode =>
      split at h
      · next hsame =>
        rw [Bool.and_eq_true, Bool.and_eq_true, beq_iff_eq, beq_iff_eq, beq_iff_eq] at hsame
        obtain rfl := Option.some.inj h
        exact ⟨hi, hj, rfl, rfl, hnode, hkind ▸ hnode, hsame.1.1, hsame.1.2, hsame.2⟩
      · cases h

/-- The conflict that a definition meets in another blames the two. -/
theorem blames_of_conflictWith (h : i.conflictWith j = some c) : c.Blames i j := by
  unfold ItemDef.conflictWith at h
  split at h
  · next hname =>
    cases hi : i.name with
    | none =>
      rw [hi] at h
      exact blames_of_residualConflict hi (hname ▸ hi) h
    | some n =>
      rw [hi] at h
      exact blames_of_namedConflict hi (hname ▸ hi) h
  · cases h

end

/-! ### Refused merges -/

namespace EffectiveType

variable {e o : EffectiveType} {kind : MergeKind}

/-- **What a refused merge blames.** If merging `o` into `e` is refused, the reported declaring type is one
of `o` that is new to `e`, the existing type is one of `e`, and under the reported name each of the two holds
a definition of its type that the conflict is about. And a merge is refused exactly if a definition of `o`
that comes from a type outside `e` clashes with one of `e`. -/
theorem merge_blames (he : Built e) (ho : Built o) (kind : MergeKind) :
    (∀ c, e.merge o kind = .error c →
      c.declaring ∈ o.allTypes ∧ c.declaring ∉ e.allTypes ∧ c.existing ∈ e.allTypes ∧
        ∃ i ∈ o.under c.itemName, ∃ j ∈ e.under c.itemName, c.Blames i j) ∧
    ((∃ c, e.merge o kind = .error c) ↔
      ∃ i ∈ o.definitions, i.declaringType ∉ e.allTypes ∧ ∃ j ∈ e.definitions, i.Clashes j) := by
  have hwe := he.wellFormed
  have hwo := ho.wellFormed
  refine ⟨fun c h => ?_, merge_error_iff hwe.toTidy hwo⟩
  obtain ⟨i, hi, hnew, j, hj, hij⟩ := merge_error hwe.toTidy hwo h
  have hblames := blames_of_conflictWith hij
  have hi : i ∈ o.under c.itemName := hblames.name_incoming ▸ hwo.mem_definitions.1 hi
  have hj : j ∈ e.under c.itemName := hblames.name_held ▸ hwe.mem_definitions.1 hj
  refine ⟨hblames.declaring ▸ hwo.declared _ i hi, hblames.declaring ▸ hnew,
    hblames.existing ▸ hwe.declared _ j hj, i, hi, j, hj, hblames⟩

/-- A sheet and a form with a child node for the title, and a leaflet with a title as text. -/
def headings : Fin 3 → Declaration
  | 0 => ({ name := "sheet" } : Declaration).withChildNode "title" []
  | 1 => ({ name := "leaflet" } : Declaration).withProperty "title" .string
  | 2 => ({ name := "form" } : Declaration).withChildNode "title" []

/-- A leaflet with a form beside it is merged into a sheet. The title of the leaflet comes in first and stands
in nobody's way; that of the form is refused for that of the sheet. -/
theorem merge_blames_headings :
    ∃ e o, Built e ∧ Built o ∧ (o.namedItems "title").map (·.declaringType) = ["leaflet", "form"] ∧
      e.merge o .supertype = .error (.childNode "title" "form" "sheet") ∧
      "form" ∈ o.allTypes ∧ "form" ∉ e.allTypes ∧ "sheet" ∈ e.allTypes ∧
      ∃ i ∈ o.namedItems "title", ∃ j ∈ e.namedItems "title",
        (Conflict.childNode "title" "form" "sheet").Blames i j := by
  obtain ⟨e, he, o, ho, hgroup, hrefused⟩ : ∃ e, (MergeTree.declared 0).type headings = .ok e ∧
      ∃ o, (MergeTree.merged .aggregate (.declared 1) (.declared 2)).type headings = .ok o ∧
        (o.namedItems "title").map (·.declaringType) = ["leaflet", "form"] ∧
        e.merge o .supertype = .error (.childNode "title" "form" "sheet") :=
    ⟨_, rfl, _, rfl, by decide, rfl⟩
  have hbuilt := MergeTree.built_of_type he
  have hbuilt' := MergeTree.built_of_type ho
  exact ⟨e, o, hbuilt, hbuilt', hgroup, hrefused, (merge_blames hbuilt hbuilt' .supertype).1 _ hrefused⟩

end EffectiveType

end ContentTypes
