import ContentTypes.Proofs.Effective.MergeOrder

/-! # What every effective type keeps

However an effective type was made of declarations, its type sets fit together, each definition stands in the
list of its name and comes from one of its types, and no two definitions of one list exclude each other
(`Consistent`). Merging into it takes nothing away: the result goes on at the end of each list (`Continues`). -/

namespace ContentTypes

namespace EffectiveType

variable {e o m : EffectiveType} {kind : MergeKind}

/-- **A consistent effective type.** -/
structure Consistent (e : EffectiveType) : Prop where
  merged : ∃ n, n ∈ e.mergedTypes
  all_eq : e.allTypes = e.mergedTypes ∪ e.inheritedTypes
  declared : ∀ d ∈ e.definitions, d.declaringType ∈ e.allTypes
  /-- Every group is the list of its name. -/
  groups : ∀ p ∈ e.named.groups, e.namedItems p.1 = p.2
  named : ∀ n, ∀ d ∈ e.namedItems n, d.name = some n
  residual : ∀ d ∈ e.residual, d.name = none
  /-- Two definitions of a name have no conflict, whichever of them comes to the other. -/
  named_apart : ∀ n, (e.namedItems n).Pairwise fun a b =>
    namedConflict n a b = none ∧ namedConflict n b a = none
  residual_apart : e.residual.Pairwise fun a b => residualConflict a b = none ∧ residualConflict b a = none

/-- **`m` continues `e`**: its lists begin with those of `e`, and it supports the same mixins. -/
structure Continues (e m : EffectiveType) : Prop where
  named : ∀ n, e.namedItems n <+: m.namedItems n
  residual : e.residual <+: m.residual
  mixins : m.supportedMixins = e.supportedMixins

theorem WellFormed.consistent (he : e.WellFormed) : Consistent e where
  merged := he.merged
  all_eq := NameSet.ext_mem fun n => (he.all_iff n).trans NameSet.mem_cup.symm
  declared d hd := he.declared d.name d (he.mem_definitions.1 hd)
  groups p hp := by
    show (e.named.groups.lookup p.1).getD [] = p.2
    rw [lookup_of_mem he.groups hp]
    rfl
  named n := he.name_eq (some n)
  residual := he.name_eq none
  named_apart n := by
    refine (he.compatible (some n)).imp_of_mem fun {a b} ha hb hab => ?_
    have hno : ¬ a.NamedClash b := by
      rwa [← ItemDef.clashes_named (he.name_eq (some n) a ha) (he.name_eq (some n) b hb)]
    exact ⟨namedConflict_eq_none.2 hno, namedConflict_eq_none.2 fun hba => hno hba.symm⟩
  residual_apart := by
    refine (he.compatible none).imp_of_mem fun {a b} ha hb hab => ?_
    have hno : ¬ a.ResidualClash b := by
      rwa [← ItemDef.clashes_residual (he.name_eq none a ha) (he.name_eq none b hb)]
    exact ⟨residualConflict_eq_none.2 hno, residualConflict_eq_none.2 fun hba => hno hba.symm⟩

/-- What a merge gives continues the receiver, whatever the two are. -/
theorem continues_of_merge (h : e.merge o kind = .ok m) : Continues e m := by
  unfold merge at h
  split at h
  · obtain rfl := Except.ok.inj h
    exact ⟨fun _ => List.prefix_rfl, List.prefix_rfl, rfl⟩
  · cases hadded : e.addItems (e.incoming o) with
    | error c => rw [hadded] at h; cases h
    | ok f =>
      rw [hadded] at h
      obtain rfl := Except.ok.inj h
      obtain rfl := eq_pushAll_of_addItems hadded
      have hunder : ∀ k, e.under k <+: ((e.pushAll (e.incoming o)).joinTypes o kind).under k := fun k => by
        rw [under_joinTypes, under_pushAll]
        exact List.prefix_append _ _
      refine ⟨fun n => hunder (some n), hunder none, ?_⟩
      rw [supportedMixins_joinTypes, supportedMixins_pushAll]

/-- **Every effective type is consistent**, whichever declarations it was made of and in whatever way; and
what comes of merging anything into it continues it. -/
theorem consistent_of_built (h : Built e) :
    Consistent e ∧ ∀ o kind m, e.merge o kind = .ok m → Continues e m :=
  ⟨h.wellFormed.consistent, fun _ _ _ hm => continues_of_merge hm⟩

/-- A poster, a frame, and two declarations of a sheet. -/
def stationery : Fin 4 → Declaration
  | 0 => ({ name := "poster" } : Declaration).withItem (.property "poster" none .string)
  | 1 => ({ name := "frame" } : Declaration).withProperty "width" .double
  | 2 => ({ name := "sheet" } : Declaration).withProperty "width" .long
  | 3 => ({ name := "sheet" } : Declaration).withProperty "height" .long

/-- A poster on a sheet is put in a frame that has another sheet. What the poster holds stays, the width of
the frame comes after that of the sheet, and the other sheet is left out. -/
theorem consistent_of_built_poster :
    ∃ e o m, Built e ∧ Built o ∧ e.merge o .aggregate = .ok m ∧
      (o.namedItems "height").length = 1 ∧ m.namedItems "height" = [] ∧
      (m.namedItems "width").map (·.declaringType) = ["sheet", "frame"] ∧
      Consistent e ∧ Consistent m ∧ Continues e m := by
  obtain ⟨e, he⟩ : ∃ e, (MergeTree.merged .supertype (.declared 0) (.declared 2)).type stationery = .ok e :=
    ⟨_, rfl⟩
  obtain ⟨o, ho, hheight⟩ : ∃ o, (MergeTree.merged .supertype (.declared 1) (.declared 3)).type stationery =
      .ok o ∧ (o.namedItems "height").length = 1 := ⟨_, rfl, by decide⟩
  obtain ⟨m, hm, hno, hwidth⟩ : ∃ m, (MergeTree.merged .aggregate
      (.merged .supertype (.declared 0) (.declared 2))
      (.merged .supertype (.declared 1) (.declared 3))).type stationery = .ok m ∧
      m.namedItems "height" = [] ∧ (m.namedItems "width").map (·.declaringType) = ["sheet", "frame"] :=
    ⟨_, rfl, by decide, by decide⟩
  have hmerge : e.merge o .aggregate = .ok m := by
    obtain ⟨e', he', o', ho', h⟩ := MergeTree.type_merged_ok_iff.1 hm
    rw [he] at he'
    rw [ho] at ho'
    cases he'
    cases ho'
    exact h
  obtain ⟨hconsistent, hcontinues⟩ := consistent_of_built (MergeTree.built_of_type he)
  exact ⟨e, o, m, MergeTree.built_of_type he, MergeTree.built_of_type ho, hmerge, hheight, hno, hwidth,
    hconsistent, (consistent_of_built (MergeTree.built_of_type hm)).1, hcontinues o .aggregate m hmerge⟩

end EffectiveType

end ContentTypes
