import ContentTypes.Proofs.Effective.Items

/-! # Merging well-formed types

`EffectiveType.WellFormed` collects what holds of every effective type that is made of declarations by
merging (`Built`): its types are those merged and those inherited, its definitions come from its types,
stand under their names and do not clash.

A merge of well-formed types fails exactly if a definition of a type that only the incoming side includes
clashes with one of the receiver (`merge_error_iff`). Otherwise the result is described by `Merges`:
the types of both, and under every name the definitions of the receiver followed by those of the types
that are new to it. -/

namespace ContentTypes

namespace EffectiveType

variable {e o m : EffectiveType} {kind : MergeKind}

/-! ### Definitions and their names -/

theorem ItemGroups.filter_items {n : Name} : ∀ {l : List (Name × List ItemDef)},
    (l.map (·.1)).Nodup → (∀ p ∈ l, ∀ d ∈ p.2, d.name = some p.1) →
      (l.flatMap (·.2)).filter (·.name = some n) = (l.lookup n).getD []
  | [], _, _ => rfl
  | (k, ds) :: l, hl, hd => by
    rw [List.map_cons, List.nodup_cons] at hl
    have ih := filter_items (n := n) hl.2 fun p hp => hd p (List.mem_cons_of_mem _ hp)
    have hds : ∀ d ∈ ds, d.name = some k := hd (k, ds) List.mem_cons_self
    rw [List.flatMap_cons, List.filter_append, ih]
    by_cases h : n = k
    · subst h
      have hnone : l.lookup n = none := by
        rw [List.lookup_eq_none_iff]
        intro p hp
        refine bne_iff_ne.2 fun hnp => hl.1 ?_
        have hk : p.1 ∈ l.map (·.1) := List.mem_map_of_mem hp
        rwa [← hnp] at hk
      rw [List.lookup_cons_self, hnone, List.filter_eq_self.2 fun d hd' => by simp [hds d hd']]
      simp
    · have hne : (n == k) = false := by simpa using h
      rw [List.lookup_cons, hne, List.filter_eq_nil_iff.2 fun d hd' => by simp [hds d hd', Ne.symm h]]
      simp

theorem lookup_of_mem {p : Name × List ItemDef} : ∀ {l : List (Name × List ItemDef)},
    (l.map (·.1)).Nodup → p ∈ l → l.lookup p.1 = some p.2
  | q :: l, hl, hp => by
    rw [List.map_cons, List.nodup_cons] at hl
    rcases List.mem_cons.1 hp with rfl | hp
    · exact List.lookup_cons_self
    · have hne : (p.1 == q.1) = false := by
        simp only [beq_eq_false_iff_ne, ne_eq]
        intro h
        exact hl.1 (h ▸ List.mem_map_of_mem hp)
      rw [List.lookup_cons, hne]
      exact lookup_of_mem hl.2 hp

theorem Tidy.name_of_group (he : e.Tidy) :
    ∀ p ∈ e.named.groups, ∀ d ∈ p.2, d.name = some p.1 := by
  intro p hp d hd
  refine he.name_eq (some p.1) d ?_
  show d ∈ (e.named.groups.lookup p.1).getD []
  rw [lookup_of_mem he.groups hp]
  exact hd

/-- The definitions of a name, picked from all definitions. -/
theorem Tidy.filter_name (he : e.Tidy) (k : Option Name) :
    (e.named.items ++ e.residual).filter (·.name = k) = e.under k := by
  rw [List.filter_append]
  have hres : ∀ d ∈ e.residual, d.name = none := he.name_eq none
  cases k with
  | none =>
    rw [List.filter_eq_nil_iff.2, List.filter_eq_self.2]
    · rfl
    · intro d hd
      simp [hres d hd]
    · intro d hd
      obtain ⟨p, hp, hd⟩ := List.mem_flatMap.1 hd
      simp [he.name_of_group p hp d hd]
  | some n =>
    have hnone : e.residual.filter (·.name = some n) = [] :=
      List.filter_eq_nil_iff.2 fun d hd => by simp [hres d hd]
    rw [hnone, List.append_nil]
    exact ItemGroups.filter_items he.groups he.name_of_group

theorem Tidy.mem_definitions (he : e.Tidy) {d : ItemDef} :
    d ∈ e.definitions ↔ d ∈ e.under d.name := by
  rw [← he.filter_name, List.mem_filter, definitions, List.mem_append, List.mem_append, or_comm]
  simp

theorem Tidy.filter_incoming (ho : o.Tidy) (e : EffectiveType) (k : Option Name) :
    (e.incoming o).filter (·.name = k) = (o.under k).filter fun d => !e.includes d.declaringType := by
  rw [incoming, List.filter_filter, ← ho.filter_name, List.filter_filter]
  exact List.filter_congr fun d _ => Bool.and_comm _ _

/-! ### Well-formed types -/

/-- The types of an effective type are those merged and those inherited, and its definitions come from
its types, stand under their names and do not clash. -/
structure WellFormed (e : EffectiveType) : Prop extends Tidy e where
  merged : ∃ n, n ∈ e.mergedTypes
  all_iff : ∀ n, n ∈ e.allTypes ↔ n ∈ e.mergedTypes ∨ n ∈ e.inheritedTypes
  declared : ∀ k, ∀ d ∈ e.under k, d.declaringType ∈ e.allTypes
  compatible : ∀ k, (e.under k).Pairwise fun a b => ¬ a.Clashes b

/-- Definitions compatible name by name are compatible. -/
theorem pairwise_of_filter_name : ∀ {l : List ItemDef},
    (∀ k, (l.filter (·.name = k)).Pairwise fun a b => ¬ a.Clashes b) →
      l.Pairwise fun a b => ¬ a.Clashes b
  | [], _ => List.Pairwise.nil
  | d :: l, h => by
    refine List.pairwise_cons.2 ⟨fun c hc hdc => ?_, pairwise_of_filter_name fun k => ?_⟩
    · have := h d.name
      rw [List.filter_cons_of_pos (by simp), List.pairwise_cons] at this
      exact this.1 c (List.mem_filter.2 ⟨hc, by simp [hdc.1]⟩) hdc
    · exact (h k).sublist ((List.sublist_cons_self d l).filter _)

theorem WellFormed.compatible_all (he : e.WellFormed) :
    (e.named.items ++ e.residual).Pairwise fun a b => ¬ a.Clashes b :=
  pairwise_of_filter_name fun k => by rw [he.filter_name]; exact he.compatible k

/-- No definition is held twice. -/
theorem WellFormed.nodup_definitions (he : e.WellFormed) : e.definitions.Nodup := by
  refine (List.perm_append_comm.nodup_iff).2 (he.compatible_all.imp ?_)
  rintro a b hab rfl
  exact hab a.clashes_self

theorem wellFormed_ofDeclaration {d : Declaration} (h : ofDeclaration d = .ok e) : e.WellFormed := by
  obtain ⟨-, hown, hpw, rfl⟩ := ofDeclaration_ok_iff.1 h
  have hunder : ∀ k, ((bare d).pushAll d.items).under k = d.items.filter (·.name = k) := fun k => by
    rw [under_pushAll, under_bare, List.nil_append]
  refine ⟨(tidy_bare d).pushAll _, ⟨d.name, ?_⟩, fun n => ?_, fun k c hc => ?_, fun k => ?_⟩
  · simp [bare]
  · simp [bare]
  · rw [hunder] at hc
    simp [bare, hown c (List.mem_filter.1 hc).1]
  · rw [hunder]
    exact hpw.filter _

/-! ### The result of a merge -/

/-- `m` is what comes out of merging `o` into `e`. -/
structure Merges (e o : EffectiveType) (kind : MergeKind) (m : EffectiveType) : Prop where
  all_iff : ∀ n, n ∈ m.allTypes ↔ n ∈ e.allTypes ∨ n ∈ o.allTypes
  under : ∀ k, m.under k = e.under k ++ (o.under k).filter fun d => !e.includes d.declaringType
  mixins : m.supportedMixins = e.supportedMixins
  /-- A type that includes nothing new leaves the type sets as they are. -/
  types : ((∀ n ∈ o.allTypes, n ∈ e.allTypes) ∧ m = e) ∨
    ((∃ n ∈ o.allTypes, n ∉ e.allTypes) ∧ match kind with
      | .aggregate => (∀ n, n ∈ m.mergedTypes ↔ n ∈ e.mergedTypes ∨ n ∈ o.mergedTypes) ∧
          ∀ n, n ∈ m.inheritedTypes ↔ n ∈ e.inheritedTypes ∨ n ∈ o.inheritedTypes
      | .supertype => m.mergedTypes = e.mergedTypes ∧
          ∀ n, n ∈ m.inheritedTypes ↔
            n ∈ e.inheritedTypes ∨ n ∈ o.mergedTypes ∨ n ∈ o.inheritedTypes)

theorem under_joinTypes (e o : EffectiveType) (kind : MergeKind) (k : Option Name) :
    (e.joinTypes o kind).under k = e.under k := by
  cases kind <;> cases k <;> rfl

theorem supportedMixins_joinTypes (e o : EffectiveType) (kind : MergeKind) :
    (e.joinTypes o kind).supportedMixins = e.supportedMixins := by
  cases kind <;> rfl

theorem mem_allTypes_joinTypes (e o : EffectiveType) (kind : MergeKind) (n : Name) :
    n ∈ (e.joinTypes o kind).allTypes ↔ n ∈ e.allTypes ∨ n ∈ o.allTypes := by
  cases kind <;> exact NameSet.mem_union

theorem Tidy.joinTypes (he : e.Tidy) (o : EffectiveType) (kind : MergeKind) :
    (e.joinTypes o kind).Tidy := by
  refine ⟨?_, fun k c hc => he.name_eq k c (by rwa [under_joinTypes] at hc)⟩
  cases kind <;> exact he.groups

theorem merge_ok_iff (he : e.Tidy) : e.merge o kind = .ok m ↔
    ((∀ n ∈ o.allTypes, n ∈ e.allTypes) ∧ m = e) ∨
      ((∃ n ∈ o.allTypes, n ∉ e.allTypes) ∧ e.Admits (e.incoming o) ∧
        m = (e.pushAll (e.incoming o)).joinTypes o kind) := by
  unfold merge
  have hred : e.includesAll o.allTypes.toList = true ↔ ∀ n ∈ o.allTypes, n ∈ e.allTypes :=
    includesAll_iff
  split
  · next h =>
    have hno : ¬ ∃ n ∈ o.allTypes, n ∉ e.allTypes := by
      rintro ⟨n, hn, hne⟩
      exact hne (hred.1 h n hn)
    have hall := hred.1 h
    simp only [hno, false_and, or_false, Except.ok.injEq, eq_comm (a := e)]
    exact ⟨fun hm => ⟨hall, hm⟩, fun hm => hm.2⟩
  · next h =>
    rw [hred] at h
    have hex : ∃ n ∈ o.allTypes, n ∉ e.allTypes := by
      by_contra hno
      exact h fun n hn => by_contra fun hne => hno ⟨n, hn, hne⟩
    simp only [h, false_and, false_or, hex, true_and]
    cases hadd : e.addItems (e.incoming o) with
    | ok f =>
      obtain ⟨ha, rfl⟩ := (addItems_ok_iff he).1 hadd
      simp [Except.map, ha, eq_comm]
    | error c =>
      have : ¬ e.Admits (e.incoming o) := fun ha => by
        rw [(addItems_ok_iff he).2 ⟨ha, rfl⟩] at hadd
        cases hadd
      simp [Except.map, this]

theorem under_merge (he : e.Tidy) (ho : o.WellFormed) (h : e.merge o kind = .ok m) (k : Option Name) :
    m.under k = e.under k ++ (o.under k).filter fun d => !e.includes d.declaringType := by
  rcases (merge_ok_iff he).1 h with ⟨hall, rfl⟩ | ⟨-, -, rfl⟩
  · rw [List.filter_eq_nil_iff.2 fun d hd => ?_, List.append_nil]
    simp [hall _ (ho.declared k d hd)]
  · rw [under_joinTypes, under_pushAll, ho.filter_incoming]

theorem merges_of_merge (he : e.Tidy) (ho : o.WellFormed) (h : e.merge o kind = .ok m) :
    Merges e o kind m := by
  have hunder := under_merge he ho h
  rcases (merge_ok_iff he).1 h with ⟨hall, rfl⟩ | ⟨hex, -, rfl⟩
  · exact ⟨fun n => ⟨Or.inl, fun hn => hn.elim id (hall n)⟩, hunder, rfl, Or.inl ⟨hall, rfl⟩⟩
  · refine ⟨fun n => ?_, hunder, ?_, Or.inr ⟨hex, ?_⟩⟩
    · rw [mem_allTypes_joinTypes, allTypes_pushAll]
    · rw [supportedMixins_joinTypes, supportedMixins_pushAll]
    · cases kind with
      | aggregate => exact ⟨fun n => by simp [joinTypes], fun n => by simp [joinTypes]⟩
      | supertype => exact ⟨by simp [joinTypes], fun n => by simp [joinTypes, or_assoc]⟩

/-- **When a merge fails**: a definition of a type that is new to the receiver clashes with one of the
receiver. -/
theorem merge_error_iff (he : e.Tidy) (ho : o.WellFormed) : (∃ c, e.merge o kind = .error c) ↔
    ∃ d ∈ o.definitions, d.declaringType ∉ e.allTypes ∧ ∃ c ∈ e.definitions, d.Clashes c := by
  have hmem : ∀ d, d ∈ e.incoming o ↔ d ∈ o.definitions ∧ d.declaringType ∉ e.allTypes := by
    intro d
    rw [incoming, List.mem_filter, definitions, List.mem_append, List.mem_append, or_comm (a := d ∈ _)]
    simp
  have hfail : (∃ c, e.merge o kind = .error c) ↔ ∀ m, e.merge o kind ≠ .ok m := by
    cases e.merge o kind <;> simp
  have hpw : (e.incoming o).Pairwise fun a b => ¬ a.Clashes b := ho.compatible_all.filter _
  rw [hfail]
  constructor
  · intro h
    by_contra hno
    -- without a clash there is a result: the receiver itself, or the receiver with what comes in
    by_cases hall : ∀ n ∈ o.allTypes, n ∈ e.allTypes
    · exact h e ((merge_ok_iff he).2 (Or.inl ⟨hall, rfl⟩))
    · have hex : ∃ n ∈ o.allTypes, n ∉ e.allTypes := by
        by_contra hne
        exact hall fun n hn => by_contra fun hn' => hne ⟨n, hn, hn'⟩
      refine h _ ((merge_ok_iff he).2 (Or.inr ⟨hex, ⟨fun d hd c hc hdc => hno ?_, hpw⟩, rfl⟩))
      obtain ⟨hd, hdec⟩ := (hmem d).1 hd
      exact ⟨d, hd, hdec, c, he.mem_definitions.2 (by rwa [← hdc.1]), hdc⟩
  · rintro ⟨d, hd, hdec, c, hc, hdc⟩ m hm
    rcases (merge_ok_iff he).1 hm with ⟨hall, -⟩ | ⟨-, ha, -⟩
    · exact hdec (hall _ (ho.declared _ d (ho.mem_definitions.1 hd)))
    · refine ha.1 d ((hmem d).2 ⟨hd, hdec⟩) c ?_ hdc
      rw [hdc.1]
      exact he.mem_definitions.1 hc

theorem WellFormed.merge (he : e.WellFormed) (ho : o.WellFormed) (h : e.merge o kind = .ok m) :
    m.WellFormed := by
  have hm := merges_of_merge he.toTidy ho h
  refine { toTidy := ?_, merged := ?_, all_iff := fun n => ?_, declared := fun k d hd => ?_,
           compatible := fun k => ?_ }
  · rcases (merge_ok_iff he.toTidy).1 h with ⟨-, rfl⟩ | ⟨-, -, rfl⟩
    · exact he.toTidy
    · exact (he.toTidy.pushAll _).joinTypes o kind
  · obtain ⟨n, hn⟩ := he.merged
    refine ⟨n, ?_⟩
    rcases hm.types with ⟨-, rfl⟩ | ⟨-, ht⟩
    · exact hn
    · cases kind with
      | aggregate => exact (ht.1 n).2 (Or.inl hn)
      | supertype => exact ht.1 ▸ hn
  · rcases hm.types with ⟨-, rfl⟩ | ⟨-, ht⟩
    · exact he.all_iff n
    · rw [hm.all_iff, he.all_iff, ho.all_iff]
      cases kind with
      | aggregate => rw [ht.1, ht.2]; tauto
      | supertype => rw [ht.1, ht.2]; tauto
  · rw [hm.under, List.mem_append] at hd
    rw [hm.all_iff]
    rcases hd with hd | hd
    · exact Or.inl (he.declared k d hd)
    · exact Or.inr (ho.declared k d (List.mem_filter.1 hd).1)
  · rw [hm.under, List.pairwise_append]
    refine ⟨he.compatible k, (ho.compatible k).filter _, fun a ha b hb hab => ?_⟩
    obtain ⟨hb, hnew⟩ := List.mem_filter.1 hb
    have hnone : ¬ ∃ c, e.merge o kind = .error c := by rw [h]; simp
    refine hnone ((merge_error_iff he.toTidy ho).2 ⟨b, ?_, by simpa using hnew, a, ?_, hab.symm⟩)
    · rw [ho.mem_definitions, ho.name_eq k b hb]; exact hb
    · rw [he.mem_definitions, he.name_eq k a ha]; exact ha

/-! ### Types made of declarations -/

/-- The effective types that are made of declarations by merging. -/
inductive Built : EffectiveType → Prop where
  | ofDeclaration {d : Declaration} {e : EffectiveType} : ofDeclaration d = .ok e → Built e
  | merge {e o m : EffectiveType} {kind : MergeKind} :
      Built e → Built o → e.merge o kind = .ok m → Built m

theorem Built.wellFormed (h : Built e) : e.WellFormed := by
  induction h with
  | ofDeclaration h => exact wellFormed_ofDeclaration h
  | merge _ _ h he ho => exact he.merge ho h

end EffectiveType

end ContentTypes
