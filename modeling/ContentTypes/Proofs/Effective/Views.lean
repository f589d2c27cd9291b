import ContentTypes.Proofs.Effective.Merge

/-! # What the views show

A definition is held if it is residual or stands in the list of its name. `EffectiveType.Shows` says that a list
has just the held definitions of one sort, each once. Picking from such a list by a flag, and splitting it by
kind, give such lists again (`Shows.pick`, `Shows.by_kind`); and the named definitions and all definitions are
two to begin with (`shows_named`, `shows_definitions`).

So the views by kind show every held definition, and those by flag every named one with the flag
(`views_show`). A residual definition that carries a flag is held without being in any view by flag
(`views_by_flag_pass_over_residual`): nothing forbids such a declaration. -/

namespace ContentTypes

namespace EffectiveType

variable {e : EffectiveType} {sort : ItemDef → Prop} {l : List ItemDef}

/-- The definition is residual or stands in the list of a name. -/
def Holds (e : EffectiveType) (d : ItemDef) : Prop := d ∈ e.residual ∨ ∃ n, d ∈ e.namedItems n

/-- **The list shows a sort**: all held definitions of the sort and no others, each once. -/
structure Shows (e : EffectiveType) (sort : ItemDef → Prop) (l : List ItemDef) : Prop where
  nodup : l.Nodup
  mem_iff : ∀ d, d ∈ l ↔ e.Holds d ∧ sort d

/-! ### Picking and splitting -/

theorem Shows.pick (h : e.Shows sort l) (p : ItemDef → Bool) :
    e.Shows (fun d => sort d ∧ p d = true) (l.filter p) where
  nodup := h.nodup.filter p
  mem_iff d := by rw [List.mem_filter, h.mem_iff, and_assoc]

/-- Child nodes and properties together are what they were picked from. -/
theorem Shows.by_kind (h : e.Shows sort l) :
    e.Shows sort (l.filter (·.definesNode) ++ l.filter (!·.definesNode)) := by
  have hperm := List.filter_append_perm (·.definesNode) l
  exact ⟨hperm.nodup_iff.2 h.nodup, fun d => hperm.mem_iff.trans (h.mem_iff d)⟩

/-! ### What is held -/

theorem Tidy.holds_iff (he : e.Tidy) {d : ItemDef} : e.Holds d ↔ d ∈ e.definitions := by
  rw [he.mem_definitions]
  constructor
  · rintro (hd | ⟨n, hd⟩)
    · rwa [he.name_eq none d hd]
    · rwa [he.name_eq (some n) d hd]
  · intro hd
    cases hname : d.name with
    | none => exact Or.inl (by rwa [hname] at hd)
    | some n => exact Or.inr ⟨n, by rwa [hname] at hd⟩

theorem WellFormed.shows_definitions (he : e.WellFormed) : e.Shows (fun _ => True) e.definitions where
  nodup := he.nodup_definitions
  mem_iff d := by rw [he.holds_iff, and_true]

theorem WellFormed.shows_named (he : e.WellFormed) : e.Shows (fun d => d.name.isSome) e.named.items where
  nodup := (List.nodup_append'.1 he.nodup_definitions).2.1
  mem_iff d := by
    rw [he.holds_iff, definitions, List.mem_append]
    constructor
    · intro hd
      obtain ⟨p, hp, hdp⟩ := List.mem_flatMap.1 hd
      exact ⟨Or.inr hd, by rw [he.name_of_group p hp d hdp]; rfl⟩
    · rintro ⟨hd | hd, hname⟩
      · rw [he.name_eq none d hd] at hname
        cases hname
      · exact hd

theorem WellFormed.shows_residual (he : e.WellFormed) : e.Shows (fun d => d.name = none) e.residual where
  nodup := (List.nodup_append'.1 he.nodup_definitions).1
  mem_iff d := by
    rw [he.holds_iff, he.mem_definitions]
    constructor
    · intro hd
      have hname := he.name_eq none d hd
      exact ⟨by rwa [hname], hname⟩
    · rintro ⟨hd, hname⟩
      rwa [hname] at hd

/-- The views of named definitions by kind and a flag. -/
theorem WellFormed.shows_flagged (he : e.WellFormed) (flag : ItemDef → Bool) :
    e.Shows (fun d => d.name.isSome ∧ flag d)
      ((e.named.items.filter fun d => d.definesNode && flag d) ++
        e.named.items.filter fun d => !d.definesNode && flag d) := by
  have h := (he.shows_named.pick flag).by_kind
  rwa [List.filter_filter, List.filter_filter] at h

/-! ### The views -/

/-- **What the views show**, for every effective type that is made of declarations: the auto-created
definitions that have a name, the mandatory ones that have one, and all definitions held, each once. The
definitions without a name are the residual ones. -/
theorem views_show (h : Built e) :
    e.Shows (fun d => d.name.isSome ∧ d.isAutoCreated) (e.autoCreatedNodes ++ e.autoCreatedProperties) ∧
    e.Shows (fun d => d.name.isSome ∧ d.isMandatory) (e.mandatoryNodes ++ e.mandatoryProperties) ∧
    e.Shows (fun _ => True) (e.nodes ++ e.properties) ∧
    e.Shows (fun d => d.name = none) e.residual := by
  have he := h.wellFormed
  exact ⟨he.shows_flagged (·.isAutoCreated), he.shows_flagged (·.isMandatory), he.shows_definitions.by_kind,
    he.shows_residual⟩

/-- A form with a title; whatever else is put down in it is to come with it and to stay. -/
def form : Declaration :=
  (({ name := "form" } : Declaration).withItem
    ((ItemDef.property "form" (some "title") .string).withFlags .autoCreated)).withItem
    ((ItemDef.property "form" none .string).withFlags (.union .autoCreated .mandatory))

/-- The view of the auto-created properties of a form shows the title alone. -/
theorem views_show_form :
    ∃ e, Built e ∧ e.residual.length = 1 ∧ e.properties.length = 2 ∧
      e.autoCreatedProperties.map (·.name) = [some "title"] ∧
      e.Shows (fun d => d.name.isSome ∧ d.isAutoCreated) (e.autoCreatedNodes ++ e.autoCreatedProperties) := by
  obtain ⟨e, he, hresidual, hproperties, hauto⟩ : ∃ e, ofDeclaration form = .ok e ∧ e.residual.length = 1 ∧
      e.properties.length = 2 ∧ e.autoCreatedProperties.map (·.name) = [some "title"] :=
    ⟨_, rfl, by decide, by decide, by decide⟩
  have hbuilt : Built e := .ofDeclaration he
  exact ⟨e, hbuilt, hresidual, hproperties, hauto, (views_show hbuilt).1⟩

/-- The views by flag do not show all that is held with the flag: the residual definition of a form is
auto-created and mandatory, and in none of them. -/
theorem views_by_flag_pass_over_residual :
    ∃ e, ofDeclaration form = .ok e ∧
      ¬ e.Shows (fun d => d.isAutoCreated) (e.autoCreatedNodes ++ e.autoCreatedProperties) ∧
      ¬ e.Shows (fun d => d.isMandatory) (e.mandatoryNodes ++ e.mandatoryProperties) := by
  obtain ⟨e, he, d, hd, hauto, hmandatory, hno, hno'⟩ : ∃ e, ofDeclaration form = .ok e ∧
      ∃ d, d ∈ e.residual ∧ d.isAutoCreated = true ∧ d.isMandatory = true ∧
        d ∉ e.autoCreatedNodes ++ e.autoCreatedProperties ∧
        d ∉ e.mandatoryNodes ++ e.mandatoryProperties :=
    ⟨_, rfl, (ItemDef.property "form" none .string).withFlags (.union .autoCreated .mandatory), by decide,
      by decide, by decide, by decide, by decide⟩
  exact ⟨e, he, fun h => hno ((h.mem_iff d).2 ⟨Or.inl hd, hauto⟩),
    fun h => hno' ((h.mem_iff d).2 ⟨Or.inl hd, hmandatory⟩)⟩

end EffectiveType

end ContentTypes
