import Mathlib.Data.List.Forall2
import Mathlib.Data.List.Nodup
import Mathlib.Tactic.Common
import ContentTypes.Json.Record
import ContentTypes.Proofs.Text.Reading

/-! # The forms of a record

A record is written as the object of its fields in their order, but may be given in other forms
(`RecordForm`): the members in another order, members added that are no fields, members left out whose
fields may be missing, or the values of the fields as an array. The reader of records brings all of them to
fields with the values that they may have (`RecordForm.exists_record?`): every one of these changes keeps
what is needed of the members (`Holds`). -/

namespace ContentTypes.Json

/-- A field of a record: the values it may be given, and whether it may be left out. -/
structure Field where
  name : String
  Value : Json → Prop
  Omissible : Prop

/-- A record gives the field a value that it may have, or leaves it out where it may. -/
structure Field.Given (f : Field) (r : Record) : Prop where
  value : ∀ j, r.lookup f.name = some j → f.Value j
  omissible : r.lookup f.name = none → f.Omissible

/-- The members of the objects in which a record of the fields may be given. -/
inductive ObjectForm (fields : List Field) : List (String × Json) → Prop
  /-- All fields in their order. -/
  | written {values : List Json} (h : List.Forall₂ Field.Value fields values) :
      ObjectForm fields ((fields.map Field.name).zip values)
  /-- The members in another order. -/
  | reordered {members members' : List (String × Json)} (h : ObjectForm fields members)
      (hperm : members.Perm members') : ObjectForm fields members'
  /-- A member added that is no field. -/
  | extended {members : List (String × Json)} (h : ObjectForm fields members) {key : String}
      (hkey : key ∉ fields.map Field.name) (j : Json) : ObjectForm fields ((key, j) :: members)
  /-- A member left out whose field may be missing. -/
  | leftOut {members : List (String × Json)} {f : Field} {j : Json}
      (h : ObjectForm fields ((f.name, j) :: members)) (hf : f ∈ fields) (homissible : f.Omissible) : ObjectForm fields members

/-- The forms in which a record of the fields may be given. -/
inductive RecordForm (fields : List Field) : Json → Prop
  | object {members : List (String × Json)} (h : ObjectForm fields members) :
      RecordForm fields (Json.object members)
  /-- All values in the order of their fields. -/
  | positional {values : List Json} (h : List.Forall₂ Field.Value fields values) :
      RecordForm fields (.arr values)

/-- The forms of a list: an array with a form of each element. -/
def ListForm (Form : α → Json → Prop) (l : List α) (j : Json) : Prop :=
  ∃ elements, List.Forall₂ Form l elements ∧ j = .arr elements

/-- Members that give a record of the fields: no field twice, a field only values that it may have, and every
field that may not be left out. -/
structure Holds (fields : List Field) (members : List (String × Json)) : Prop where
  once : ((members.filter fun m => (fields.map Field.name).contains m.1).map (·.1)).Nodup
  value : ∀ f ∈ fields, ∀ j, (f.name, j) ∈ members → f.Value j
  given : ∀ f ∈ fields, f.Omissible ∨ ∃ j, (f.name, j) ∈ members

/-- Fields of distinct names: a name stands for one field. -/
def Distinct (fields : List Field) : Prop := (fields.map Field.name).Nodup

variable {fields : List Field} {members members' : List (String × Json)}

theorem Distinct.eq_of_name_eq (hfields : Distinct fields) {f g : Field} (hf : f ∈ fields) (hg : g ∈ fields)
    (hname : f.name = g.name) : f = g :=
  List.inj_on_of_nodup_map hfields hf hg hname

namespace Holds

theorem zip (hfields : Distinct fields) {values : List Json} (h : List.Forall₂ Field.Value fields values) :
    Holds fields ((fields.map Field.name).zip values) where
  once := by
    have hkeys : ((fields.map Field.name).zip values).map (·.1) = fields.map Field.name :=
      List.map_fst_zip (by simp [h.length_eq])
    refine List.Nodup.sublist (List.filter_sublist.map _) ?_
    rw [hkeys]
    exact hfields
  value := by
    intro f hf j hj
    rw [List.zip_map_left] at hj
    obtain ⟨⟨g, j'⟩, hmem, heq⟩ := List.mem_map.1 hj
    obtain ⟨hname, rfl⟩ := Prod.mk.inj heq
    obtain rfl := hfields.eq_of_name_eq (List.of_mem_zip hmem).1 hf hname
    exact (List.forall₂_iff_zip.1 h).2 hmem
  given := by
    intro f hf
    rw [← List.map_fst_zip (Nat.le_of_eq h.length_eq)] at hf
    obtain ⟨⟨_, j⟩, hmem, rfl⟩ := List.mem_map.1 hf
    rw [List.zip_map_left]
    exact .inr ⟨j, List.mem_map.2 ⟨_, hmem, rfl⟩⟩

theorem perm (h : Holds fields members) (hperm : members.Perm members') : Holds fields members' where
  once := (((hperm.filter _).map _).nodup_iff).1 h.once
  value := fun f hf j hj => h.value f hf j (hperm.mem_iff.2 hj)
  given := fun f hf => (h.given f hf).imp_right fun ⟨j, hj⟩ => ⟨j, hperm.mem_iff.1 hj⟩

theorem cons (h : Holds fields members) {key : String} (hkey : key ∉ fields.map Field.name) (j : Json) :
    Holds fields ((key, j) :: members) where
  once := by
    rw [List.filter_cons_of_neg (by simpa using hkey)]
    exact h.once
  value := by
    rintro f hf v (_ | ⟨_, hv⟩)
    · exact absurd (List.mem_map_of_mem hf) hkey
    · exact h.value f hf v hv
  given := fun f hf => (h.given f hf).imp_right fun ⟨v, hv⟩ => ⟨v, List.mem_cons_of_mem _ hv⟩

theorem of_cons (hfields : Distinct fields) {f : Field} {j : Json} (hf : f ∈ fields) (homissible : f.Omissible)
    (h : Holds fields ((f.name, j) :: members)) : Holds fields members where
  once := h.once.sublist (((List.sublist_cons_self _ _).filter _).map _)
  value := fun g hg v hv => h.value g hg v (List.mem_cons_of_mem _ hv)
  given := by
    intro g hg
    rcases h.given g hg with hmissing | ⟨v, hv⟩
    · exact .inl hmissing
    · rcases List.mem_cons.1 hv with heq | hv
      · obtain rfl := hfields.eq_of_name_eq hg hf (Prod.mk.inj heq).1
        exact .inl homissible
      · exact .inr ⟨v, hv⟩

/-- A record with the same members for the fields gives each of them. -/
theorem gives (h : Holds fields members) {r : Record}
    (hr : ∀ f ∈ fields, ∀ j, (f.name, j) ∈ r ↔ (f.name, j) ∈ members) : ∀ f ∈ fields, f.Given r := by
  intro f hf
  constructor
  · intro j hj
    obtain ⟨before, behind, rfl, -⟩ := List.lookup_eq_some_iff.1 hj
    exact h.value f hf j ((hr f hf j).1 (by simp))
  · intro hnone
    refine (h.given f hf).resolve_right ?_
    rintro ⟨j, hj⟩
    simpa using List.lookup_eq_none_iff.1 hnone _ ((hr f hf j).2 hj)

theorem record?_object (h : Holds fields members) :
    ∃ r, record? (fields.map Field.name) (object members) = some r ∧ ∀ f ∈ fields, f.Given r := by
  have hkeys : (members.map fun m => (some m.1, m.2)).mapM (fun m : Text × Json => m.1.map (·, m.2)) =
      some members := by
    refine Text.mapM_of_forall₂ ?_
    rw [List.forall₂_map_left_iff, List.forall₂_same]
    exact fun _ _ => rfl
  refine ⟨members.filter fun m => (fields.map Field.name).contains m.1, ?_, h.gives ?_⟩
  · rw [object, record?, hkeys]
    exact if_pos h.once
  · intro f hf j
    rw [List.mem_filter]
    exact and_iff_left (List.elem_eq_true_of_mem (List.mem_map_of_mem hf))

end Holds

/-- Every change of the members keeps that they give a record of the fields. -/
theorem ObjectForm.holds (hfields : Distinct fields) (h : ObjectForm fields members) : Holds fields members := by
  induction h with
  | written h => exact .zip hfields h
  | reordered _ hperm ih => exact ih.perm hperm
  | extended _ hkey j ih => exact ih.cons hkey j
  | leftOut _ hf homissible ih => exact .of_cons hfields hf homissible ih

/-- **A record is read from each of its forms**, with values that its fields may have. -/
theorem RecordForm.exists_record? (hfields : Distinct fields) {j : Json} (h : RecordForm fields j) :
    ∃ r, record? (fields.map Field.name) j = some r ∧ ∀ f ∈ fields, f.Given r := by
  cases h with
  | object h => exact (h.holds hfields).record?_object
  | positional h =>
    refine ⟨_, if_pos ?_, (Holds.zip hfields h).gives fun _ _ _ => .rfl⟩
    simp [h.length_eq]

/-! ### Reading values and fields -/

theorem text?_text (s : String) : text? (text s) = some s := rfl

theorem bool?_bool (b : Bool) : bool? (.bool b) = some b := rfl

theorem list?_of_listForm {Form : α → Json → Prop} {read : Json → Option α}
    (hread : ∀ a j, Form a j → read j = some a) {l : List α} {j : Json} (h : ListForm Form l j) :
    list? read j = some l := by
  obtain ⟨elements, h, rfl⟩ := h
  exact Text.mapM_of_forall₂ (h.flip.imp fun j a => hread a j)

variable {f : Field} {r : Record} {read : Json → Option α} {a : α}

theorem Field.Given.required (h : f.Given r) (hread : ∀ j, f.Value j → read j = some a)
    (hmissing : ¬ f.Omissible) : r.required f.name read = some a := by
  rcases hlookup : r.lookup f.name with _ | j
  · exact absurd (h.omissible hlookup) hmissing
  · rw [Record.required, hlookup]
    exact hread j (h.value j hlookup)

theorem Field.Given.defaulted (h : f.Given r) (hread : ∀ j, f.Value j → read j = some a) {default : α}
    (hmissing : f.Omissible → a = default) : r.defaulted f.name read default = some a := by
  rcases hlookup : r.lookup f.name with _ | j
  · rw [Record.defaulted, hlookup, hmissing (h.omissible hlookup)]
  · rw [Record.defaulted, hlookup]
    exact hread j (h.value j hlookup)

end ContentTypes.Json
