import ContentTypes.Declaration.Json
import ContentTypes.Proofs.Item.Flags
import ContentTypes.Proofs.Json.Forms
import ContentTypes.Proofs.Json.Text

/-! # Declarations are read back from JSON

The forms of a declaration (`Declaration.Form`) are those of a record of its fields, where each item
definition may stand in any of its own forms, and the body of its kind too. Fields with a default may be left
out by a declaration that has the default in them. What `toJson` writes is one of the forms, and from each of
them the declaration is read. -/

namespace ContentTypes

open Json (text texts object Field RecordForm)

/-! ### Forms -/

/-- The key of the object that says what kind of item is defined. -/
def ItemKind.key : ItemKind → String
  | .property .. => "property"
  | .node .. => "node"

def ItemKind.fields : ItemKind → List Field
  | .property type multiple =>
    [⟨"required_type", (· = text type.text), False⟩, ⟨"multiple", (· = .bool multiple), multiple = false⟩]
  | .node required default siblings =>
    [⟨"required_primary_types", (· = texts required), required = []⟩,
      ⟨"default_primary_type", (· = .option text default), default = none⟩,
      ⟨"same_name_siblings", (· = .bool siblings), siblings = false⟩]

/-- The forms of a kind: always an object of one member, in which a record stands. -/
def ItemKind.Form (k : ItemKind) (j : Json) : Prop :=
  ∃ body, RecordForm k.fields body ∧ j = object [(k.key, body)]

def ItemDef.fields (d : ItemDef) : List Field :=
  [⟨"name", (· = .option text d.name), d.name = none⟩,
    ⟨"declaring_type", (· = text d.declaringType), False⟩,
    ⟨"flags", (· = text d.flags.text), d.flags = .empty⟩,
    ⟨"on_parent_version", (· = text d.onParentVersion.text), d.onParentVersion = .copy⟩,
    ⟨"kind", d.kind.Form, False⟩]

def ItemDef.Form (d : ItemDef) : Json → Prop := RecordForm d.fields

def Declaration.fields (d : Declaration) : List Field :=
  [⟨"name", (· = text d.name), False⟩,
    ⟨"supertypes", (· = texts d.supertypes), d.supertypes = []⟩,
    ⟨"is_mixin", (· = .bool d.isMixin), d.isMixin = false⟩,
    ⟨"supported_mixins", (· = .option texts d.supportedMixins), d.supportedMixins = none⟩,
    ⟨"item_definitions", Json.ListForm ItemDef.Form d.items, d.items = []⟩]

def Declaration.Form (d : Declaration) : Json → Prop := RecordForm d.fields

/-! ### What is written is a form -/

theorem ItemKind.form_toJson (k : ItemKind) : k.Form k.toJson := by
  cases k with
  | property type multiple =>
    exact ⟨_, .object (.written (.cons rfl (.cons rfl .nil))), rfl⟩
  | node required default siblings =>
    exact ⟨_, .object (.written (.cons rfl (.cons rfl (.cons rfl .nil)))), rfl⟩

theorem ItemDef.form_toJson (d : ItemDef) : d.Form d.toJson :=
  .object (.written (.cons rfl (.cons rfl (.cons rfl (.cons rfl (.cons d.kind.form_toJson .nil))))))

theorem Declaration.form_toJson (d : Declaration) : d.Form d.toJson := by
  have hitems : Json.ListForm ItemDef.Form d.items (.arr (d.items.map ItemDef.toJson)) := by
    refine ⟨_, ?_, rfl⟩
    rw [List.forall₂_map_right_iff, List.forall₂_same]
    exact fun item _ => item.form_toJson
  exact .object (.written (.cons rfl (.cons rfl (.cons rfl (.cons rfl (.cons hitems .nil))))))

/-! ### Values are read -/

theorem namesOfJson?_texts (l : List Name) : namesOfJson? (texts l) = some l := by
  refine Text.mapM_of_forall₂ ?_
  rw [List.forall₂_map_left_iff, List.forall₂_same]
  exact fun _ _ => rfl

theorem optional_name (n : Option Name) : Json.optional? Json.text? (.option text n) = some n := by
  cases n <;> rfl

theorem optional_names (l : Option (List Name)) : Json.optional? namesOfJson? (.option texts l) = some l := by
  cases l with
  | none => rfl
  | some l => exact congrArg (·.map some) (namesOfJson?_texts l)

theorem ItemFlags.ofJson?_text (f : ItemFlags) : ItemFlags.ofJson? (Json.text f.text) = some f := by
  rw [ofJson?, Json.text?_text, Option.bind_some, ofText?_text]

/-! ### Forms are read -/

theorem ItemKind.distinct_fields (k : ItemKind) : Json.Distinct k.fields := by
  cases k with
  | property => exact (by decide : ["required_type", "multiple"].Nodup)
  | node => exact (by decide : ["required_primary_types", "default_primary_type", "same_name_siblings"].Nodup)

theorem ItemKind.ofJson?_of_form {k : ItemKind} {j : Json} (h : k.Form j) : ItemKind.ofJson? j = some k := by
  obtain ⟨body, hbody, rfl⟩ := h
  obtain ⟨r, hr, hgiven⟩ := hbody.exists_record? k.distinct_fields
  cases k with
  | property type multiple =>
    simp only [ItemKind.fields, List.forall_mem_cons] at hgiven
    obtain ⟨htype, hmultiple, -⟩ := hgiven
    have htype : r.required "required_type" (Json.word? PropertyType.ofText?) = some type :=
      htype.required (forall_eq.2 (PropertyType.ofText?_text type)) id
    have hmultiple : r.defaulted "multiple" Json.bool? false = some multiple :=
      hmultiple.defaulted (forall_eq.2 (Json.bool?_bool multiple)) id
    replace hr : Json.record? ["required_type", "multiple"] body = some r := hr
    show propertyOfJson? body = _
    rw [propertyOfJson?, hr]
    simp [htype, hmultiple]
  | node required default siblings =>
    simp only [ItemKind.fields, List.forall_mem_cons] at hgiven
    obtain ⟨hrequired, hdefault, hsiblings, -⟩ := hgiven
    have hrequired : r.defaulted "required_primary_types" namesOfJson? [] = some required :=
      hrequired.defaulted (forall_eq.2 (namesOfJson?_texts required)) id
    have hdefault : r.defaulted "default_primary_type" (Json.optional? Json.text?) none = some default :=
      hdefault.defaulted (forall_eq.2 (optional_name default)) id
    have hsiblings : r.defaulted "same_name_siblings" Json.bool? false = some siblings :=
      hsiblings.defaulted (forall_eq.2 (Json.bool?_bool siblings)) id
    replace hr : Json.record? ["required_primary_types", "default_primary_type", "same_name_siblings"] body =
      some r := hr
    show nodeOfJson? body = _
    rw [nodeOfJson?, hr]
    simp [hrequired, hdefault, hsiblings]

theorem ItemDef.ofJson?_of_form {d : ItemDef} {j : Json} (h : d.Form j) : ItemDef.ofJson? j = some d := by
  have hdistinct : Json.Distinct d.fields :=
    (by decide : ["name", "declaring_type", "flags", "on_parent_version", "kind"].Nodup)
  obtain ⟨r, hr, hgiven⟩ := h.exists_record? hdistinct
  simp only [ItemDef.fields, List.forall_mem_cons] at hgiven
  obtain ⟨hname, hdeclaring, hflags, haction, hkind, -⟩ := hgiven
  have hname : r.defaulted "name" (Json.optional? Json.text?) none = some d.name :=
    hname.defaulted (forall_eq.2 (optional_name d.name)) id
  have hdeclaring : r.required "declaring_type" Json.text? = some d.declaringType :=
    hdeclaring.required (forall_eq.2 (Json.text?_text d.declaringType)) id
  have hflags : r.defaulted "flags" ItemFlags.ofJson? .empty = some d.flags :=
    hflags.defaulted (forall_eq.2 d.flags.ofJson?_text) id
  have haction : r.defaulted "on_parent_version" (Json.word? VersionAction.ofText?) .copy =
      some d.onParentVersion :=
    haction.defaulted (forall_eq.2 (VersionAction.ofText?_text d.onParentVersion)) id
  have hkind : r.required "kind" ItemKind.ofJson? = some d.kind :=
    hkind.required (fun _ h => ItemKind.ofJson?_of_form h) id
  replace hr : Json.record? ["name", "declaring_type", "flags", "on_parent_version", "kind"] j = some r := hr
  rw [ItemDef.ofJson?, hr]
  simp [hname, hdeclaring, hflags, haction, hkind]

theorem Declaration.ofJson?_of_form {d : Declaration} {j : Json} (h : d.Form j) :
    Declaration.ofJson? j = some d := by
  have hdistinct : Json.Distinct d.fields :=
    (by decide : ["name", "supertypes", "is_mixin", "supported_mixins", "item_definitions"].Nodup)
  obtain ⟨r, hr, hgiven⟩ := h.exists_record? hdistinct
  simp only [Declaration.fields, List.forall_mem_cons] at hgiven
  obtain ⟨hname, hsupertypes, hmixin, hsupported, hitems, -⟩ := hgiven
  have hname : r.required "name" Json.text? = some d.name :=
    hname.required (forall_eq.2 (Json.text?_text d.name)) id
  have hsupertypes : r.defaulted "supertypes" namesOfJson? [] = some d.supertypes :=
    hsupertypes.defaulted (forall_eq.2 (namesOfJson?_texts d.supertypes)) id
  have hmixin : r.defaulted "is_mixin" Json.bool? false = some d.isMixin :=
    hmixin.defaulted (forall_eq.2 (Json.bool?_bool d.isMixin)) id
  have hsupported : r.defaulted "supported_mixins" (Json.optional? namesOfJson?) none = some d.supportedMixins :=
    hsupported.defaulted (forall_eq.2 (optional_names d.supportedMixins)) id
  have hread : ∀ j, Json.ListForm ItemDef.Form d.items j → Json.list? ItemDef.ofJson? j = some d.items :=
    fun _ h => Json.list?_of_listForm (fun _ _ h => ItemDef.ofJson?_of_form h) h
  have hitems : r.defaulted "item_definitions" (Json.list? ItemDef.ofJson?) [] = some d.items :=
    hitems.defaulted hread id
  replace hr : Json.record? ["name", "supertypes", "is_mixin", "supported_mixins", "item_definitions"] j =
    some r := hr
  rw [Declaration.ofJson?, hr]
  simp [hname, hsupertypes, hmixin, hsupported, hitems]

/-! ### From the text -/

theorem ItemKind.written_toJson (k : ItemKind) : k.toJson.Written := by
  cases k with
  | property type multiple =>
    refine Json.written_object (List.forall_mem_singleton.2 (Json.written_object ?_))
    simp only [List.forall_mem_cons]
    exact ⟨Json.written_str _, Json.written_bool _, fun _ h => by cases h⟩
  | node required default siblings =>
    refine Json.written_object (List.forall_mem_singleton.2 (Json.written_object ?_))
    simp only [List.forall_mem_cons]
    exact ⟨Json.written_texts _, Json.written_option (fun _ => Json.written_str _) _, Json.written_bool _,
      fun _ h => by cases h⟩

theorem ItemDef.written_toJson (d : ItemDef) : d.toJson.Written := by
  refine Json.written_object ?_
  simp only [List.forall_mem_cons]
  exact ⟨Json.written_option (fun _ => Json.written_str _) _, Json.written_str _, Json.written_str _,
    Json.written_str _, d.kind.written_toJson, fun _ h => by cases h⟩

theorem Declaration.written_toJson (d : Declaration) : d.toJson.Written := by
  refine Json.written_object ?_
  simp only [List.forall_mem_cons]
  exact ⟨Json.written_str _, Json.written_texts _, Json.written_bool _, Json.written_option Json.written_texts _,
    Json.written_arr (List.forall_mem_map.2 fun item _ => item.written_toJson), fun _ h => by cases h⟩

/-- **A declaration is read back from JSON.** The text that is written for it gives the same declaration, and so
does every form of it, as a value and as a text. -/
theorem Declaration.read_back (d : Declaration) :
    d.Form d.toJson ∧ (Json.parse? d.toJson.compact).bind ofJson? = some d ∧
      ∀ j, d.Form j → ofJson? j = some d ∧ (j.Written → (Json.parse? j.compact).bind ofJson? = some d) := by
  have hform : ∀ j, d.Form j → j.Written → (Json.parse? j.compact).bind ofJson? = some d := by
    intro j hj hwritten
    rw [Json.parse?_compact hwritten]
    exact ofJson?_of_form hj
  exact ⟨d.form_toJson, hform _ d.form_toJson d.written_toJson, fun j hj => ⟨ofJson?_of_form hj, hform j hj⟩⟩

/-- A mixin with a title that has to be there, and a flag without a name. -/
def titled : Declaration :=
  { name := "mix:title", supertypes := [], isMixin := true, supportedMixins := none
    items := [⟨some "jcr:title", "mix:title", ⟨0x82⟩, .copy, .property .string false⟩] }

/-- The title by position, in a kind without its default. -/
def titleForm : Json :=
  .arr [text "jcr:title", text "mix:title", text "MANDATORY | 0x80", text "COPY",
    object [("property", object [("required_type", text "STRING")])]]

/-- The titled mixin from its last field on, with a comment and without its defaults. -/
def titledForm : Json :=
  object [("comment", .num "1"), ("item_definitions", .arr [titleForm]), ("is_mixin", .bool true),
    ("name", text "mix:title")]

/-- A form in which members are reordered, added and left out, an array stands for an object, and a number is
in the text. -/
theorem read_back_titled : Declaration.ofJson? titledForm = some titled ∧
    (Json.parse? titledForm.compact).bind Declaration.ofJson? = some titled := by
  have hbody : RecordForm (ItemKind.property .string false).fields (object [("required_type", text "STRING")]) :=
    .object (.leftOut (f := ⟨"multiple", _, _⟩) (.reordered (.written (.cons rfl (.cons rfl .nil))) (.swap _ _ _))
      (.tail _ (.head _)) rfl)
  have hflags : text "MANDATORY | 0x80" = text (ItemFlags.text ⟨0x82⟩) := by
    have hdigits : Text.hexDigits 128 = ['8', '0'] := by
      rw [Text.hexDigits, Text.hexDigits]
      decide
    have hparts : ItemFlags.parts ⟨0x82⟩ = ["MANDATORY", "0x80"] := by
      show ["MANDATORY"] ++ ["0x" ++ String.ofList (Text.hexDigits 128)] = _
      rw [hdigits]
      rfl
    rw [ItemFlags.text, hparts]
    rfl
  have htitle : ItemDef.Form ⟨some "jcr:title", "mix:title", ⟨0x82⟩, .copy, .property .string false⟩ titleForm :=
    .positional (.cons rfl (.cons rfl (.cons hflags (.cons rfl (.cons ⟨_, hbody, rfl⟩ .nil)))))
  have hitems : Json.ListForm ItemDef.Form titled.items (.arr [titleForm]) := ⟨_, .cons htitle .nil, rfl⟩
  have hall : Json.ObjectForm titled.fields [("name", text "mix:title"), ("supertypes", texts []),
      ("is_mixin", .bool true), ("supported_mixins", .null), ("item_definitions", .arr [titleForm])] :=
    .written (.cons rfl (.cons rfl (.cons rfl (.cons rfl (.cons hitems .nil)))))
  have hsome : Json.ObjectForm titled.fields [("name", text "mix:title"), ("is_mixin", .bool true),
      ("supported_mixins", .null), ("item_definitions", .arr [titleForm])] :=
    .leftOut (f := ⟨"supertypes", _, _⟩) (.reordered hall (.swap _ _ _)) (.tail _ (.head _)) rfl
  have hfew : Json.ObjectForm titled.fields [("item_definitions", .arr [titleForm]), ("is_mixin", .bool true),
      ("name", text "mix:title")] :=
    .leftOut (f := ⟨"supported_mixins", _, _⟩)
      (.reordered (.reordered hsome (List.reverse_perm _).symm) (.swap _ _ _))
      (.tail _ (.tail _ (.tail _ (.head _)))) rfl
  have hform : titled.Form titledForm := .object (.extended hfew (by decide) _)
  have hnumber : (Json.num "1").Written := by
    refine Json.written_num ?_
    simp [Json.number?, Json.unsigned?, Json.integer?, Json.digits?, Json.isDigit, Json.fraction?, Json.exponent?]
  have hwritten : titledForm.Written := by
    refine Json.written_object (List.forall_mem_cons.2 ⟨hnumber, ?_⟩)
    simp [Json.Written, titleForm, text, object, Json.tokens, Json.elementTokens, Json.memberTokens,
      Json.Token.Written]
  exact ⟨(titled.read_back.2.2 _ hform).1, (titled.read_back.2.2 _ hform).2 hwritten⟩

end ContentTypes
