import ContentTypes.Declaration
import ContentTypes.Item.Flags
import ContentTypes.Json.Record

/-!
# Declarations in JSON

A declaration is a record of the fields `name`, `supertypes`, `is_mixin`, `supported_mixins` and
`item_definitions`; an item definition one of `name`, `declaring_type`, `flags`, `on_parent_version`
and `kind`. What `kind` says stands in an object of one member, `property` or `node`. Only names of
node types and of declaring types, kinds and property types have to be given.

`Declaration.toJson` writes every field, `Declaration.ofJson?` reads them.
-/

namespace ContentTypes

open Json (text texts object record?)

/-! ### Writing -/

/-- The kind of an item as an object of one member. -/
def ItemKind.toJson : ItemKind → Json
  | .property type multiple =>
    object [("property", object [("required_type", text type.text), ("multiple", .bool multiple)])]
  | .node required default siblings =>
    object [("node", object [("required_primary_types", texts required),
      ("default_primary_type", .option text default), ("same_name_siblings", .bool siblings)])]

/-- An item definition with all its fields. -/
def ItemDef.toJson (d : ItemDef) : Json :=
  object [("name", .option text d.name), ("declaring_type", text d.declaringType),
    ("flags", text d.flags.text), ("on_parent_version", text d.onParentVersion.text),
    ("kind", d.kind.toJson)]

/-- A declaration with all its fields. -/
def Declaration.toJson (d : Declaration) : Json :=
  object [("name", text d.name), ("supertypes", texts d.supertypes), ("is_mixin", .bool d.isMixin),
    ("supported_mixins", .option texts d.supportedMixins),
    ("item_definitions", .arr (d.items.map ItemDef.toJson))]

/-! ### Reading -/

def namesOfJson? : Json → Option (List Name) := Json.list? Json.text?

/-- What is said of a property. -/
def ItemKind.propertyOfJson? (j : Json) : Option ItemKind := do
  let r ← record? ["required_type", "multiple"] j
  return .property (← r.required "required_type" (Json.word? PropertyType.ofText?))
    (← r.defaulted "multiple" Json.bool? false)

/-- What is said of a child node. -/
def ItemKind.nodeOfJson? (j : Json) : Option ItemKind := do
  let r ← record? ["required_primary_types", "default_primary_type", "same_name_siblings"] j
  return .node (← r.defaulted "required_primary_types" namesOfJson? [])
    (← r.defaulted "default_primary_type" (Json.optional? Json.text?) none)
    (← r.defaulted "same_name_siblings" Json.bool? false)

def ItemKind.ofJson? : Json → Option ItemKind
  | .obj [(some "property", body)] => propertyOfJson? body
  | .obj [(some "node", body)] => nodeOfJson? body
  | _ => none

def ItemFlags.ofJson? (j : Json) : Option ItemFlags := j.text?.bind ItemFlags.ofText?

def ItemDef.ofJson? (j : Json) : Option ItemDef := do
  let r ← record? ["name", "declaring_type", "flags", "on_parent_version", "kind"] j
  return {
    name := ← r.defaulted "name" (Json.optional? Json.text?) none
    declaringType := ← r.required "declaring_type" Json.text?
    flags := ← r.defaulted "flags" ItemFlags.ofJson? .empty
    onParentVersion := ← r.defaulted "on_parent_version" (Json.word? VersionAction.ofText?) .copy
    kind := ← r.required "kind" ItemKind.ofJson? }

def Declaration.ofJson? (j : Json) : Option Declaration := do
  let r ← record? ["name", "supertypes", "is_mixin", "supported_mixins", "item_definitions"] j
  return {
    name := ← r.required "name" Json.text?
    supertypes := ← r.defaulted "supertypes" namesOfJson? []
    isMixin := ← r.defaulted "is_mixin" Json.bool? false
    supportedMixins := ← r.defaulted "supported_mixins" (Json.optional? namesOfJson?) none
    items := ← r.defaulted "item_definitions" (Json.list? ItemDef.ofJson?) [] }

end ContentTypes
