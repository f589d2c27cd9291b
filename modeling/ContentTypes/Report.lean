import ContentTypes.Json.Printer
import ContentTypes.Resolver

/-!
# Reports

A `Report` tells what one run of the program did: the requests with their effective types or errors,
the evictions, and on demand the listing of the cache. `Report.toJson` gives it as a record in which
absent parts are left out, `Report.toText` as indented lines.
-/

namespace ContentTypes

/-- A request with what came of it. -/
structure Report.Resolution where
  request : List Name
  outcome : Except Error EffectiveType

/-- A name whose types were evicted, with their number. -/
structure Report.Eviction where
  name : Name
  evicted : Nat

/-- What one run of the program did. -/
structure Report where
  resolutions : List Report.Resolution := []
  evictions : List Report.Eviction := []
  cache : Option String := none

namespace Report

def Resolution.failed (r : Resolution) : Bool :=
  match r.outcome with
  | .ok _ => false
  | .error _ => true

def failures (r : Report) : Nat := r.resolutions.countP (·.failed)

/-- What an item has to be: the value type of a property, the primary types of a child node. -/
def required (d : ItemDef) : String :=
  match d.kind with
  | .property type _ => type.text
  | .node required _ _ => String.intercalate ", " required

/-! ### As a record -/

/-- A member that is left out unless it holds something. -/
def present (key : String) (f : α → Json) : Option α → List (String × Json)
  | none => []
  | some a => [(key, f a)]

/-- A list that is left out when it is empty. -/
def presentList (key : String) : List Json → List (String × Json)
  | [] => []
  | l => [(key, .arr l)]

/-- An item definition, without flags, multiplicity and default type that it does not have. -/
def itemJson (d : ItemDef) : Json :=
  .object ([("name", .text d.displayName), ("declaring_type", .text d.declaringType),
      ("required", .text (required d))] ++
    present "default_primary_type" .text d.defaultPrimaryType ++
    presentList "flags" (d.flags.names.map .text) ++
    (if d.isMultiple then [("multiple", .bool true)] else []))

def typeJson (e : EffectiveType) : Json :=
  .object [("merged_types", .texts e.mergedTypes.toList),
    ("inherited_types", .texts e.inheritedTypes.toList),
    ("supported_mixins", .option (fun s : NameSet => .texts s.toList) e.supportedMixins),
    ("properties", .arr (e.properties.map itemJson)), ("child_nodes", .arr (e.nodes.map itemJson))]

def Resolution.toJson (r : Resolution) : Json :=
  .object (("request", .texts r.request) :: match r.outcome with
    | .ok type => [("effective", typeJson type)]
    | .error e => [("error", .text e.message)])

def Eviction.toJson (e : Eviction) : Json :=
  .object [("name", .text e.name), ("evicted", .nat e.evicted)]

def toJson (r : Report) : Json :=
  .object ([("resolutions", .arr (r.resolutions.map (·.toJson)))] ++
    presentList "invalidations" (r.evictions.map (·.toJson)) ++ present "cache" .text r.cache)

/-! ### As lines -/

def itemText (d : ItemDef) : String :=
  d.displayName ++ " (" ++ required d ++ ")" ++
    (if d.isMultiple then " multiple" else "") ++
    (match d.defaultPrimaryType with
      | some type => " = " ++ type
      | none => "") ++
    String.join (d.flags.names.map fun f => " " ++ String.ofList (f.toList.map Char.toLower)) ++
    " [" ++ d.declaringType ++ "]"

/-- A line of names behind a label. -/
def namesLine (label : String) (names : List Name) : String :=
  "  " ++ label ++ ":" ++ String.join (names.map (" " ++ ·)) ++ "\n"

def typeText (e : EffectiveType) : String :=
  namesLine "merged" e.mergedTypes.toList ++ namesLine "inherited" e.inheritedTypes.toList ++
    namesLine "supported mixins" ((e.supportedMixins.map (·.toList)).getD ["*"]) ++
    String.join (e.properties.map fun d => "  - " ++ itemText d ++ "\n") ++
    String.join (e.nodes.map fun d => "  + " ++ itemText d ++ "\n")

def Resolution.toText (r : Resolution) : String :=
  "[" ++ String.intercalate ", " r.request ++ "]\n" ++ match r.outcome with
    | .ok type => typeText type
    | .error e => "  error: " ++ e.message ++ "\n"

def Eviction.toText (e : Eviction) : String :=
  "invalidated " ++ e.name ++ ": " ++ toString e.evicted ++ " entries evicted\n"

def toText (r : Report) : String :=
  String.join (r.resolutions.map (·.toText)) ++ String.join (r.evictions.map (·.toText)) ++
    r.cache.getD ""

end Report

end ContentTypes
