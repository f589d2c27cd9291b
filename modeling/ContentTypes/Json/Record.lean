import ContentTypes.Json

/-!
# Records in JSON

A record with the fields `names` is written as an object or, positionally, as an array of its fields
in order. `record?` brings both forms to the list of the fields that are given. In an object the
members that are no fields are ignored and a field may be given only once; an array may leave out
fields at its end.
-/

namespace ContentTypes.Json

/-- The fields of a record that are given, by name. -/
abbrev Record := List (String × Json)

/-- Reads a record with the fields `names`. -/
def record? (names : List String) : Json → Option Record
  | .arr values => if values.length ≤ names.length then some (names.zip values) else none
  | .obj members => do
    let members ← members.mapM fun m => m.1.map (·, m.2)
    let given := members.filter fun m => names.contains m.1
    if (given.map (·.1)).Nodup then some given else none
  | _ => none

def Record.required (r : Record) (name : String) (f : Json → Option α) : Option α :=
  (r.lookup name).bind f

def Record.defaulted (r : Record) (name : String) (f : Json → Option α) (default : α) : Option α :=
  match r.lookup name with
  | none => some default
  | some j => f j

end ContentTypes.Json
