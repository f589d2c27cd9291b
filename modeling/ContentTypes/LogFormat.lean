import ContentTypes.Text.Blank

/-!
# Log formats

The format in which log lines are written, chosen by a word. Case and surrounding blanks do not matter;
an unknown word means plain text.
-/

namespace ContentTypes

/-- How log lines are written. -/
inductive LogFormat where
  | text | tree | json
deriving DecidableEq

namespace LogFormat

def ofText (s : String) : LogFormat :=
  match String.ofList ((Text.trim s.toList).map Char.toLower) with
  | "tree" => .tree
  | "json" => .json
  | _ => .text

def name : LogFormat → String
  | .text => "Text"
  | .tree => "Tree"
  | .json => "Json"

end LogFormat

end ContentTypes
