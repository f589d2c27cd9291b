import ContentTypes.Json
import ContentTypes.Text.Hex

/-!
# Writing JSON

`Json.compact` writes a value without blanks, `Json.pretty` with one element or member to a line,
indented by two blanks a level. In strings only the quote, the backslash and the control characters
below the blank are escaped.
-/

namespace ContentTypes.Json

/-- A character as it stands in a string. -/
def escape (c : Char) : List Char :=
  match c with
  | '"' => ['\\', '"']
  | '\\' => ['\\', '\\']
  | '\x08' => ['\\', 'b']
  | '\x0c' => ['\\', 'f']
  | '\n' => ['\\', 'n']
  | '\r' => ['\\', 'r']
  | '\t' => ['\\', 't']
  | c =>
    if c.toNat < 0x20 then
      ['\\', 'u', '0', '0', Text.hexDigit (c.toNat / 16), Text.hexDigit (c.toNat % 16)]
    else [c]

/-- A string in quotes. One without a text is written as a half of a surrogate pair. -/
def quote : Text → String
  | some s => String.ofList ('"' :: (s.toList.flatMap escape ++ ['"']))
  | none => "\"\\ud800\""

mutual

/-- Writes a value without blanks. -/
def compact : Json → String
  | .null => "null"
  | .bool b => if b then "true" else "false"
  | .num literal => literal
  | .str s => quote s
  | .arr elements => "[" ++ String.intercalate "," (compactElements elements) ++ "]"
  | .obj members => "\x7b" ++ String.intercalate "," (compactMembers members) ++ "\x7d"

def compactElements : List Json → List String
  | [] => []
  | j :: rest => compact j :: compactElements rest

def compactMembers : List (Text × Json) → List String
  | [] => []
  | (k, j) :: rest => (quote k ++ ":" ++ compact j) :: compactMembers rest

end

/-- A line break and the indentation of a level. -/
def newline (level : Nat) : String := "\n" ++ String.ofList (List.replicate (2 * level) ' ')

/-- Parts between brackets, each on a line of its own one level deeper. -/
def block (level : Nat) (opening closing : String) : List String → String
  | [] => opening ++ closing
  | parts =>
    opening ++ newline (level + 1) ++ String.intercalate ("," ++ newline (level + 1)) parts ++
      newline level ++ closing

mutual

/-- Writes a value that begins on a line of the level. -/
def prettyAt (level : Nat) : Json → String
  | .null => "null"
  | .bool b => if b then "true" else "false"
  | .num literal => literal
  | .str s => quote s
  | .arr elements => block level "[" "]" (prettyElements (level + 1) elements)
  | .obj members => block level "\x7b" "\x7d" (prettyMembers (level + 1) members)

def prettyElements (level : Nat) : List Json → List String
  | [] => []
  | j :: rest => prettyAt level j :: prettyElements level rest

def prettyMembers (level : Nat) : List (Text × Json) → List String
  | [] => []
  | (k, j) :: rest => (quote k ++ ": " ++ prettyAt level j) :: prettyMembers level rest

end

/-- Writes a value over several lines. -/
def pretty (j : Json) : String := prettyAt 0 j

example : pretty (.arr [.arr [], .text "/\x01\x7f", .nat 2]) =
    "[\n  [],\n  \"/\\u0001\x7f\",\n  2\n]" := by decide +kernel

end ContentTypes.Json
