import ContentTypes.Text.Hex
import ContentTypes.Text.Plain

/-!
# Quoted text

`quoted` writes a text between double quotes so that every character of it can be seen: quotes and
backslashes are escaped, the common controls by a letter, and all else that does not show by itself by
its number.
-/

namespace ContentTypes.Text

/-- A character by its number. -/
def numbered (c : Char) : List Char := ['\\', 'u', '{'] ++ hexDigits c.toNat ++ ['}']

/-- A character as it stands in quoted text. -/
def visible (c : Char) : List Char :=
  match c with
  | '\x00' => ['\\', '0']
  | '\t' => ['\\', 't']
  | '\n' => ['\\', 'n']
  | '\r' => ['\\', 'r']
  | '"' => ['\\', '"']
  | '\\' => ['\\', '\\']
  | c => if isPlain c then [c] else numbered c

/-- A text between quotes. -/
def quoted (s : String) : String := String.ofList ('"' :: (s.toList.flatMap visible ++ ['"']))

example : quoted "it's\n\"\\\x7fé\u0301" = "\"it's\\n\\\"\\\\\\u\x7b7f\x7dé\\u\x7b301\x7d\"" := by
  decide +kernel

end ContentTypes.Text
