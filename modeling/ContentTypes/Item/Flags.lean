import ContentTypes.Item
import ContentTypes.Text.Blank
import ContentTypes.Text.Hex

/-!
# The text of flags

Flags are written as their names joined by bars, unknown bits last as one hexadecimal number
(`ItemFlags.text`). `ItemFlags.ofText?` reads such a text, with blanks around each part, the parts in
any order and hexadecimal numbers anywhere.
-/

namespace ContentTypes.ItemFlags

/-! ### Writing -/

def parts (f : ItemFlags) : List String :=
  f.names ++ if f.unknownBits == 0 then [] else ["0x" ++ String.ofList (Text.hexDigits f.unknownBits.toNat)]

def text (f : ItemFlags) : String := String.intercalate " | " f.parts

/-! ### Reading -/

/-- The value of hexadecimal digits. -/
def hex? (s : List Char) : Option Nat :=
  s.foldlM (fun n c => (Text.hexDigit? c).map (16 * n + ·)) 0

/-- A byte of one or more hexadecimal digits, before which a plus sign may stand. -/
def byte? (s : List Char) : Option UInt8 :=
  let digits := match s with
    | '+' :: rest => rest
    | s => s
  if digits.isEmpty then none
  else (hex? digits).bind fun n => if n < 256 then some (UInt8.ofNat n) else none

/-- A part of the text of flags: a name, or a byte after `0x`. -/
def part? : List Char → Option ItemFlags
  | '0' :: 'x' :: rest => (byte? rest).map (⟨·⟩)
  | s => known.lookup (String.ofList s)

/-- Reads flags. A blank text has none; between bars no part may be missing. -/
def ofText? (s : String) : Option ItemFlags :=
  if (Text.trim s.toList).isEmpty then some .empty
  else do
    let parts ← ((Text.fields '|' s.toList).map Text.trim).mapM part?
    return parts.foldl union .empty

example : ofText? " PROTECTED|0x0A " = some ⟨14⟩ := by decide +kernel

example : ["AUTO_CREATED |", "0x", "0x100", "0X1", "auto_created"].map ofText? =
    [none, none, none, none, none] := by decide +kernel

end ContentTypes.ItemFlags
