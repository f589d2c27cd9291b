import ContentTypes.Key
import ContentTypes.Text.Quoted

/-!
# Texts of keys and names

`Key.display` is for readers: the size and the names. `Key.debugText` shows names in quotes and the
words as numbers, without the zero words at the end.
-/

namespace ContentTypes

/-- A name in quotes, marked as one. -/
def Name.debugText (n : Name) : String := "Name(" ++ Text.quoted n ++ ")"

namespace Key

def display (k : Key) : String :=
  String.intercalate ", " (("w=" ++ toString k.size) :: k.names.toList)

def debugText (k : Key) : String :=
  let names := k.names.toList.map Name.debugText
  let words := (significant k.words).map fun w => toString w.toNat
  "BitKey \x7b names: [" ++ String.intercalate ", " names ++ "], words: [" ++
    String.intercalate ", " words ++ "] \x7d"

end Key

end ContentTypes
