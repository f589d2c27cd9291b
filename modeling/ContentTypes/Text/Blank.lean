/-!
# Blanks, trimming and splitting

`isBlank` is the property of characters to be white space, `trim` drops blanks at both ends, and
`fields` cuts a text at every occurrence of a separator. All three work on lists of characters.
-/

namespace ContentTypes.Text

/-- White space: the controls from tab to carriage return, the space, the next-line control, and the
spaces and separators beyond. -/
def isBlank (c : Char) : Bool :=
  let n := c.toNat
  (9 ≤ n && n ≤ 13) || n == 0x20 || n == 0x85 || n == 0xA0 || n == 0x1680 ||
    (0x2000 ≤ n && n ≤ 0x200A) || n == 0x2028 || n == 0x2029 || n == 0x202F || n == 0x205F ||
    n == 0x3000

example : [' ', '\t', '\n', '\r', '\x0b', '\x0c', '\u00a0', '\u3000'].all isBlank = true := by decide

example : ['a', '\x00', '\u200b', '\u180e', '\ufeff'].any isBlank = false := by decide

/-- Drops the blanks at both ends. -/
def trim (s : List Char) : List Char := ((s.dropWhile isBlank).reverse.dropWhile isBlank).reverse

/-- Cuts at every separator; a text without one is a single field. -/
def fields (sep : Char) : List Char → List (List Char)
  | [] => [[]]
  | c :: rest =>
    if c = sep then [] :: fields sep rest
    else match fields sep rest with
      | [] => [[c]]
      | f :: more => (c :: f) :: more

example : fields ',' "a,,b".toList = ["a".toList, [], "b".toList] := by decide

end ContentTypes.Text
