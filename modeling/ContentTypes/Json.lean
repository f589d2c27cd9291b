/-!
# JSON values

`Json` keeps what a JSON text says: members in their order, repeated members too, and numbers as they
are written. A string may hold an escape that stands for no character (one half of a surrogate pair);
such a string is valid JSON, but has no text. `Json.Text` is therefore optional.

The functions at the end read a value as a name, a list, an optional value and so on; each refuses any
other form.
-/

namespace ContentTypes

/-- The text of a JSON string, `none` if an escape in it stands for no character. -/
abbrev Json.Text := Option String

inductive Json where
  | null
  | bool (b : Bool)
  /-- A number as it is written. -/
  | num (literal : String)
  | str (s : Json.Text)
  | arr (elements : List Json)
  | obj (members : List (Json.Text × Json))
deriving Inhabited

namespace Json

/-! ### Building values -/

def text (s : String) : Json := .str (some s)

def nat (n : Nat) : Json := .num (toString n)

def int (n : Int) : Json := .num (toString n)

def texts (l : List String) : Json := .arr (l.map text)

/-- A value or null. -/
def option (f : α → Json) : Option α → Json
  | none => .null
  | some a => f a

/-- An object with readable keys. -/
def object (members : List (String × Json)) : Json := .obj (members.map fun m => (some m.1, m.2))

/-! ### Reading values -/

/-- A string with a text. -/
def text? : Json → Option String
  | .str s => s
  | _ => none

def bool? : Json → Option Bool
  | .bool b => some b
  | _ => none

/-- A natural number in plain digits. -/
def nat? : Json → Option Nat
  | .num literal => literal.toNat?
  | _ => none

def list? (f : Json → Option α) : Json → Option (List α)
  | .arr elements => elements.mapM f
  | _ => none

/-- A value or null. -/
def optional? (f : Json → Option α) : Json → Option (Option α)
  | .null => some none
  | j => (f j).map some

/-- A word of an enumeration: a string, or an object whose one member has the word for its key and
null for its value. -/
def word? (ofText? : String → Option α) : Json → Option α
  | .str (some s) => ofText? s
  | .obj [(some s, .null)] => ofText? s
  | _ => none

/-- The value of the first member with a key. -/
def member? (key : String) : Json → Option Json
  | .obj members => members.lookup (some key)
  | _ => none

end Json

end ContentTypes
