import ContentTypes.Effective
import ContentTypes.Numbering

/-!
# The cache of effective types

A `Cache` keeps effective types under keys and owns the numbering of the names in them. Its entries
stand in the order of their keys, so a search from the front for a key within a request finds a largest
one (`Cache.findBest?`).

An entry has two keys of the same bits: `key`, under which it was put last, and `firstKey`, under which
it was put when it was new. They can differ in the names they carry. Exact hits and evictions read the
first key, listings the last one.
-/

namespace ContentTypes

structure Cache.Entry where
  key : Key
  firstKey : Key
  type : EffectiveType

/-- Effective types under keys, in the order of the keys. -/
structure Cache where
  numbering : Numbering := {}
  entries : List Cache.Entry := []

namespace Cache

instance : Inhabited Cache := ⟨{}⟩

/-- The key of a list of names; new names are numbered. -/
def keyFor (c : Cache) (names : List Name) : Key × Cache :=
  let (key, numbering) := c.numbering.keyFor names
  (key, { c with numbering })

/-! ### Putting -/

/-- Puts a type at the place of its key; an entry of the same key keeps its first key. -/
def place (key : Key) (type : EffectiveType) : List Entry → List Entry
  | [] => [⟨key, key, type⟩]
  | e :: rest =>
    match key.compare e.key with
    | .lt => ⟨key, key, type⟩ :: e :: rest
    | .eq => ⟨key, e.firstKey, type⟩ :: rest
    | .gt => e :: place key type rest

def put (c : Cache) (key : Key) (type : EffectiveType) : Cache :=
  { c with entries := place key type c.entries }

/-- Caches a type under the key of its merged types. -/
def putMerged (c : Cache) (type : EffectiveType) : Key × Cache :=
  let (key, c) := c.keyFor type.mergedTypes.toList
  (key, c.put key type)

/-! ### Looking up -/

def find? (c : Cache) (key : Key) : Option Entry := c.entries.find? (·.key.same key)

def get? (c : Cache) (key : Key) : Option EffectiveType := (c.find? key).map (·.type)

def contains (c : Cache) (key : Key) : Bool := (c.find? key).isSome

/-- The cached key of the largest subset of a key: the key itself if it is cached, else the first in
order that lies within it. -/
def findBest? (c : Cache) (key : Key) : Option Key :=
  match c.find? key with
  | some e => some e.firstKey
  | none => (c.entries.find? fun e => key.contains e.key).map (·.key)

def keys (c : Cache) : List Key := c.entries.map (·.key)

def size (c : Cache) : Nat := c.entries.length

def isEmpty (c : Cache) : Bool := c.entries.isEmpty

/-! ### Removing -/

def erase (c : Cache) (key : Key) : Cache :=
  { c with entries := c.entries.filter (!·.key.same key) }

/-- Does an entry depend on a name, by its type or by its key? -/
def Entry.dependsOn (e : Entry) (n : Name) : Bool := e.type.includes n || e.firstKey.includes n

/-- Drops every entry that depends on a name; tells how many there were. -/
def invalidate (c : Cache) (n : Name) : Nat × Cache :=
  (c.entries.countP (·.dependsOn n), { c with entries := c.entries.filter (!·.dependsOn n) })

/-! ### Listing -/

/-- A bit with its name, or with a question mark if no name has the number. -/
def bitText (t : Numbering) (bit : Nat) : String :=
  toString bit ++ "=" ++ (t.nameAt bit).getD "?"

/-- The line of a key: its size and its bits. -/
def keyLine (t : Numbering) (key : Key) : String :=
  String.intercalate ", " (("w=" ++ toString key.size) :: key.bits.map (bitText t)) ++ "\n"

/-- A listing of the cached keys. -/
def dump (c : Cache) : String :=
  "EffectiveNodeTypeCache (" ++ toString c.size ++ " entries)\n\nEffectiveNodeTypes in cache:\n\n" ++
    String.join (c.keys.map (keyLine c.numbering))

end Cache

end ContentTypes
