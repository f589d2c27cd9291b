import Std.Data.TreeMap
import ContentTypes.Key

/-!
# Numbering names

A `Numbering` gives each name a bit number at first sight: 0 to the first name, 1 to the next, and so
on. It is kept in both directions, from names to numbers and back. `Numbering.keyFor` builds the key of
a list of names and numbers those it has not seen.

Bit numbers are unbounded. A numbering is assumed to hold fewer than 2^32 names, so that every number fits
into 32 bits.
-/

namespace ContentTypes

/-- Names and their bit numbers. -/
structure Numbering where
  numbers : Std.TreeMap Name Nat := {}
  names : Array Name := #[]

namespace Numbering

instance : Inhabited Numbering := ⟨{}⟩

def size (t : Numbering) : Nat := t.numbers.size

def lookup (t : Numbering) (n : Name) : Option Nat := t.numbers[n]?

def nameAt (t : Numbering) (bit : Nat) : Option Name := t.names[bit]?

/-- The number of a name, the next free one if the name is new. -/
def bitFor (t : Numbering) (n : Name) : Nat × Numbering :=
  match t.lookup n with
  | some bit => (bit, t)
  | none => (t.names.size, { numbers := t.numbers.insert n t.names.size, names := t.names.push n })

/-- Sets the bits of names one after the other. -/
def setBits (t : Numbering) (ws : List UInt64) : List Name → List UInt64 × Numbering
  | [] => (ws, t)
  | n :: rest =>
    let (bit, t) := t.bitFor n
    t.setBits (setBit ws bit) rest

/-- The words that a key of `count` names gets before its bits are known. -/
def blankWords (t : Numbering) (count : Nat) : List UInt64 :=
  List.replicate ((t.size + count) / 64 + 1) 0

/-- The key of the members of a list. -/
def keyFor (t : Numbering) (names : List Name) : Key × Numbering :=
  let (words, t) := t.setBits (t.blankWords names.length) names
  ({ names := .ofList names, words }, t)

/-- A short text: how many names are numbered. -/
def debugText (t : Numbering) : String := "NameIndex \x7b len: " ++ toString t.size ++ ", .. \x7d"

end Numbering

end ContentTypes
