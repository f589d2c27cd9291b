import ContentTypes.Name

/-!
# Keys

A `Key` stands for a set of names by one bit for each, the names being numbered elsewhere. The bits
are kept in words of 64, the lowest first, and any number of zero words may follow at the end: two keys
are the same (`Key.same`) when their words are, the shorter list being continued by zeros. The names
that a key carries are for display; they never decide whether two keys are the same.

`Key.compare` orders keys by size, larger first, and keys of a size by their words from the last to the
first, larger first. So of all keys within another the first in this order is a largest one.
-/

namespace ContentTypes

/-! ### Words -/

/-- The bits set in a word, ascending. -/
def wordBits (w : UInt64) : List Nat := (List.range 64).filter fun i => w.toBitVec.getLsbD i

/-- The bits set in a list of words, of which the first begins at bit `base`. -/
def bitsFrom (base : Nat) : List UInt64 → List Nat
  | [] => []
  | w :: rest => (wordBits w).map (base + ·) ++ bitsFrom (base + 64) rest

/-- Puts corresponding words side by side; the shorter list is continued by zeros. -/
def zipWords : List UInt64 → List UInt64 → List (UInt64 × UInt64)
  | [], ys => ys.map (0, ·)
  | xs, [] => xs.map (·, 0)
  | x :: xs, y :: ys => (x, y) :: zipWords xs ys

/-- The words without the zeros at the end. -/
def significant (ws : List UInt64) : List UInt64 := (ws.reverse.dropWhile (· == 0)).reverse

/-- Sets a bit, in words added at the end if need be. -/
def setBit (ws : List UInt64) (bit : Nat) : List UInt64 :=
  (ws ++ List.replicate (bit / 64 + 1 - ws.length) 0).modify (bit / 64)
    (· ||| 1 <<< UInt64.ofNat (bit % 64))

/-! ### Keys -/

/-- A set of names as a bit pattern. `size` is the number of bits set. -/
structure Key where
  names : NameSet
  words : List UInt64
  size : Nat := (bitsFrom 0 words).length
  size_eq : size = (bitsFrom 0 words).length := by rfl
deriving DecidableEq

namespace Key

instance : Inhabited Key := ⟨{ names := ∅, words := [] }⟩

def bits (k : Key) : List Nat := bitsFrom 0 k.words

def isEmpty (k : Key) : Bool := k.size == 0

/-- Is the name one of those the key carries? -/
def includes (k : Key) (n : Name) : Bool := k.names.contains n

/-- Is every bit of `l` set in `k`? -/
def contains (k l : Key) : Bool := (zipWords k.words l.words).all fun p => ~~~p.1 &&& p.2 == 0

/-- The bits of `k` that are not set in `l`. -/
def subtract (k l : Key) : Key :=
  { names := k.names.diff l.names
    words := (zipWords k.words l.words).map fun p => p.1 &&& ~~~p.2 }

def same (k l : Key) : Bool := k.size == l.size && significant k.words == significant l.words

/-- The order of words at the same place, larger first, where a later place outweighs an earlier. -/
def compareWords (ps : List (UInt64 × UInt64)) : Ordering :=
  ps.foldl (fun o p => (Ord.compare p.2 p.1).then o) .eq

/-- The order of keys: larger keys first, then larger words first from the last word on. -/
def compare (k l : Key) : Ordering :=
  (Ord.compare l.size k.size).then (compareWords (zipWords k.words l.words))

example : ({ names := ∅, words := [1, 1] } : Key).compare { names := ∅, words := [6, 0] } = .lt ∧
    ({ names := ∅, words := [7] } : Key).compare { names := ∅, words := [1, 1] } = .lt ∧
    ({ names := ∅, words := [3] } : Key).compare { names := ∅, words := [3, 0, 0] } = .eq := by
  decide +kernel

/-- Sorts keys; those of the same bits keep their order. -/
def sort (f : α → Key) (l : List α) : List α := l.mergeSort fun a b => (f a).compare (f b) != .gt

end Key

end ContentTypes
