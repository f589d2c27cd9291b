import Std.Data.TreeMap
import ContentTypes.Declaration

/-!
# The registry of declarations

A `Registry` holds one declaration per name. Registering a name again replaces its declaration; what
other types inherit from it is looked up by name whenever it is needed, so names may also be
unregistered at any time and supertypes may be missing. Every declaration stands under its own name
(`Registry.named`).
-/

namespace ContentTypes

theorem Registry.named_empty (n : Name) (d : Declaration)
    (h : ({} : Std.TreeMap Name Declaration)[n]? = some d) : d.name = n := by
  simp at h

/-- The registered declarations by name. -/
structure Registry where
  declarations : Std.TreeMap Name Declaration := {}
  named : ∀ (n : Name) (d : Declaration), declarations[n]? = some d → d.name = n := by
    exact Registry.named_empty

namespace Registry

instance : Inhabited Registry := ⟨{}⟩

def find? (r : Registry) (n : Name) : Option Declaration := r.declarations[n]?

def contains (r : Registry) (n : Name) : Bool := r.declarations.contains n

def size (r : Registry) : Nat := r.declarations.size

/-- The registered names in ascending order. -/
def names (r : Registry) : List Name := r.declarations.keys

/-- Registers a declaration in place of the one of its name. -/
def register (r : Registry) (d : Declaration) : Registry where
  declarations := r.declarations.insert d.name d
  named n e h := by
    rw [Std.TreeMap.getElem?_insert] at h
    split at h
    · next heq =>
      obtain rfl := Option.some.inj h
      simpa using heq
    · exact r.named n e h

def registerAll (r : Registry) (ds : List Declaration) : Registry := ds.foldl register r

def unregister (r : Registry) (n : Name) : Registry where
  declarations := r.declarations.erase n
  named m e h := by
    rw [Std.TreeMap.getElem?_erase] at h
    split at h
    · cases h
    · exact r.named m e h

/-! ### Looking up after a change -/

theorem name_of_find? {r : Registry} {n : Name} {d : Declaration} (h : r.find? n = some d) : d.name = n :=
  r.named n d h

theorem contains_iff {r : Registry} {n : Name} : r.contains n = true ↔ ∃ d, r.find? n = some d := by
  rw [contains, find?, Std.TreeMap.contains_eq_isSome_getElem?, Option.isSome_iff_exists]

theorem find?_register_of_ne (r : Registry) {d : Declaration} {n : Name} (h : n ≠ d.name) :
    (r.register d).find? n = r.find? n := by
  simp [find?, register, Std.TreeMap.getElem?_insert, Ne.symm h]

theorem find?_unregister_of_ne (r : Registry) {m n : Name} (h : n ≠ m) :
    (r.unregister m).find? n = r.find? n := by
  simp [find?, unregister, Std.TreeMap.getElem?_erase, Ne.symm h]

theorem find?_unregister_of_not_contains (r : Registry) {m : Name} (h : r.contains m = false) (n : Name) :
    (r.unregister m).find? n = r.find? n := by
  by_cases hn : n = m
  · subst hn
    have hnone : r.find? n = none := by
      rw [Option.eq_none_iff_forall_ne_some]
      intro d hd
      rw [contains_iff.2 ⟨d, hd⟩] at h
      cases h
    rw [hnone]
    simp [find?, unregister]
  · exact r.find?_unregister_of_ne hn

end Registry

end ContentTypes
