import ContentTypes.Item
import ContentTypes.Error

/-!
# Effective types

An `EffectiveType` is one or more node types seen as a single type: the types it merges and inherits,
and the item definitions of all of them. Named definitions are grouped by name, the groups in the
order in which their names first came (`ItemGroups`); residual definitions stand apart.

`definitions` lists every definition that is held, residual ones first. The views by kind, flag and
name are filters of that list or of its parts. The checks at the end say whether a child may be added
or an item removed.
-/

namespace ContentTypes

/-! ### Definitions grouped by name -/

/-- Item definitions grouped by name; within a group they stand in the order of arrival. -/
structure ItemGroups where
  groups : List (Name × List ItemDef) := []
deriving DecidableEq, Inhabited

namespace ItemGroups

/-- The group of a name, empty for a name without one. -/
def find (g : ItemGroups) (n : Name) : List ItemDef := (g.groups.lookup n).getD []

def items (g : ItemGroups) : List ItemDef := g.groups.flatMap (·.2)

/-- Appends a definition to the group of a name, which is opened at the end if it is new. -/
def addTo (n : Name) (d : ItemDef) : List (Name × List ItemDef) → List (Name × List ItemDef)
  | [] => [(n, [d])]
  | (m, ds) :: rest => if m = n then (m, ds ++ [d]) :: rest else (m, ds) :: addTo n d rest

def add (g : ItemGroups) (n : Name) (d : ItemDef) : ItemGroups := ⟨addTo n d g.groups⟩

/-- The same groups, in whatever order. -/
def sameAs (g h : ItemGroups) : Bool :=
  g.groups.length == h.groups.length && g.groups.all fun p => h.groups.lookup p.1 == some p.2

theorem find_add_self (g : ItemGroups) (n : Name) (d : ItemDef) :
    (g.add n d).find n = g.find n ++ [d] := by
  obtain ⟨l⟩ := g
  simp only [add, find]
  induction l with
  | nil => simp [addTo]
  | cons p l ih =>
    obtain ⟨m, ds⟩ := p
    by_cases h : m = n
    · simp [addTo, h]
    · have h' : (n == m) = false := by simpa using Ne.symm h
      simp only [addTo, h, if_false, List.lookup_cons, h', ih]

theorem find_add_of_ne (g : ItemGroups) {n m : Name} (d : ItemDef) (h : m ≠ n) :
    (g.add n d).find m = g.find m := by
  obtain ⟨l⟩ := g
  simp only [add, find]
  have h' : (m == n) = false := by simpa using h
  induction l with
  | nil => simp [addTo, List.lookup_cons, h']
  | cons p l ih =>
    obtain ⟨k, ds⟩ := p
    by_cases hk : k = n
    · subst hk; simp [addTo, List.lookup_cons, h']
    · cases hm : m == k <;> simp [addTo, List.lookup_cons, hk, hm, ih]

end ItemGroups

/-! ### The type -/

/-- One or more node types seen as a single type. `supportedMixins` is `none` where any mixin may be
added. -/
structure EffectiveType where
  /-- The types that were asked for together, such as a primary type and its mixins. -/
  mergedTypes : NameSet
  /-- The types that came in as supertypes. -/
  inheritedTypes : NameSet := ∅
  /-- Both of them. -/
  allTypes : NameSet
  named : ItemGroups := {}
  residual : List ItemDef := []
  supportedMixins : Option NameSet := none
deriving DecidableEq, Inhabited

namespace EffectiveType

/-- Is a node type part of this one? -/
def includes (e : EffectiveType) (n : Name) : Bool := e.allTypes.contains n

@[simp] theorem includes_iff {e : EffectiveType} {n : Name} : e.includes n = true ↔ n ∈ e.allTypes :=
  NameSet.contains_iff

@[simp] theorem includes_eq_false_iff {e : EffectiveType} {n : Name} :
    e.includes n = false ↔ n ∉ e.allTypes := by
  rw [← includes_iff, Bool.not_eq_true]

def includesAll (e : EffectiveType) (names : List Name) : Bool := names.all e.includes

@[simp] theorem includesAll_iff {e : EffectiveType} {names : List Name} :
    e.includesAll names = true ↔ ∀ n ∈ names, n ∈ e.allTypes := by
  simp [includesAll]

def supportsMixin (e : EffectiveType) (mixin : Name) : Bool :=
  match e.supportedMixins with
  | none => true
  | some mixins => mixins.contains mixin

/-- Equality up to the order in which the names of the named definitions came. -/
def sameAs (e f : EffectiveType) : Bool :=
  e.mergedTypes == f.mergedTypes && e.inheritedTypes == f.inheritedTypes &&
    e.allTypes == f.allTypes && e.named.sameAs f.named && e.residual == f.residual &&
    e.supportedMixins == f.supportedMixins

/-! ### Views of the definitions -/

/-- The definitions of an item name, in merge order. -/
def namedItems (e : EffectiveType) (n : Name) : List ItemDef := e.named.find n

/-- Every definition held: the residual ones, then the named ones group by group. -/
def definitions (e : EffectiveType) : List ItemDef := e.residual ++ e.named.items

def nodes (e : EffectiveType) : List ItemDef := e.definitions.filter (·.definesNode)

def properties (e : EffectiveType) : List ItemDef := e.definitions.filter (!·.definesNode)

/-- The auto-created child nodes among the named definitions. -/
def autoCreatedNodes (e : EffectiveType) : List ItemDef :=
  e.named.items.filter fun d => d.definesNode && d.isAutoCreated

def autoCreatedProperties (e : EffectiveType) : List ItemDef :=
  e.named.items.filter fun d => !d.definesNode && d.isAutoCreated

def mandatoryNodes (e : EffectiveType) : List ItemDef :=
  e.named.items.filter fun d => d.definesNode && d.isMandatory

def mandatoryProperties (e : EffectiveType) : List ItemDef :=
  e.named.items.filter fun d => !d.definesNode && d.isMandatory

def namedNodes (e : EffectiveType) (n : Name) : List ItemDef :=
  (e.namedItems n).filter (·.definesNode)

def namedProperties (e : EffectiveType) (n : Name) : List ItemDef :=
  (e.namedItems n).filter (!·.definesNode)

def residualNodes (e : EffectiveType) : List ItemDef := e.residual.filter (·.definesNode)

def residualProperties (e : EffectiveType) : List ItemDef := e.residual.filter (!·.definesNode)

/-! ### Checks -/

/-- May a child node be added without saying its type? `found` is what looking up the definition of
the child gave. An unknown type there means that this effective type refers to a type which the
registry no longer knows. -/
def checkAdd (name : Name) (found : Except Error ItemDef) : Except Error Unit :=
  match found with
  | .ok _ => .ok ()
  | .error (.noSuchType n) => .error (.inconsistentType name (.noSuchType n))
  | .error e => .error e

/-- May a child node of a stated type be added? `found` is the definition that applies. Read-only and
auto-created children cannot be added by hand. -/
def checkAddTyped (name : Name) (found : Except Error ItemDef) : Except Error Unit :=
  match found with
  | .ok d =>
    if d.isProtected then .error (.protectedItem name)
    else if d.isAutoCreated then .error (.autoCreatedItem name)
    else .ok ()
  | .error e => .error e

/-- What forbids removing an item of this definition. -/
def removalRefusal (name : Name) (d : ItemDef) : Option Error :=
  if d.isMandatory then some (.mandatoryRemoval name)
  else if d.isProtected then some (.protectedRemoval name)
  else none

/-- May the item of a name be removed? Which of its definitions applies is not known here, so the
first one that forbids it decides. -/
def checkRemove (e : EffectiveType) (name : Name) : Except Error Unit :=
  match (e.namedItems name).findSome? (removalRefusal name) with
  | some refusal => .error refusal
  | none => .ok ()

end EffectiveType

end ContentTypes
