import Std.Data.TreeMap
import ContentTypes.Declaration

/-!
# Pooling names

A `NamePool` keeps one copy of every name that comes in. Copies are told apart by their slots: two
names share a copy exactly when the pool gives them the same slot. A pool may start with the names of
the built-in node types and items.
-/

namespace ContentTypes

/-- The slot of every pooled name, in order of arrival. -/
structure NamePool where
  slots : Std.TreeMap Name Nat := {}

namespace NamePool

instance : Inhabited NamePool := ⟨{}⟩

def size (p : NamePool) : Nat := p.slots.size

/-- The slot of a name, a new one if the name is new. -/
def intern (p : NamePool) (n : Name) : Nat × NamePool :=
  match p.slots[n]? with
  | some slot => (slot, p)
  | none => (p.size, ⟨p.slots.insert n p.size⟩)

/-- Pools names from left to right; gives their slots. -/
def internAll (p : NamePool) : List Name → List Nat × NamePool
  | [] => ([], p)
  | n :: rest =>
    let (slot, p) := p.intern n
    let (slots, p) := p.internAll rest
    (slot :: slots, p)

/-- The pooled copy of a name, the name itself if it is not pooled. -/
def copy (p : NamePool) (n : Name) : Name := p.slots.getKeyD n n

/-- Names of built-in node types, mixins and items. -/
def builtin : List Name :=
  ["nt:base", "nt:unstructured", "nt:hierarchyNode", "nt:file", "nt:folder", "nt:resource",
    "nt:linkedFile", "nt:nodeType", "nt:propertyDefinition", "nt:childNodeDefinition",
    "nt:versionHistory", "nt:version", "nt:frozenNode", "nt:versionLabels", "nt:versionedChild",
    "nt:query", "mix:referenceable", "mix:lockable", "mix:versionable", "mix:simpleVersionable",
    "mix:shareable", "mix:title", "mix:created", "mix:lastModified", "mix:language", "mix:mimeType",
    "mix:etag", "jcr:primaryType", "jcr:mixinTypes", "jcr:uuid", "jcr:content", "jcr:data",
    "jcr:created", "jcr:createdBy", "jcr:lastModified", "jcr:mimeType", "jcr:encoding"]

end NamePool

/-! ### Pooling the names of declarations -/

def ItemDef.names (d : ItemDef) : List Name :=
  d.requiredPrimaryTypes ++ d.defaultPrimaryType.toList ++ d.name.toList ++ [d.declaringType]

def Declaration.names (d : Declaration) : List Name :=
  d.name :: d.supertypes ++ d.supportedMixins.getD [] ++ d.items.flatMap ItemDef.names

/-- Pools the names of an item definition; gives the definition made of the pooled copies. -/
def ItemDef.interned (d : ItemDef) (p : NamePool) : ItemDef × NamePool :=
  let p := (p.internAll d.names).2
  (d.mapNames p.copy, p)

/-- Pools the names of a declaration; gives the declaration made of the pooled copies. -/
def Declaration.interned (d : Declaration) (p : NamePool) : Declaration × NamePool :=
  let p := (p.internAll d.names).2
  (d.mapNames p.copy, p)

end ContentTypes
