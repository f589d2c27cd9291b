import ContentTypes.Item

/-!
# Node type declarations

A `Declaration` is a node type as it was registered: the names of its immediate supertypes and its
own item definitions. What it inherits is worked out by the resolver.
-/

namespace ContentTypes

/-- A node type as declared. `supportedMixins` is `none` where any mixin may be added. -/
structure Declaration where
  name : Name
  supertypes : List Name := []
  isMixin : Bool := false
  supportedMixins : Option (List Name) := none
  items : List ItemDef := []
deriving DecidableEq, Inhabited

namespace Declaration

def withSupertypes (d : Declaration) (names : List Name) : Declaration := { d with supertypes := names }

def mixin (d : Declaration) : Declaration := { d with isMixin := true }

def withSupportedMixins (d : Declaration) (names : List Name) : Declaration :=
  { d with supportedMixins := some names }

/-- Adds an item definition at the end, with the declaring type that it names itself. -/
def withItem (d : Declaration) (item : ItemDef) : Declaration := { d with items := d.items ++ [item] }

/-- Adds a named single-valued property of this type. -/
def withProperty (d : Declaration) (name : Name) (type : PropertyType) : Declaration :=
  d.withItem (.property d.name (some name) type)

/-- Adds a named child node of this type. -/
def withChildNode (d : Declaration) (name : Name) (required : List Name) : Declaration :=
  d.withItem (.childNode d.name (some name) required)

def properties (d : Declaration) : List ItemDef := d.items.filter (!·.definesNode)

def childNodes (d : Declaration) : List ItemDef := d.items.filter (·.definesNode)

def mapNames (f : Name → Name) (d : Declaration) : Declaration :=
  { name := f d.name
    supertypes := d.supertypes.map f
    isMixin := d.isMixin
    supportedMixins := d.supportedMixins.map (·.map f)
    items := d.items.map (·.mapNames f) }

end Declaration

end ContentTypes
