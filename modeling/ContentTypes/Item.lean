import ContentTypes.Name

/-!
# Item definitions

An `ItemDef` is a property or child node definition as one node type declares it. A definition
without a name is residual: it stands for every item name that no named definition matches.

The parts are `PropertyType`, `VersionAction` and `ItemFlags`; the enumerations are written as upper
case words (`text`) and read back by `ofText?`.
-/

namespace ContentTypes

/-! ### Property types -/

/-- The value type that a property definition asks for. -/
inductive PropertyType where
  | string | binary | long | double | decimal | date | boolean | name | path | reference
  | weakReference | uri | undefined
deriving DecidableEq, Inhabited

namespace PropertyType

def all : List PropertyType :=
  [.string, .binary, .long, .double, .decimal, .date, .boolean, .name, .path, .reference,
    .weakReference, .uri, .undefined]

def text : PropertyType → String
  | .string => "STRING"
  | .binary => "BINARY"
  | .long => "LONG"
  | .double => "DOUBLE"
  | .decimal => "DECIMAL"
  | .date => "DATE"
  | .boolean => "BOOLEAN"
  | .name => "NAME"
  | .path => "PATH"
  | .reference => "REFERENCE"
  | .weakReference => "WEAKREFERENCE"
  | .uri => "URI"
  | .undefined => "UNDEFINED"

def ofText? (s : String) : Option PropertyType := all.find? (·.text == s)

theorem ofText?_text (t : PropertyType) : ofText? t.text = some t := by cases t <;> decide

end PropertyType

/-! ### On-parent-version actions -/

/-- What happens to an item when its parent node is checked in. -/
inductive VersionAction where
  | copy | version | reset | compute | ignore | abort
deriving DecidableEq, Inhabited

namespace VersionAction

def all : List VersionAction := [.copy, .version, .reset, .compute, .ignore, .abort]

/-- The word for an action; resetting an item to its initial value is called `INITIALIZE`. -/
def text : VersionAction → String
  | .copy => "COPY"
  | .version => "VERSION"
  | .reset => "INITIALIZE"
  | .compute => "COMPUTE"
  | .ignore => "IGNORE"
  | .abort => "ABORT"

def ofText? (s : String) : Option VersionAction := all.find? (·.text == s)

theorem ofText?_text (a : VersionAction) : ofText? a.text = some a := by cases a <;> decide

end VersionAction

/-! ### Flags -/

/-- The behaviour flags of an item definition. Bits without a meaning are kept. -/
structure ItemFlags where
  bits : UInt8
deriving DecidableEq, Inhabited

namespace ItemFlags

def empty : ItemFlags := ⟨0⟩

/-- The item comes into being together with its parent node. -/
def autoCreated : ItemFlags := ⟨1⟩

/-- The item has to exist before its parent node can be saved. -/
def mandatory : ItemFlags := ⟨2⟩

/-- The item can only be read. -/
def protectedItem : ItemFlags := ⟨4⟩

def union (f g : ItemFlags) : ItemFlags := ⟨f.bits ||| g.bits⟩

def contains (f g : ItemFlags) : Bool := f.bits &&& g.bits == g.bits

/-- The flags that have a name, in the order in which they are written. -/
def known : List (String × ItemFlags) :=
  [("AUTO_CREATED", autoCreated), ("MANDATORY", mandatory), ("PROTECTED", protectedItem)]

def names (f : ItemFlags) : List String := (known.filter fun k => f.contains k.2).map (·.1)

/-- The bits that are set and have no name. -/
def unknownBits (f : ItemFlags) : UInt8 := f.bits &&& ~~~ (7 : UInt8)

end ItemFlags

/-! ### Definitions -/

/-- What an item definition says of properties or of child nodes only. -/
inductive ItemKind where
  /-- A property with a value of `type`, or with a list of such values. -/
  | property (type : PropertyType) (multiple : Bool)
  /-- A child node whose type includes all of `required`; `default` is the type of a child added
  without one. -/
  | node (required : List Name) (default : Option Name) (sameNameSiblings : Bool)
deriving DecidableEq, Inhabited

/-- A property or child node definition of the node type `declaringType`. -/
structure ItemDef where
  name : Option Name
  declaringType : Name
  flags : ItemFlags
  onParentVersion : VersionAction
  kind : ItemKind
deriving DecidableEq, Inhabited

namespace ItemDef

/-! ### Building definitions -/

/-- A single-valued property definition without flags. -/
def property (declaringType : Name) (name : Option Name) (type : PropertyType) : ItemDef :=
  ⟨name, declaringType, .empty, .copy, .property type false⟩

/-- A child node definition without flags and default type. -/
def childNode (declaringType : Name) (name : Option Name) (required : List Name) : ItemDef :=
  ⟨name, declaringType, .empty, .copy, .node required none false⟩

def withFlags (d : ItemDef) (f : ItemFlags) : ItemDef := { d with flags := d.flags.union f }

def withOnParentVersion (d : ItemDef) (a : VersionAction) : ItemDef := { d with onParentVersion := a }

/-- Makes a property multi-valued; a child node definition stays as it is. -/
def multiple (d : ItemDef) : ItemDef :=
  match d.kind with
  | .property type _ => { d with kind := .property type true }
  | .node .. => d

/-- Sets the default type of a child node; a property definition stays as it is. -/
def withDefaultType (d : ItemDef) (type : Name) : ItemDef :=
  match d.kind with
  | .node required _ siblings => { d with kind := .node required (some type) siblings }
  | .property .. => d

/-! ### Reading definitions -/

def definesNode (d : ItemDef) : Bool :=
  match d.kind with
  | .node .. => true
  | .property .. => false

def isResidual (d : ItemDef) : Bool := d.name.isNone

/-- Is the item created together with its parent? -/
def isAutoCreated (d : ItemDef) : Bool := d.flags.contains .autoCreated

/-- Must the item exist? -/
def isMandatory (d : ItemDef) : Bool := d.flags.contains .mandatory

/-- Is the item read-only? -/
def isProtected (d : ItemDef) : Bool := d.flags.contains .protectedItem

def requiredType (d : ItemDef) : Option PropertyType :=
  match d.kind with
  | .property type _ => some type
  | .node .. => none

def isMultiple (d : ItemDef) : Bool :=
  match d.kind with
  | .property _ multiple => multiple
  | .node .. => false

/-- The types that a child node has to include; none for a property. -/
def requiredPrimaryTypes (d : ItemDef) : List Name :=
  match d.kind with
  | .node required _ _ => required
  | .property .. => []

/-- The type of a child node that is added without one. -/
def defaultPrimaryType (d : ItemDef) : Option Name :=
  match d.kind with
  | .node _ default _ => default
  | .property .. => none

/-- The name, or a star for a residual definition. -/
def displayName (d : ItemDef) : String := d.name.getD "*"

def mapNames (f : Name → Name) (d : ItemDef) : ItemDef :=
  { d with
    name := d.name.map f
    declaringType := f d.declaringType
    kind := match d.kind with
      | .property type multiple => .property type multiple
      | .node required default siblings => .node (required.map f) (default.map f) siblings }

end ItemDef

end ContentTypes
