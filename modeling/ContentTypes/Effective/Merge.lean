import ContentTypes.Declaration
import ContentTypes.Effective

/-!
# Building and merging effective types

`EffectiveType.ofDeclaration` is the type of a single declaration without its supertypes, and
`EffectiveType.merge` adds one effective type to another. Both add definitions one at a time
(`addItem`), and a definition that conflicts with one already held refuses the whole.

Named definitions conflict when one of them is auto-created, when both describe child nodes, or when
they are properties of one type and multiplicity (`namedConflict`). Residual definitions conflict when
they are properties of one type, multiplicity and on-parent-version action, or child nodes of the same
required and default types (`residualConflict`).
-/

namespace ContentTypes

/-! ### Conflicts -/

/-- Why two definitions of one item name exclude each other. -/
def namedConflict (name : Name) (incoming existing : ItemDef) : Option Conflict :=
  if incoming.isAutoCreated || existing.isAutoCreated then
    some (.autoCreated name incoming.declaringType existing.declaringType)
  else if incoming.definesNode != existing.definesNode then none
  else if incoming.definesNode then
    some (.childNode name incoming.declaringType existing.declaringType)
  else if incoming.requiredType == existing.requiredType
      && incoming.isMultiple == existing.isMultiple then
    some (.property name incoming.declaringType existing.declaringType)
  else none

/-- Why two residual definitions exclude each other. -/
def residualConflict (incoming existing : ItemDef) : Option Conflict :=
  if incoming.definesNode != existing.definesNode then none
  else if incoming.definesNode then
    if incoming.requiredPrimaryTypes == existing.requiredPrimaryTypes
        && incoming.defaultPrimaryType == existing.defaultPrimaryType then
      some (.residualChildNode incoming.declaringType existing.declaringType)
    else none
  else if incoming.requiredType == existing.requiredType
      && incoming.isMultiple == existing.isMultiple
      && incoming.onParentVersion == existing.onParentVersion then
    some (.residualProperty incoming.declaringType existing.declaringType)
  else none

/-! ### Adding a definition -/

namespace EffectiveType

/-- Adds a definition, or tells the first conflict with one that is held already. -/
def addItem (e : EffectiveType) (d : ItemDef) : Except Conflict EffectiveType :=
  match d.name with
  | some n =>
    match (e.namedItems n).findSome? (namedConflict n d) with
    | some c => .error c
    | none => .ok { e with named := e.named.add n d }
  | none =>
    match e.residual.findSome? (residualConflict d) with
    | some c => .error c
    | none => .ok { e with residual := e.residual ++ [d] }

def addItems (e : EffectiveType) (ds : List ItemDef) : Except Conflict EffectiveType :=
  ds.foldlM addItem e

/-! ### A single declaration -/

/-- Adds a definition of the declaration `type`, which it has to name as its declaring type. -/
def addOwnItem (type : Name) (e : EffectiveType) (d : ItemDef) : Except Error EffectiveType :=
  if d.declaringType = type then (e.addItem d).mapError .conflict
  else .error (.badArgument (.foreignItem d.displayName type d.declaringType))

/-- The type of one declaration, without its supertypes and without definitions yet. -/
def bare (d : Declaration) : EffectiveType :=
  { mergedTypes := .singleton d.name
    allTypes := .singleton d.name
    supportedMixins := d.supportedMixins.map .ofList }

/-- The type of one declaration, without its supertypes. Its definitions are added under the rules of
a merge, so a declaration that is ambiguous in itself is refused. -/
def ofDeclaration (d : Declaration) : Except Error EffectiveType :=
  if d.name = "" then .error (.badArgument .unnamedDeclaration)
  else d.items.foldlM (addOwnItem d.name) (bare d)

/-! ### Merging -/

/-- What an incoming type is to the receiver. -/
inductive MergeKind where
  /-- A type beside it, such as a mixin beside a primary type. -/
  | aggregate
  /-- Its supertypes. -/
  | supertype
deriving DecidableEq

/-- The definitions of `other` that come from types which `e` does not include, named ones first. -/
def incoming (e other : EffectiveType) : List ItemDef :=
  (other.named.items ++ other.residual).filter fun d => !e.includes d.declaringType

/-- Takes over the types of `other`. -/
def joinTypes (e other : EffectiveType) : MergeKind → EffectiveType
  | .aggregate =>
    { e with
      mergedTypes := e.mergedTypes ∪ other.mergedTypes
      inheritedTypes := e.inheritedTypes ∪ other.inheritedTypes
      allTypes := e.allTypes ∪ other.allTypes }
  | .supertype =>
    { e with
      inheritedTypes := e.inheritedTypes ∪ other.mergedTypes ∪ other.inheritedTypes
      allTypes := e.allTypes ∪ other.allTypes }

/-- Merges `other` into `e`. A type that includes nothing new leaves `e` as it is; the mixins that `e`
supports stay in force. -/
def merge (e other : EffectiveType) (kind : MergeKind) : Except Conflict EffectiveType :=
  if e.includesAll other.allTypes.toList then .ok e
  else (e.addItems (e.incoming other)).map (·.joinTypes other kind)

def mergeAll (e : EffectiveType) (others : List EffectiveType) : Except Conflict EffectiveType :=
  others.foldlM (fun (e : EffectiveType) other => e.merge other .aggregate) e

end EffectiveType

end ContentTypes
