import ContentTypes.QueryLog
import ContentTypes.Resolver.Build
import ContentTypes.Resolver.Inheritance

/-!
# The resolver

A `Resolver` answers requests for effective types from the declarations of a registry and keeps them in
a cache. A request is checked before anything is built: the names must be registered and their
inheritance sound (`Registry.checkRequest`). What is cached under the requested key is answered without
a check, so after a change of the registry the changed name has to be invalidated.

`Cache.resolve` is the request on the cache alone; `Resolver.resolve` logs it as a query.
`Resolver.childDefinition` finds the definition that applies to a child node.
-/

namespace ContentTypes

/-- An answer to a request: the type, and whether the requested key was cached. -/
structure Resolution where
  type : EffectiveType
  cacheHit : Bool

/-- Checks that the requested names are registered and their inheritance is sound. -/
def Registry.checkRequest (r : Registry) (names : List Name) : Except Error Unit :=
  match names.find? (!r.contains ·) with
  | some unknown => .error (.noSuchType unknown)
  | none => r.checkInheritance names

/-- Checks that a request names something. -/
def checkNames (names : List Name) : Except Error Unit :=
  if names.isEmpty then .error (.badArgument .noNames)
  else if names.any (· == "") then .error (.badArgument .emptyName)
  else .ok ()

/-- Builds the effective type of checked names. -/
def Cache.build (c : Cache) (r : Registry) (names : List Name) : Except Error EffectiveType × Cache :=
  Visit.start (r.aggregate (VisitGuard.maxSupertypeDepth + 1) names) c

/-- The effective type of a list of names. A request that fails may leave numbered names and types of
single declarations behind. -/
def Cache.resolve (c : Cache) (r : Registry) (names : List Name) : Except Error Resolution × Cache :=
  match checkNames names with
  | .error e => (.error e, c)
  | .ok () =>
    let (key, c) := c.keyFor names
    match c.get? key with
    | some type => (.ok ⟨type, true⟩, c)
    | none =>
      match r.checkRequest names with
      | .error e => (.error e, c)
      | .ok () =>
        let (outcome, c) := c.build r names
        (outcome.map (⟨·, false⟩), c)

/-- A registry with the cache of what was resolved over it. -/
structure Resolver where
  registry : Registry := {}
  cache : Cache := {}
  log : QueryLog := {}

namespace Resolver

instance : Inhabited Resolver := ⟨{}⟩

/-! ### Requests -/

/-- The phase in which a query ends. -/
def endPhase : Except Error Resolution → QueryPhase
  | .ok r => .done r.type.allTypes.size r.cacheHit
  | .error e => .failed e

/-- Resolves a list of names; order and repetitions do not matter. -/
def resolve (r : Resolver) (names : List Name) : Except Error EffectiveType × Resolver :=
  let log := r.log.start names.length
  let (outcome, cache) := r.cache.resolve r.registry names
  (outcome.map (·.type), { r with cache, log := log.finish (endPhase outcome) })

def resolveOne (r : Resolver) (name : Name) : Except Error EffectiveType × Resolver := r.resolve [name]

/-- Resolves a primary type together with mixins. -/
def resolveWithMixins (r : Resolver) (primary : Name) (mixins : List Name) :
    Except Error EffectiveType × Resolver :=
  r.resolve (primary :: mixins)

/-! ### Changes -/

/-- Drops every cached type that includes a name. It is called after the declaration of the name has
changed. -/
def invalidate (r : Resolver) (name : Name) : Nat × Resolver :=
  let (evicted, cache) := r.cache.invalidate name
  (evicted, { r with cache })

/-- Drops all cached types and forgets the numbers of names. -/
def clear (r : Resolver) : Resolver := { r with cache := {} }

/-- Registers a declaration; the cache stays as it is. -/
def register (r : Resolver) (d : Declaration) : Resolver := { r with registry := r.registry.register d }

/-- Unregisters a name; the cache stays as it is. -/
def unregister (r : Resolver) (name : Name) : Resolver :=
  { r with registry := r.registry.unregister name }

/-! ### Child nodes -/

/-- The definitions that could apply to a child, named ones first. -/
def candidates (type : EffectiveType) (name : Name) : List ItemDef :=
  type.namedNodes name ++ type.residualNodes

/-- The first candidate that applies. -/
def choose (type : EffectiveType) (name : Name) (applies : ItemDef → Bool) : Except Error ItemDef :=
  match (candidates type name).find? applies with
  | some d => .ok d
  | none => .error (.noMatchingDefinition name)

/-- The definition of a child of a given primary type: the first that requires only types which the
primary type includes. The primary type has to be registered, and no mixin. -/
def typedChildDefinition (r : Resolver) (type : EffectiveType) (name primary : Name) :
    Except Error ItemDef × Resolver :=
  match r.registry.find? primary with
  | none => (.error (.noSuchType primary), r)
  | some d =>
    if d.isMixin then (.error (.mixinAsPrimaryType primary), r)
    else
      let (target, r) := r.resolveOne primary
      (target.bind fun target => choose type name (target.includesAll ·.requiredPrimaryTypes), r)

/-- The definition of a child node. Without a primary type, the first that has a default type. -/
def childDefinition (r : Resolver) (type : EffectiveType) (name : Name) (primary : Option Name) :
    Except Error ItemDef × Resolver :=
  match primary with
  | some primary => r.typedChildDefinition type name primary
  | none => (choose type name (·.defaultPrimaryType.isSome), r)

def checkAdd (r : Resolver) (type : EffectiveType) (name : Name) (primary : Option Name) :
    Except Error Unit × Resolver :=
  let (found, r) := r.childDefinition type name primary
  let verdict := if primary.isSome then EffectiveType.checkAddTyped name found
    else EffectiveType.checkAdd name found
  (verdict, r)

end Resolver

end ContentTypes
