import ContentTypes.Cache
import ContentTypes.Effective.Merge
import ContentTypes.Registry
import ContentTypes.Resolver.Visit

/-!
# Building effective types

`Registry.aggregate` gives the effective type of a list of names. What is cached under their key is the
answer. Otherwise the largest cached subset of the names is merged in and taken off, again and again
(`mergeSubsets`); the names that are left are merged in one by one in ascending order, each from the
cache or built from its declaration (`mergeSingles`). Every intermediate result is cached under its
merged types, and the final one under the requested key too.

A declaration is built with `buildDeclared`: its supertypes are aggregated in the same way and merged
in as supertypes.
-/

namespace ContentTypes

/-- A computation that builds effective types and caches them. -/
abbrev Build := Visit Cache

namespace Build

/-- The key of a list of names. -/
def keyFor (names : List Name) : Build Key := Visit.change (·.keyFor names)

/-- Caches a type under its merged types. -/
def putMerged (type : EffectiveType) : Build Unit := Visit.change fun c => ((), (c.putMerged type).2)

def put (key : Key) (type : EffectiveType) : Build Unit := Visit.change fun c => ((), c.put key type)

/-- Merges a type into another and keeps the old one on success. -/
def merged (e other : EffectiveType) (kind : EffectiveType.MergeKind) : Build EffectiveType :=
  match e.merge other kind with
  | .ok result => return result
  | .error c => throw (.conflict c)

/-- Merges a type into the result so far, if there is one, and caches what comes out. -/
def mergeNext (result : Option EffectiveType) (type : EffectiveType) : Build EffectiveType :=
  match result with
  | none => return type
  | some result => do
    let result ← merged result type .aggregate
    putMerged result
    return result

/-- The largest cached subset of a key, with its type. -/
def largestSubset (key : Key) : Build (Option (Key × EffectiveType)) :=
  Visit.read fun c => (c.findBest? key).bind fun best => (c.get? best).map (best, ·)

/-- Merges in cached subsets of `remaining` while there are any; gives what remains. Each round takes
off a name at least, so `rounds` need not be more than there are names. -/
def mergeSubsets : Nat → Key → Option EffectiveType → Build (Key × Option EffectiveType)
  | 0, remaining, result => return (remaining, result)
  | rounds + 1, remaining, result => do
    if remaining.isEmpty then return (remaining, result)
    match ← largestSubset remaining with
    | none => return (remaining, result)
    | some (best, type) =>
      let result ← mergeNext result type
      mergeSubsets rounds (remaining.subtract best) (some result)

/-- The type of a single name, from the cache if an earlier name brought it there. -/
def single (build : Name → Build EffectiveType) (name : Name) : Build EffectiveType := do
  let key ← keyFor [name]
  match ← Visit.read (·.get? key) with
  | some type => return type
  | none => build name

def mergeSingles (build : Name → Build EffectiveType) (names : List Name)
    (result : Option EffectiveType) : Build (Option EffectiveType) :=
  names.foldlM (fun result name => return some (← mergeNext result (← single build name))) result

/-- The effective type of a list of names, where `build` builds a single declared type. -/
def aggregateWith (build : Name → Build EffectiveType) (names : List Name) : Build EffectiveType := do
  let key ← keyFor names
  match ← Visit.read (·.get? key) with
  | some type => return type
  | none =>
    let (remaining, result) ← mergeSubsets key.size key none
    match ← mergeSingles build remaining.names.toList result with
    | none => throw (.badArgument .noNames)
    | some type =>
      put key type
      putMerged type
      return type

end Build

namespace Registry

/-- Builds the type of a declaration, where `aggregate` gives the type of its supertypes. -/
def declaredType (r : Registry) (aggregate : List Name → Build EffectiveType) (name : Name) :
    Build EffectiveType :=
  match r.find? name with
  | none => throw (.noSuchType name)
  | some d =>
    match EffectiveType.ofDeclaration d with
    | .error e => throw e
    | .ok own => do
      let type ← if d.supertypes.isEmpty then pure own
        else Build.merged own (← aggregate d.supertypes) .supertype
      Build.putMerged type
      return type

/-- Builds and caches the type of a declared name. The supertypes have been checked before, so the
guard refuses nothing here unless declarations and check disagree. -/
def buildDeclared (r : Registry) (aggregate : List Name → Build EffectiveType) (name : Name) :
    Build EffectiveType :=
  Visit.within name name (r.declaredType aggregate name)

/-- The effective type of a list of names. The guard ends the recursion before `levels` runs out. -/
def aggregate (r : Registry) (levels : Nat) (names : List Name) : Build EffectiveType :=
  match levels with
  | 0 => Build.aggregateWith (fun name => throw (.inheritanceTooDeep name)) names
  | levels + 1 => Build.aggregateWith (r.buildDeclared (r.aggregate levels)) names

end Registry

end ContentTypes
