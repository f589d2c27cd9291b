import ContentTypes.Registry
import ContentTypes.Resolver.Visit

/-!
# Checking inheritance

Before anything is built for a request, the supertypes of the requested names are walked on the
declarations alone (`Registry.checkInheritance`). A request is refused whose supertypes are not all
registered, inherit from themselves, or form a chain of more than `maxSupertypeDepth` types; and one
that takes more than `maxSupertypeVisits` visits. Every type is measured once: its height, the length of
the longest chain from it upwards, is kept in `Heights`.
-/

namespace ContentTypes

/-- The heights of the types measured so far. -/
abbrev Heights := Std.TreeMap Name Nat

namespace Registry

/-- The greatest height of a list of types. -/
def greatestHeight (measure : Name → Visit Heights Nat) (names : List Name) : Visit Heights Nat :=
  names.foldlM (fun height n => return max height (← measure n)) 0

/-- The height of the immediate supertypes of a type. -/
def supertypeHeight (r : Registry) (measure : Name → Visit Heights Nat) (name : Name) :
    Visit Heights Nat :=
  match r.find? name with
  | none => throw (.noSuchType name)
  | some d => greatestHeight measure d.supertypes

/-- The height of a type: one more than that of its supertypes. The guard ends the walk before `levels`
runs out; a chain that long is too deep anyway. -/
def chainHeight (r : Registry) (requested : Name) (levels : Nat) (name : Name) : Visit Heights Nat := do
  match ← Visit.read (·[name]?) with
  | some height => return height
  | none =>
    match levels with
    | 0 => throw (.inheritanceTooDeep requested)
    | levels + 1 =>
      let height ← Visit.within name requested (r.supertypeHeight (r.chainHeight requested levels) name)
      Visit.change fun heights => (height + 1, heights.insert name (height + 1))

/-- Checks the supertypes of one requested type. -/
def checkChain (r : Registry) (requested : Name) : Visit Heights Unit := do
  let height ← r.chainHeight requested (VisitGuard.maxSupertypeDepth + 1) requested
  if VisitGuard.maxSupertypeDepth < height then throw (.inheritanceTooDeep requested)

/-- Checks the supertypes of the requested types, in ascending order of their names. -/
def checkInheritance (r : Registry) (names : List Name) : Except Error Unit :=
  (Visit.start ((NameSet.ofList names).toList.forM r.checkChain) {}).1

end Registry

end ContentTypes
