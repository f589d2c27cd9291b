/-!
# Guarding recursion

A `VisitGuard` watches a recursion over values of a type `α`. `enter` is asked before a value is
visited and refuses one that is being visited already, one that lies too deep, and any value once the
budget of visits is spent; `leave` is told when a visit ends. A refused visit counts against the budget
too, and the count stops at `visitCap`.
-/

namespace ContentTypes

/-- The answer to a request to visit. -/
inductive Admission where
  | entered | cycle | depthExceeded | iterationExceeded
deriving DecidableEq

def Admission.text : Admission → String
  | .entered => "Entered"
  | .cycle => "Cycle"
  | .depthExceeded => "DepthExceeded"
  | .iterationExceeded => "IterationExceeded"

/-- Where the count of visits stops. -/
def visitCap : Nat := UInt32.size - 1

/-- The visits under way and the limits on them. -/
structure VisitGuard (α : Type) where
  maxDepth : Nat
  maxVisits : Nat
  visiting : List α := []
  depth : Nat := 0
  visits : Nat := 0

namespace VisitGuard

/-- The longest supertype chain, counting the type it starts from. -/
def maxSupertypeDepth : Nat := 64

/-- The number of declarations that one request may visit. -/
def maxSupertypeVisits : Nat := 100000

/-- The guard of a walk along supertypes. -/
def supertypes : VisitGuard α := { maxDepth := maxSupertypeDepth, maxVisits := maxSupertypeVisits }

/-- Asks to visit a value. -/
def enter [DecidableEq α] (g : VisitGuard α) (a : α) : Admission × VisitGuard α :=
  let g := { g with visits := min (g.visits + 1) visitCap }
  if g.maxVisits < g.visits then (.iterationExceeded, g)
  else if a ∈ g.visiting then (.cycle, g)
  else if g.maxDepth ≤ g.depth then (.depthExceeded, g)
  else (.entered, { g with visiting := a :: g.visiting, depth := g.depth + 1 })

def leave [DecidableEq α] (g : VisitGuard α) (a : α) : VisitGuard α :=
  { g with visiting := g.visiting.erase a, depth := g.depth - 1 }

/-- Visits values one after the other, each left as soon as it was entered; gives the last answer. -/
def enterEach [DecidableEq α] (g : VisitGuard α) (l : List α) : Option Admission × VisitGuard α :=
  l.foldl (fun (_, g) a =>
    match g.enter a with
    | (.entered, g) => (some .entered, g.leave a)
    | (refusal, g) => (some refusal, g)) (none, g)

end VisitGuard

end ContentTypes
