import ContentTypes.Error
import ContentTypes.Guard

/-!
# Computations that visit names

A `Visit σ α` walks along declarations under a guard, keeps what it has found in a state `σ`, and gives
an `α` or an error. A failing visit keeps its state too.

`Visit.within` visits one name: it asks the guard, runs the visit's body and tells the guard when the
body has ended, with success or not. All use of the guard goes through it.
-/

namespace ContentTypes

/-- A computation that visits names under a guard and keeps a state. -/
abbrev Visit (σ α : Type) := ExceptT Error (StateM (VisitGuard Name × σ)) α

namespace Visit

variable {σ α : Type}

/-- Runs a visit with a fresh guard; gives the outcome and the state. -/
def start (v : Visit σ α) (s : σ) : Except Error α × σ :=
  let (outcome, _, s) := v.run (.supertypes, s)
  (outcome, s)

/-- Runs `body` as the visit of `name`. A name that is being visited already inherits from itself; if
the visit goes too deep or takes too long, `blamed` is the type to report. -/
def within (name blamed : Name) (body : Visit σ α) : Visit σ α := ExceptT.mk fun (guard, s) =>
  match guard.enter name with
  | (.entered, guard) =>
    let (outcome, guard, s) := body.run (guard, s)
    (outcome, guard.leave name, s)
  | (.cycle, guard) => (.error (.inheritanceCycle name), guard, s)
  | (.depthExceeded, guard) => (.error (.inheritanceTooDeep blamed), guard, s)
  | (.iterationExceeded, guard) => (.error (.inheritanceTooDeep blamed), guard, s)

def read (f : σ → α) : Visit σ α := ExceptT.mk fun (guard, s) => (.ok (f s), guard, s)

def change (f : σ → α × σ) : Visit σ α := ExceptT.mk fun (guard, s) =>
  let (a, s) := f s
  (.ok a, guard, s)

end Visit

end ContentTypes
