import ContentTypes.Error
import ContentTypes.Json

/-!
# The log of queries

Every request to resolve names is a query: it is numbered and logged when it starts and when it ends.
`QueryEvent.toJson` writes an event as a flat record.
-/

namespace ContentTypes

/-- What happened to a query. -/
inductive QueryPhase where
  /-- So many names were requested, repeated ones included. -/
  | start (requested : Nat)
  /-- The result includes so many types; `cacheHit` if the requested key was cached. -/
  | done (allTypes : Nat) (cacheHit : Bool)
  | failed (error : Error)
deriving DecidableEq

/-- An event in the life of the query of a number. -/
structure QueryEvent where
  query : Nat
  phase : QueryPhase
deriving DecidableEq

/-- The queries so far: how many, and the events that were not taken yet. -/
structure QueryLog where
  runId : String := "default"
  queries : Nat := 0
  events : List QueryEvent := []
deriving DecidableEq

namespace QueryLog

def start (l : QueryLog) (requested : Nat) : QueryLog :=
  { l with
    queries := l.queries + 1
    events := l.events ++ [⟨l.queries + 1, .start requested⟩] }

/-- Logs what became of the last query. -/
def finish (l : QueryLog) (phase : QueryPhase) : QueryLog :=
  { l with events := l.events ++ [⟨l.queries, phase⟩] }

def take (l : QueryLog) : List QueryEvent × QueryLog := (l.events, { l with events := [] })

end QueryLog

/-- The phase by name, with what is known in it. -/
def QueryPhase.members : QueryPhase → List (String × Json)
  | .start requested => [("phase", .text "start"), ("requested", .nat requested)]
  | .done allTypes cacheHit =>
    [("phase", .text "end"), ("all_types", .nat allTypes), ("cache_hit", .bool cacheHit)]
  | .failed error => [("phase", .text "error"), ("error", .text error.message)]

def QueryEvent.toJson (runId : String) (e : QueryEvent) : Json :=
  .object ([("event", .text "query"), ("run_id", .text runId), ("query_id", .nat e.query),
    ("op", .text "resolve")] ++ e.phase.members)

end ContentTypes
