import ContentTypes.CommandLine
import ContentTypes.Declaration.Json
import ContentTypes.Json.Parser
import ContentTypes.Report

/-!
# A run of the program

`CommandLine.run` does what the arguments ask for: it loads the declarations of the file, resolves the
requests one after the other with one resolver, then evicts, then lists the cache, and writes the
report. A run fails when the file cannot be loaded, before anything is written, or when a request
failed, after the report.
-/

namespace ContentTypes.CommandLine

inductive Failure where
  /-- The file is missing, cannot be read or is not UTF-8. -/
  | unreadable (file : String)
  /-- The file holds no list of declarations. -/
  | unparsable (file : String)
  /-- The file declares a name twice. -/
  | declaredTwice (name : Name)
  /-- Some of the requests failed. -/
  | unresolved (failures total : Nat)
deriving DecidableEq

def Failure.message : Failure → String
  | .unreadable file => s!"failed to read declarations from {file}"
  | .unparsable file => s!"failed to parse declarations in {file}"
  | .declaredTwice name => s!"node type '{name}' is declared twice"
  | .unresolved failures total => s!"{failures} of {total} resolutions failed"

/-! ### Loading -/

/-- Registers a declaration whose name is new. -/
def registerNew (r : Registry) (d : Declaration) : Except Failure Registry :=
  if r.contains d.name then .error (.declaredTwice d.name) else .ok (r.register d)

/-- Loads the declarations in a file of the given content, `none` for a file that cannot be read. -/
def load (file : String) (content : Option ByteArray) : Except Failure Registry :=
  match content.bind String.fromUTF8? with
  | none => .error (.unreadable file)
  | some text =>
    match (Json.parse? text).bind (Json.list? Declaration.ofJson?) with
    | none => .error (.unparsable file)
    | some ds => ds.foldlM registerNew {}

/-! ### Requests and evictions -/

/-- Resolves requests one after the other. -/
def resolveAll (r : Resolver) : List (List Name) → List Report.Resolution × Resolver
  | [] => ([], r)
  | request :: rest =>
    let (outcome, r) := r.resolve request
    let (more, r) := resolveAll r rest
    (⟨request, outcome⟩ :: more, r)

/-- Evicts names one after the other. -/
def evictAll (r : Resolver) : List Name → List Report.Eviction × Resolver
  | [] => ([], r)
  | name :: rest =>
    let (evicted, r) := r.invalidate name
    let (more, r) := evictAll r rest
    (⟨name, evicted⟩ :: more, r)

/-- Does what the arguments ask for over a registry. -/
def execute (a : Arguments) (registry : Registry) : Report :=
  let (resolutions, r) := resolveAll { registry } a.requests
  let (evictions, r) := evictAll r a.invalidate
  { resolutions, evictions, cache := if a.dump then some r.cache.dump else none }

def write (r : Report) : Format → String
  | .json => r.toJson.pretty ++ "\n"
  | .text => r.toText

/-- Runs the program on the content of the file; gives what it writes and whether it fails. -/
def run (a : Arguments) (content : Option ByteArray) : String × Option Failure :=
  match load a.file content with
  | .error failure => ("", some failure)
  | .ok registry =>
    let report := execute a registry
    let failure := if report.failures = 0 then none
      else some (.unresolved report.failures report.resolutions.length)
    (write report a.format, failure)

end ContentTypes.CommandLine
