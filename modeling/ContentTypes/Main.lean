import ContentTypes.CommandLine.Run

/-!
# The program

Reads the arguments and the file, runs, and writes the report. The exit code is 0 on success, 1 if the
run failed and 2 if the arguments were wrong.
-/

namespace ContentTypes.CommandLine

def usage : String :=
  "Resolve effective node types from a set of node type declarations

Usage: contenttypes [OPTIONS] <DECLARATIONS>

Arguments:
  <DECLARATIONS>  JSON file holding an array of node type declarations

Options:
  -r, --resolve <TYPES>    Node types to aggregate, comma-separated; may be repeated
  -i, --invalidate <NAME>  Evict cached aggregates including this node type after resolving
      --dump               Print the cache contents last
      --format <FORMAT>    Output format: text or json
  -h, --help               Print help
  -V, --version            Print version
"

/-- What is said when the arguments ask for no run. -/
def Stop.message : Stop → String
  | .unknownArgument => "unexpected argument"
  | .missingFile => "the declaration file is missing"
  | .invalidValue => "an option or the file has no valid value"
  | .repeated => "an option was given twice"
  | .unexpectedValue => "an option that takes no value was given one"
  | .help => usage
  | .version => "contenttypes 0.1.0\n"

/-- Reads a file, if that is possible. -/
def readBytes (file : String) : IO (Option ByteArray) :=
  try some <$> IO.FS.readBinFile file catch _ => pure none

end ContentTypes.CommandLine

open ContentTypes.CommandLine in
def main (args : List String) : IO UInt32 := do
  match Arguments.parse args with
  | .error .help => IO.print Stop.help.message; return 0
  | .error .version => IO.print Stop.version.message; return 0
  | .error stop => IO.eprint s!"error: {stop.message}\n\n{usage}"; return 2
  | .ok a =>
    let (output, failure) := run a (← readBytes a.file)
    IO.print output
    match failure with
    | none => return 0
    | some failure => IO.eprintln s!"Error: {failure.message}"; return 1
