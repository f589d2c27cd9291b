import ContentTypes.Name
import ContentTypes.Text.Blank

/-!
# The command line

`Arguments.parse` reads the arguments of the program: one file, any number of requests (`-r`) and
evictions (`-i`), a switch (`--dump`) and a format. A value may be attached to its option or follow it;
a following argument that begins with a hyphen is not taken for a value. After `--` nothing is an
option.

The arguments are read from left to right. An option or file whose value is complete stays pending
until the next argument shows that nothing more belongs to it; only then is the value examined
(`Draft.settle`). That decides which of several mistakes is reported.
-/

namespace ContentTypes.CommandLine

inductive Format where
  | text | json
deriving DecidableEq, Inhabited

/-- The format of a word, in either case. -/
def Format.ofText? (s : String) : Option Format :=
  match String.ofList (s.toList.map Char.toLower) with
  | "text" => some .text
  | "json" => some .json
  | _ => none

/-- Why there is nothing to run: a mistake, or a question about the program. -/
inductive Stop where
  | unknownArgument | missingFile | invalidValue | repeated | unexpectedValue | help | version
deriving DecidableEq

/-- What the program is asked to do. -/
structure Arguments where
  file : String
  resolve : List String := []
  invalidate : List String := []
  dump : Bool := false
  format : Format := .text
deriving DecidableEq

/-! ### What has been read -/

/-- The places that take a value. -/
inductive Slot where
  | file | resolve | invalidate | format
deriving DecidableEq

/-- What has been read so far. -/
structure Draft where
  file : Option String := none
  resolve : List String := []
  invalidate : List String := []
  dump : Bool := false
  format : Option Format := none
  /-- The slot read last, with its value if that has come. -/
  pending : Option (Slot × Option String) := none
  /-- A file was given, examined or not. -/
  fileSeen : Bool := false
  /-- All further arguments are files. -/
  optionsEnded : Bool := false

namespace Draft

/-- Examines a value and takes it over. -/
def accept (d : Draft) (slot : Slot) (value : String) : Except Stop Draft :=
  match slot with
  | .file => if value = "" then .error .invalidValue else .ok { d with file := some value }
  | .resolve => .ok { d with resolve := d.resolve ++ [value] }
  | .invalidate => .ok { d with invalidate := d.invalidate ++ [value] }
  | .format =>
    if d.format.isSome then .error .repeated
    else match Format.ofText? value with
      | some f => .ok { d with format := some f }
      | none => .error .invalidValue

/-- Completes the slot read last. -/
def settle (d : Draft) : Except Stop Draft :=
  match d.pending with
  | none => .ok d
  | some (_, none) => .error .invalidValue
  | some (slot, some value) => { d with pending := none }.accept slot value

/-- Does the slot read last wait for its value? -/
def waiting (d : Draft) : Option Slot :=
  match d.pending with
  | some (slot, none) => some slot
  | _ => none

/-! ### Single arguments -/

/-- An option that takes a value, here attached to it or still to come. -/
def option (d : Draft) (slot : Slot) (attached : Option String) : Except Stop Draft := do
  let d ← d.settle
  match attached with
  | some value => d.accept slot value
  | none => .ok { d with pending := some (slot, none) }

/-- An option that stops the program. -/
def question (d : Draft) (stop : Stop) : Except Stop Draft := do
  let _ ← d.settle
  .error stop

/-- The switch for the listing of the cache. -/
def switchDump (d : Draft) : Except Stop Draft := do
  let d ← d.settle
  if d.dump then .error .repeated else .ok { d with dump := true }

/-- An argument that is no option. -/
def positional (d : Draft) (value : String) : Except Stop Draft :=
  if d.fileSeen then .error .unknownArgument
  else do
    let d ← d.settle
    .ok { d with pending := some (.file, some value), fileSeen := true }

/-- An option with a long name, behind the two hyphens. -/
def longOption (d : Draft) (s : List Char) : Except Stop Draft :=
  let name := String.ofList (s.takeWhile (· ≠ '='))
  let value := match s.dropWhile (· ≠ '=') with
    | [] => none
    | _ :: rest => some (String.ofList rest)
  match name, value with
  | "resolve", value => d.option .resolve value
  | "invalidate", value => d.option .invalidate value
  | "format", value => d.option .format value
  | "dump", none => d.switchDump
  | "help", none => d.question .help
  | "version", none => d.question .version
  | "dump", some _ => .error .unexpectedValue
  | "help", some _ => .error .unexpectedValue
  | "version", some _ => .error .unexpectedValue
  | _, _ => .error .unknownArgument

/-- The value attached to an option of one letter; an equals sign before it is dropped. -/
def attachedValue : List Char → Option String
  | [] => none
  | '=' :: rest => some (String.ofList rest)
  | s => some (String.ofList s)

/-- An option of one letter, behind the hyphen. -/
def shortOption (d : Draft) : List Char → Except Stop Draft
  | 'r' :: rest => d.option .resolve (attachedValue rest)
  | 'i' :: rest => d.option .invalidate (attachedValue rest)
  | 'h' :: _ => d.question .help
  | 'V' :: _ => d.question .version
  | _ => .error .unknownArgument

/-- Reads an argument. A hyphen alone is no option. -/
def argument (d : Draft) (arg : String) : Except Stop Draft :=
  if d.optionsEnded then d.positional arg
  else match arg.toList with
    | ['-', '-'] => .ok { d with optionsEnded := true }
    | '-' :: '-' :: rest => d.longOption rest
    | '-' :: c :: rest => d.shortOption (c :: rest)
    | _ =>
      match d.waiting with
      | some slot => .ok { d with pending := some (slot, some arg) }
      | none => d.positional arg

def finish (d : Draft) : Except Stop Arguments := do
  let d ← d.settle
  match d.file with
  | none => .error .missingFile
  | some file =>
    .ok {
      file, resolve := d.resolve, invalidate := d.invalidate, dump := d.dump
      format := d.format.getD .text }

end Draft

/-! ### All arguments -/

namespace Arguments

def parse (args : List String) : Except Stop Arguments := do
  (← args.foldlM Draft.argument {}).finish

example : parse ["f", "-ra,b", "-r=", "--format", "JSON"] =
    .ok { file := "f", resolve := ["a,b", ""], format := .json } := rfl

example : parse ["f", "-r", "-i"] = .error .invalidValue := rfl

example : parse ["f", "-r", "-1"] = .error .unknownArgument := rfl

example : parse ["f", "--format", "x", "--dump=1"] = .error .unexpectedValue := rfl

/-- The names in a request, which stand between commas; blank ones are dropped. -/
def namesOf (request : String) : List Name :=
  ((Text.fields ',' request.toList).map Text.trim).filterMap fun s =>
    if s.isEmpty then none else some (String.ofList s)

def requests (a : Arguments) : List (List Name) := a.resolve.map namesOf

end Arguments

end ContentTypes.CommandLine
