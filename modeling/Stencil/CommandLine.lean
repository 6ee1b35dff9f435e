import Stencil.CommandLine.Invocation
import Stencil.CommandLine.Reference
import Stencil.Directory
import Stencil.Value.File
import Stencil.Warning.Report

/-!
# The command line

`CommandLine.run` does what the arguments ask for: it renders a template file or standard input
with data from a file, reports the defects of a template, or prints the directive reference. Files
are read by an action of some monad, and what is printed is part of the answer. The first error
ends a run.
-/

set_option autoImplicit false

namespace Stencil

namespace CommandLine

/-- How a run ends: its exit code, and what it prints. -/
structure Result where
  code : Nat := 0
  output : Text := []
  errors : Text := []
deriving DecidableEq, Repr

/-- How files and standard input are read. -/
structure Access (m : Type → Type) where
  file : PathName → m (Except FileError Text)
  input : m (Except FileError Text)

/-- A run that ends with an error. -/
def failure (message : Text) : Result := { code := 1, errors := message ++ ['\n'] }

/-- A run whose arguments are not understood. -/
def misuse : Result :=
  { code := 2, errors := "error: the arguments are not understood\n".toList }

/-- The summary of the options. -/
def help : Text :=
  ["Render text templates with inheritance, includes and macros",
    "",
    "Usage: tplus [OPTIONS] [INPUT]",
    "",
    "Arguments:",
    "  [INPUT]  Template file (reads from stdin if not provided)",
    "",
    "Options:",
    "  -d, --data <DATA>            Data file bound to the template (JSON or TOML)",
    "  -t, --templates <TEMPLATES>  Directory for extended and included templates",
    "  -c, --config <CONFIG>        Engine configuration file (TOML format)",
    "  -l, --lint                   Report directive problems instead of rendering",
    "  -g, --grammar                Show directive reference",
    "  -h, --help                   Print help"].flatMap fun line => line.toList ++ ['\n']

/-- Something in apostrophes. -/
def quoted (t : Text) : Text := '\x27' :: t ++ ['\x27']

section Monadic

variable {m : Type → Type} [Monad m]

/-- Reads the configuration, if a file is given for it. -/
def loadConfig (access : Access m) : Option PathName → m (Except Text Config)
  | none => return .ok {}
  | some path => do
    let blame (message : Text) : Text :=
      "Error loading config ".toList ++ quoted path ++ ": ".toList ++ message
    match ← access.file path with
    | .error error =>
      return .error (blame ("Failed to read config file: ".toList ++ error.message))
    | .ok t =>
      match Config.parse? t with
      | some config => return .ok config
      | none =>
        return .error (blame "Failed to parse config TOML: the text is no configuration".toList)

/-- Reads the template: its source and the name it has in reports. -/
def loadSource (access : Access m) : Option PathName → m (Except Text (Text × Text))
  | some path => do
    match ← access.file path with
    | .error error =>
      return .error ("Error reading file ".toList ++ quoted path ++ ": ".toList ++ error.message)
    | .ok t => return .ok (t, path)
  | none => do
    match ← access.input with
    | .error error => return .error ("Error reading from stdin: ".toList ++ error.message)
    | .ok t => return .ok (t, "<stdin>".toList)

/-- Reads the data, if a file is given for it. -/
def loadData (access : Access m) : Option PathName → m (Except Text (Value Empty))
  | none => return .ok .null
  | some path => do
    match ← Value.ofFile access.file path with
    | .error error =>
      return .error ("Error loading data ".toList ++ quoted path ++ ": ".toList ++ error.message)
    | .ok value => return .ok value

/-- The reports of all warnings about a template; there must be none. -/
def report (source filename : Text) : Result :=
  match lint source with
  | [] => {}
  | warnings =>
    { code := 1, errors := warnings.flatMap fun warning => warning.report source filename }

/-- Where templates are found: in the directory of the option, of the configuration, of the
template file, or else in the working directory. -/
def templateDirectory (invocation : Invocation) (location : Location) : PathName :=
  match invocation.templates, location.dir with
  | some dir, _ => dir
  | none, some dir => dir
  | none, none =>
    match invocation.input.bind PathName.parent? with
    | none => ['.']
    | some [] => ['.']
    | some dir => dir

/-- There are no computed entries in data from files. -/
def evaluator : Evaluator Empty := ⟨fun computation _ => (nomatch computation), 0⟩

/-- Renders a template with data. -/
def render (access : Access m) (invocation : Invocation) (config : Config) (source : Text)
    (data : Value Empty) : m Result := do
  let dir := templateDirectory invocation config.location
  let location := { config.location with dir := some dir }
  let (rendering, _) ← (renderText evaluator (Directory.fetch access.file) [] config.limits source
    data).run.run (Directory.ofLocation location)
  match rendering with
  | some (.text content) => return { output := content }
  | some (.failed error) => return failure ("Error: ".toList ++ error.message)
  -- a macro, or the search for a template, panicked
  | _ => return { code := 101 }

/-- Does what an invocation asks for. -/
def perform (access : Access m) (invocation : Invocation) : m Result := do
  if invocation.help then return { output := help }
  else if invocation.grammar then return { output := Reference.content }
  else
    match ← loadConfig access invocation.config with
    | .error message => return failure message
    | .ok config =>
      match ← loadSource access invocation.input with
      | .error message => return failure message
      | .ok (source, filename) =>
        if invocation.lint then return report source filename
        else
          match ← loadData access invocation.data with
          | .error message => return failure message
          | .ok data => render access invocation config source data

/-- Does what arguments ask for. -/
def run (access : Access m) (arguments : List Text) : m Result :=
  match Invocation.ofArguments? arguments with
  | none => return misuse
  | some invocation => perform access invocation

end Monadic

end CommandLine

end Stencil
