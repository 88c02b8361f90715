/-
Running a command.

A run is a function of the arguments, the environment, the disk and the
clock; it ends with an exit status and what it wrote. The suffixes given
as options replace those of the configuration as they stand.
-/
import LiveDoc.CommandLine.Options
import LiveDoc.Loader.Import
import LiveDoc.Text.Split

namespace LiveDoc.CommandLine

/-- How a run ends. -/
structure Outcome where
  exit : Nat
  stdout : String := ""
  stderr : String := ""
  deriving DecidableEq

/-- Lines as text; every line is ended. -/
def textOfLines (lines : List String) : String :=
  String.join (lines.map (· ++ "\n"))

-- ==================================================== usage

/-- How the command is used. -/
def usageLines : List String := [
  "importjson 0.2.0 - JSON documents as class modules",
  "",
  "Usage: importjson <command> <module> [options]",
  "",
  "Commands:",
  "  source <module>   Print the generated program listing",
  "  check <module>    Load the module and list its attributes and classes",
  "",
  "Options:",
  "  --path DIR        Add a search directory (repeatable, searched first)",
  "  --suffix SUFFIX   Document suffix to probe (repeatable, default: .json)",
  "  --help, -h        Show this help message",
  "",
  "Search directories also come from IMPORTJSON_PATH and the current directory.",
  "Set RUST_LOG=debug to trace probing and activation."]

/-- The line in front of the usage, if there is one. -/
def Stop.notice? : Stop → Option String
  | .help => none
  | .missingModule => none
  | .missingValue option => some s!"{option} requires a value"
  | .unknownOption option => some s!"Unknown option: {option}"
  | .extraModule => some "Only one module can be specified"
  | .unknownCommand name => some s!"Unknown command: {name}"

/-- The exit status of a run that does nothing: asking for help is no
fault. -/
def Stop.exit : Stop → Nat
  | .help => 0
  | _ => 64

/-- How a run ends that does nothing. -/
def Stop.outcome (s : Stop) : Outcome :=
  { exit := s.exit, stderr := textOfLines (s.notice?.toList ++ usageLines) }

-- ==================================================== summaries

/-- The lines of a class. -/
def classLines (c : Class) : List String :=
  ("  class " ++ c.name ++ "(" ++ (c.parent?.map Class.name).getD "object" ++ ")")
    :: c.declaredClassAttributes.map (fun e =>
        "    class attribute " ++ e.1 ++ " = " ++ e.2.text)
    ++ c.declaredInstanceAttributes.map (fun e => "    " ++ e.1 ++ " = " ++ e.2.text)

/-- The lines of a module: its name and file, the first line of its
documentation, its attributes, its classes. -/
def moduleLines (m : Module) : List String :=
  ("module " ++ m.name ++ " (" ++ m.state.file ++ ")")
    :: ((firstLine? m.state.doc).map ("  " ++ ·)).toList
    ++ m.declaredAttributes.map (fun e => "  " ++ e.1 ++ " = " ++ e.2.text)
    ++ m.state.classes.entries.flatMap (fun e => classLines e.2)

-- ==================================================== runs

/-- The search roots of a run: those of the options, those of the
environment, the working directory. -/
def Options.roots (o : Options) (environment : Option String) : List String :=
  o.paths ++ Search.environmentRoots environment

/-- The loader of a run. -/
def Options.loader (o : Options) (configuration : Configuration) (environment : Option String) :
    Loader :=
  let configuration :=
    if o.suffixes.isEmpty then configuration else { configuration with suffixes := o.suffixes }
  (Loader.ofConfiguration configuration).withRoots (o.roots environment)

/-- How a run ends that fails. -/
def failure (e : ImportError) : Outcome :=
  { exit := 1, stderr := "error: " ++ e.message ++ "\n" }

/-- Run a command in a system. -/
def Options.run (o : Options) (s : System) : Outcome :=
  let (l, s) := s.addLoader (o.loader s.configuration s.environment)
  match o.command with
  | .source name =>
    match s.source l name with
    | (.ok listing, _) => { exit := 0, stdout := listing }
    | (.error e, _) => failure e
  | .check name =>
    match s.importModule l name with
    | (.ok r, s) =>
      { exit := 0, stdout := textOfLines (((s.module? r).map moduleLines).getD []) }
    | (.error e, _) => failure e

/-- Run the command that arguments give. -/
def run (disk : Disk) (environment : Option String) (time : String) (args : List String) :
    Outcome :=
  match Options.parse args with
  | .error stop => stop.outcome
  | .ok o => o.run { disk, environment, time }

/-- The paths that a run may look at. -/
def probes (environment : Option String) (args : List String) : List String :=
  match Options.parse args with
  | .error _ => []
  | .ok o =>
    let name := match o.command with
      | .source name => name
      | .check name => name
    (o.loader {} environment).search.candidates name

end LiveDoc.CommandLine
