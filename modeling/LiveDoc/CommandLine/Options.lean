/-
The arguments of a command.

Arguments are read left to right. An option that takes a value takes the
next argument, whatever it looks like; every other argument with a dash
in front must be a known option; of the rest the first is the command and
the second the module. A reading stops at the first fault, or where help
is asked for, so what stands behind that point has no effect.
-/

namespace LiveDoc.CommandLine

/-- What is to be done. -/
inductive Command
  /-- print the listing of a module -/
  | source (name : String)
  /-- load a module and sum up its contents -/
  | check (name : String)
  deriving DecidableEq

/-- A readable command line. -/
structure Options where
  command : Command
  paths : List String
  suffixes : List String
  deriving DecidableEq

/-- Why nothing is done. -/
inductive Stop
  | help
  | missingValue (option : String)
  | unknownOption (option : String)
  | extraModule
  | missingModule
  | unknownCommand (name : String)
  deriving DecidableEq

/-- What an argument is by its looks. -/
inductive Word
  | path
  | suffix
  | help
  | unknown
  | plain
  deriving DecidableEq

/-- What an argument is by its looks. -/
def Word.ofText (arg : String) : Word :=
  if arg = "--path" then .path
  else if arg = "--suffix" then .suffix
  else if arg = "--help" ∨ arg = "-h" then .help
  else if arg.toList.head? = some '-' then .unknown
  else .plain

/-- What has been read of the arguments. -/
structure Seen where
  command : Option String := none
  name : Option String := none
  paths : List String := []
  suffixes : List String := []
  deriving DecidableEq

namespace Seen

/-- Take an argument that is no option and no value of one. -/
def takePlain (s : Seen) (arg : String) : Except Stop Seen :=
  match s.command, s.name with
  | none, _ => .ok { s with command := some arg }
  | some _, none => .ok { s with name := some arg }
  | some _, some _ => .error .extraModule

/-- Read arguments in order. -/
def readAll (s : Seen) : List String → Except Stop Seen
  | [] => .ok s
  | arg :: rest =>
    match Word.ofText arg, rest with
    | .path, value :: rest => readAll { s with paths := s.paths ++ [value] } rest
    | .suffix, value :: rest => readAll { s with suffixes := s.suffixes ++ [value] } rest
    | .path, [] => .error (.missingValue arg)
    | .suffix, [] => .error (.missingValue arg)
    | .help, _ => .error .help
    | .unknown, _ => .error (.unknownOption arg)
    | .plain, rest =>
      match s.takePlain arg with
      | .error e => .error e
      | .ok s => readAll s rest

/-- The options that were read, once all arguments have been. -/
def finish (s : Seen) : Except Stop Options :=
  match s.command, s.name with
  | some "source", some name =>
    .ok { command := .source name, paths := s.paths, suffixes := s.suffixes }
  | some "check", some name =>
    .ok { command := .check name, paths := s.paths, suffixes := s.suffixes }
  | some other, some _ => .error (.unknownCommand other)
  | _, none => .error .missingModule
  | none, some _ => .error .missingModule

end Seen

/-- The options that arguments give. -/
def Options.parse (args : List String) : Except Stop Options := do
  let seen ← Seen.readAll {} args
  seen.finish

end LiveDoc.CommandLine
