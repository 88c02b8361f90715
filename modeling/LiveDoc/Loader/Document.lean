/-
From a file to a program.

Reading, parsing and declaring a document can each fail; the failure is
kept as the cause of the import that asked for the document.
-/
import LiveDoc.File
import LiveDoc.Json.Reader
import LiveDoc.Live.Module
import LiveDoc.Program.OfModule

namespace LiveDoc

/-- Why a document could not be activated. -/
inductive ActivationCause
  | unreadable (path : String) (fault : FileFault)
  | notJson (path : String)
  | document (e : DocumentError)
  | link (e : LinkError)
  deriving DecidableEq

/-- The text of a cause. Where in a text its syntax fails is not
recorded, so a placeholder stands for it. -/
def ActivationCause.message : ActivationCause → String
  | .unreadable path fault => s!"Cannot open {path}: " ++ fault.message
  | .notJson path => s!"Invalid json file {path}: <json>"
  | .document e => e.message
  | .link e => e.message

/-- Why an import failed. -/
inductive ImportError
  | notFound (name : String)
  | activation (name : String) (cause : ActivationCause)
  deriving DecidableEq

/-- The text of an import error. -/
def ImportError.message : ImportError → String
  | .notFound name => s!"Unable to import '{name}' : Cannot find module"
  | .activation name cause => s!"Error importing {name} : " ++ cause.message

/-- What every failure of the library looks like from outside. -/
inductive LibraryError
  | importing (e : ImportError)
  deriving DecidableEq

/-- The text of a library error. -/
def LibraryError.message : LibraryError → String
  | .importing e => "Import error: " ++ e.message

/-- The document in the file under a path, and the program of the module
that it declares. -/
def compileDocument (disk : Disk) (time name path : String) :
    Except ActivationCause (Json × Program) := do
  let text ← (disk.readText path).mapError (.unreadable path)
  let some document := Json.parse? text | throw (.notJson path)
  let m ← (ModuleDecl.ofDocument name path time document).mapError .document
  return (document, .ofModule m)

/-- The program of the document under a path, without activating it. -/
def generate (disk : Disk) (time name path : String) : Except LibraryError Program :=
  match compileDocument disk time name path with
  | .ok (_, program) => .ok program
  | .error cause => .error (.importing (.activation name cause))

end LiveDoc
