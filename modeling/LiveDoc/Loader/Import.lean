/-
Importing, activating and reloading.

Every operation returns its outcome beside the system it leaves, for a
failure may change something too: finding a document is recorded before
the document is read, and the record of a name that fails to come to life
is dropped unless the name is live in the same loader.

`activateAt` is the one place where a module comes to life or is
replaced. Replacing keeps the module's place, so that everyone who holds
it sees the new contents.
-/
import LiveDoc.Loader.Document
import LiveDoc.Loader.System
import LiveDoc.Program.Listing

namespace LiveDoc.System

-- ==================================================== finding

/-- Look for the document of a name and record where it was found. -/
def find (s : System) (l : LoaderRef) (name : String) : Option String × System :=
  match (s.loader l).search.resolve? s.disk name with
  | some path => (some path, s.recordFound name path)
  | none => (none, s)

-- ==================================================== activating

/-- Put a module in its place: the contents of `existing` are replaced, or
a new module is made. -/
def install (s : System) (name : String) (existing : Option ModuleRef) (state : ModuleState) :
    ModuleRef × System :=
  match existing with
  | some r =>
    match s.module? r with
    | some m => (r, s.setModule r (m.replace state))
    | none => (r, s)
  | none => s.addModule (.ofState name state)

/-- Link the document under a path into new module contents. -/
def linkDocument (s : System) (name path : String) :
    Except ActivationCause (ModuleState × Heap) := do
  let (document, program) ← compileDocument s.disk s.time name path
  (program.link document s.heap).mapError .link

/-- Bring the document under a path to life as a module of that name, or
replace the contents of `existing` with it. -/
def activateAt (s : System) (l : LoaderRef) (name path : String) (existing : Option ModuleRef) :
    Except ImportError ModuleRef × System :=
  match s.linkDocument name path with
  | .error cause =>
    (.error (.activation name cause), if existing.isNone then s.forgetFound name else s)
  | .ok (state, heap) =>
    let (r, s) := { s with heap }.install name existing state
    (.ok r, (s.recordFound name path).register l name r)

/-- Find a document and bring it to life. A live module of the name is
replaced in its place. -/
def activate (s : System) (l : LoaderRef) (name : String) :
    Except ImportError ModuleRef × System :=
  match s.find l name with
  | (none, s) => (.error (.notFound name), s)
  | (some path, s) => s.activateAt l name path (s.liveModule? l name)

/-- The live module of a name, activated if there is none yet. -/
def importModule (s : System) (l : LoaderRef) (name : String) :
    Except ImportError ModuleRef × System :=
  match s.liveModule? l name with
  | some r => (.ok r, s)
  | none => s.activate l name

/-- Replace the contents of a module from the file that it was loaded
from, and register it under its name. -/
def reload (s : System) (l : LoaderRef) (r : ModuleRef) :
    Except ImportError ModuleRef × System :=
  match s.module? r with
  | none => (.ok r, s)
  | some m => s.activateAt l m.name m.state.file (some r)

-- ==================================================== asking

/-- Modules are never packages, but only a name that is live or was found
can be asked about. -/
def isPackage (s : System) (l : LoaderRef) (name : String) : Except ImportError Bool :=
  if (s.liveModule? l name).isSome || (s.foundPath? name).isSome then .ok false
  else .error (.notFound name)

/-- The program of the document of a name, without activating it. -/
def compiled (s : System) (l : LoaderRef) (name : String) :
    Except ImportError Program × System :=
  match s.find l name with
  | (none, s) => (.error (.notFound name), s)
  | (some path, s) =>
    match compileDocument s.disk s.time name path with
    | .ok (_, program) => (.ok program, s)
    | .error cause =>
      (.error (.activation name cause),
        if (s.liveModule? l name).isNone then s.forgetFound name else s)

/-- The listing of the document of a name. -/
def source (s : System) (l : LoaderRef) (name : String) : Except ImportError String × System :=
  match s.compiled l name with
  | (.ok program, s) => (.ok program.listing, s)
  | (.error e, s) => (.error e, s)

-- ==================================================== without a loader

/-- Import a name with a loader of its own that searches the roots of the
environment and the working directory. -/
def load (s : System) (name : String) : Except LibraryError ModuleRef × System :=
  let (l, s) := s.addLoader s.environmentLoader
  match s.importModule l name with
  | (.ok r, s) => (.ok r, s)
  | (.error e, s) => (.error (.importing e), s)

end LiveDoc.System
