/-
All that loading can see and change.

A `System` holds the heap, every module that was ever made live, every
loader, and what loaders share: the disk, the environment, the
process-wide configuration, the record of found documents, and the text
that the clock shows. Modules and loaders are referred to by their place,
so a module stays the same module when its contents are replaced.
-/
import LiveDoc.Configuration
import LiveDoc.Live.Module
import LiveDoc.Loader.Search

namespace LiveDoc

/-- The place of a module. -/
structure ModuleRef where
  index : Nat
  deriving DecidableEq

/-- The place of a loader. -/
structure LoaderRef where
  index : Nat
  deriving DecidableEq

/-- A loader: where it searches, and its live modules by name in the
order of activation. -/
structure Loader where
  search : Search
  live : Table ModuleRef := ∅

/-- The loader that searches nowhere. -/
instance : Inhabited Loader := ⟨{ search := ⟨[], []⟩ }⟩

namespace Loader

/-- A loader that searches the working directory. -/
def ofConfiguration (configuration : Configuration) : Loader :=
  { search := ⟨["."], configuration.suffixes⟩ }

/-- A loader with other search roots. -/
def withRoots (l : Loader) (roots : List String) : Loader :=
  { l with search := { l.search with roots } }

end Loader

/-- All that loading can see and change. -/
structure System where
  disk : Disk := Disk.empty
  /-- extra search roots from the environment, if any are given -/
  environment : Option String := none
  time : String := ""
  configuration : Configuration := {}
  /-- the paths of documents that some loader has found, by name -/
  found : Table String := ∅
  heap : Heap := .empty
  modules : Array Module := #[]
  loaders : Array Loader := #[]

/-- Where a name stands with a loader. -/
inductive LoadState
  | unprobed
  | found (path : String)
  | loaded (path : String) (generation : Nat)
  deriving DecidableEq

namespace System

/-- The module at a place. -/
def module? (s : System) (m : ModuleRef) : Option Module := s.modules[m.index]?

/-- The loader at a place. -/
def loader (s : System) (l : LoaderRef) : Loader := s.loaders.getD l.index default

/-- Replace the module at a place. -/
def setModule (s : System) (r : ModuleRef) (m : Module) : System :=
  { s with modules := s.modules.setIfInBounds r.index m }

/-- Replace the loader at a place. -/
def setLoader (s : System) (r : LoaderRef) (l : Loader) : System :=
  { s with loaders := s.loaders.setIfInBounds r.index l }

/-- Give a module a place. -/
def addModule (s : System) (m : Module) : ModuleRef × System :=
  (⟨s.modules.size⟩, { s with modules := s.modules.push m })

/-- Give a loader a place. -/
def addLoader (s : System) (l : Loader) : LoaderRef × System :=
  (⟨s.loaders.size⟩, { s with loaders := s.loaders.push l })

-- ==================================================== the configuration

/-- Set an item of the process-wide configuration. -/
def configure (s : System) (key : String) (value : Json) : Except ConfigError Unit × System :=
  let (outcome, configuration) := s.configuration.assign key value
  (outcome, { s with configuration })

/-- The value of an item of the process-wide configuration. -/
def configured (s : System) (key : String) : Except ConfigError Json := s.configuration.get key

/-- Restore the defaults of the process-wide configuration. -/
def resetConfiguration (s : System) : System := { s with configuration := {} }

-- ==================================================== found documents

/-- The recorded path of a name. -/
def foundPath? (s : System) (name : String) : Option String := s.found.find? name

/-- Record a path for a name. -/
def recordFound (s : System) (name path : String) : System :=
  { s with found := s.found.insert name path }

/-- Drop the recorded path of a name. -/
def forgetFound (s : System) (name : String) : System :=
  { s with found := s.found.erase name }

-- ==================================================== live modules

/-- The live module of a name in a loader. -/
def liveModule? (s : System) (l : LoaderRef) (name : String) : Option ModuleRef :=
  (s.loader l).live.find? name

/-- Register a module under a name in a loader, in place of any other. -/
def register (s : System) (l : LoaderRef) (name : String) (m : ModuleRef) : System :=
  s.setLoader l { s.loader l with live := (s.loader l).live.insert name m }

/-- Unregister a name in a loader. The module itself stays. -/
def forget (s : System) (l : LoaderRef) (name : String) : System :=
  s.setLoader l { s.loader l with live := (s.loader l).live.erase name }

/-- The names of a loader's live modules, in the order of activation. -/
def liveNames (s : System) (l : LoaderRef) : List String := (s.loader l).live.keys

/-- Where a name stands with a loader. -/
def state (s : System) (l : LoaderRef) (name : String) : LoadState :=
  match (s.liveModule? l name).bind s.module? with
  | some m => .loaded m.state.file m.generation
  | none =>
    match s.foundPath? name with
    | some path => .found path
    | none => .unprobed

-- ==================================================== loaders

/-- A loader that searches the roots of the environment and the working
directory, as the process-wide configuration says. -/
def environmentLoader (s : System) : Loader :=
  (Loader.ofConfiguration s.configuration).withRoots (Search.environmentRoots s.environment)

/-- Add a search root at the end. -/
def addRoot (s : System) (l : LoaderRef) (root : String) : System :=
  let loader := s.loader l
  s.setLoader l { loader with
    search := { loader.search with roots := loader.search.roots ++ [root] } }

end System

end LiveDoc
