/-
Where documents are looked for.

A dotted name stands for a file: its last part followed by a suffix,
under one of the search roots. Candidates are probed root by root, and
under each root suffix by suffix; the first that is a file is the
document.
-/
import LiveDoc.File
import LiveDoc.Text.Split

namespace LiveDoc

/-- A name under a root. An absolute name stands for itself, and no slash
is put after an empty root or one that ends in a slash. -/
def joinPath (root name : String) : String :=
  if name.toList.head? = some '/' ∨ root = "" then name
  else if root.toList.getLast? = some '/' then root ++ name
  else root ++ "/" ++ name

/-- Search roots and suffixes, each in probing order. -/
structure Search where
  roots : List String
  suffixes : List String
  deriving DecidableEq

namespace Search

/-- The part of a dotted name that files are named for: the last. -/
def stem (name : String) : String := lastPart '.' name

/-- The paths that are probed for a name, in order. -/
def candidates (s : Search) (name : String) : List String :=
  s.roots.flatMap fun root => s.suffixes.map fun suffix => joinPath root (stem name ++ suffix)

/-- The path of the document of a name. The empty name has none. -/
def resolve? (s : Search) (disk : Disk) (name : String) : Option String :=
  if name = "" then none else (s.candidates name).find? disk.isFile

/-- The search roots that a list of paths in one text names. -/
def splitRoots (text : String) : List String := splitText ':' text

/-- The roots named by the environment, then the working directory. -/
def environmentRoots (variable_ : Option String) : List String :=
  ((variable_.map splitRoots).getD []) ++ ["."]

end Search

end LiveDoc
