/-
A file system in memory.

Files and directories stand under their components, counted from the
root; relative paths start at one working directory below it. A path is
walked component by component: all but the last must be directories, a
dot stays, two dots go up.
-/
import Std.Data.HashMap
import LiveDoc.File
import LiveDoc.Text.Split

namespace LiveDoc

/-- What stands in a file tree. -/
inductive FileTree.Node
  | directory
  | file (bytes : ByteArray)

/-- Files and directories by their components from the root. -/
structure FileTree where
  nodes : Std.HashMap (List String) FileTree.Node

namespace FileTree

/-- The working directory. -/
def workingDirectory : List String := ["work"]

/-- The tree that holds the working directory alone. -/
def empty : FileTree := ⟨.ofList [(workingDirectory, .directory)]⟩

/-- What stands under components; the root is a directory. -/
def node? (t : FileTree) (at_ : List String) : Option Node :=
  if at_ = [] then some .directory else t.nodes[at_]?

-- ==================================================== reading

/-- The longest name that a component may have. -/
def nameLimit : Nat := 255

/-- Walk components from a directory. -/
def walk (t : FileTree) : List String → List String → FileEntry
  | _, [] => .fault .isDirectory
  | dir, c :: cs =>
    if c = "" ∨ c = "." then walk t dir cs
    else if c = ".." then walk t dir.dropLast cs
    else if nameLimit < c.utf8ByteSize then .fault .nameTooLong
    else
      match t.node? (dir ++ [c]) with
      | none => .fault .notFound
      | some .directory => walk t (dir ++ [c]) cs
      | some (.file bytes) => if cs.isEmpty then .file bytes else .fault .notDirectory

/-- The directory where a path starts. -/
def start (path : String) : List String :=
  if path.toList.head? = some '/' then [] else workingDirectory

/-- The longest path that can be followed, and one more. -/
def pathLimit : Nat := 4096

/-- What is wrong with a path by its text alone. -/
def pathFault? (path : String) : Option FileFault :=
  if path.toList.contains '\x00' then some .nulInPath
  else if path = "" then some .notFound
  else if pathLimit ≤ path.utf8ByteSize then some .nameTooLong
  else none

/-- What a program sees of the tree. -/
def disk (t : FileTree) : Disk := fun path =>
  match pathFault? path with
  | some f => .fault f
  | none => t.walk (start path) (splitText '/' path)

/-- A directory stands under the path. -/
def isDirectory (t : FileTree) (path : String) : Bool :=
  match t.disk path with
  | .fault .isDirectory => true
  | _ => false

/-- The last component of a path, slashes behind it apart, is a dot. -/
def closesWithDot (path : String) : Bool :=
  ((splitText '/' path).filter (· ≠ "")).getLast? = some "."

-- ==================================================== changing

/-- The component leads somewhere; one that is empty or a dot stays. -/
def leads (c : String) : Bool := c ≠ "" && c ≠ "."

/-- The components of a path that lead somewhere. -/
def names (path : String) : List String := (splitText '/' path).filter leads

/-- The path up to the last component but one that leads somewhere, as it
is written; empty if there is none. -/
def parentPath (path : String) : String :=
  let idle := fun c => !leads c
  "/".intercalate
    (((((splitText '/' path).reverse.dropWhile idle).drop 1).dropWhile idle).reverse)

/-- The tree with a node, in place of any other of its components. -/
def put (t : FileTree) (at_ : List String) (n : Node) : FileTree :=
  ⟨t.nodes.insert at_ n⟩

/-- Walk components from a directory and make those that are missing:
where the walk ends, unless a file or a name that is too long stands in
the way. What was made before that stays. -/
def makeWay (t : FileTree) (dir : List String) :
    List String → Option (List String) × FileTree
  | [] => (some dir, t)
  | c :: cs =>
    if c = ".." then makeWay t dir.dropLast cs
    else if nameLimit < c.utf8ByteSize then (none, t)
    else
      match t.node? (dir ++ [c]) with
      | none => makeWay (t.put (dir ++ [c]) .directory) (dir ++ [c]) cs
      | some .directory => makeWay t (dir ++ [c]) cs
      | some (.file _) => (none, t)

/-- Make a directory and those above it: whether it stands there
afterwards. A directory named by a dot behind it is not made, only the
ones above it are. -/
def makeDirectory (t : FileTree) (path : String) : Bool × FileTree :=
  if (pathFault? path).isSome then (path = "", t)
  else
    let (_, t) := t.makeWay (start path)
      (if closesWithDot path then (names path).dropLast else names path)
    (t.isDirectory path, t)

/-- The name of the file that a path can be written under; a path that
ends in a slash or in dots has none. -/
def fileName? (path : String) : Option String :=
  let name := lastPart '/' path
  if (pathFault? path).isSome ∨ name ∈ ["", ".", ".."] ∨ nameLimit < name.utf8ByteSize then none
  else some name

/-- Write a file, making the directories above it: whether it was
written. -/
def write (t : FileTree) (path : String) (bytes : ByteArray) : Bool × FileTree :=
  let parent := parentPath path
  if parent ≠ "" ∧ (pathFault? parent).isSome then (false, t)
  else
    match t.makeWay (start path) (names parent), fileName? path with
    | (some dir, t), some name =>
      match t.node? (dir ++ [name]) with
      | some .directory => (false, t)
      | _ => (true, t.put (dir ++ [name]) (.file bytes))
    | (_, t), _ => (false, t)

/-- The components that a path leads to, by its text alone. -/
def place (path : String) : List String :=
  (names path).foldl (fun dir c => if c = ".." then dir.dropLast else dir ++ [c]) (start path)

/-- Remove a file, if there is one. -/
def remove (t : FileTree) (path : String) : Bool × FileTree :=
  match t.disk path with
  | .file _ => (true, ⟨t.nodes.erase (place path)⟩)
  | _ => (false, t)

end FileTree

end LiveDoc
