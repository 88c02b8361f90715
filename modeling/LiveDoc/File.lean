/-
Files as a program sees them.

A `Disk` answers what stands under a path: the bytes of a file, or the
reason why nothing can be read there. A file that stands there may still
be closed to the program; a search finds it, and loading it fails.
Loading depends on files through nothing else, so a run is a function of
the disk.
-/

namespace LiveDoc

/-- Why a file cannot be read. What else the operating system may find
wrong is given by its text. -/
inductive FileFault
  | notFound
  | permissionDenied
  | notDirectory
  | isDirectory
  | nameTooLong
  | nulInPath
  | notText
  | other (text : String)
  deriving DecidableEq

/-- The text of a file fault. -/
def FileFault.message : FileFault → String
  | .notFound => "No such file or directory (os error 2)"
  | .permissionDenied => "Permission denied (os error 13)"
  | .notDirectory => "Not a directory (os error 20)"
  | .isDirectory => "Is a directory (os error 21)"
  | .nameTooLong => "File name too long (os error 36)"
  | .nulInPath => "file name contained an unexpected NUL byte"
  | .notText => "stream did not contain valid UTF-8"
  | .other text => text

/-- What stands under a path: a file, a file that is closed to the
program, or no file. -/
inductive FileEntry
  | file (bytes : ByteArray)
  | unreadable (f : FileFault)
  | fault (f : FileFault)

/-- What stands under every path. -/
abbrev Disk := String → FileEntry

namespace Disk

/-- The disk without files. -/
def empty : Disk := fun _ => .fault .notFound

/-- A file stands under the path. -/
def isFile (d : Disk) (path : String) : Bool :=
  match d path with
  | .file _ => true
  | .unreadable _ => true
  | .fault _ => false

/-- The text of the file under a path; the whole file must be text. -/
def readText (d : Disk) (path : String) : Except FileFault String :=
  match d path with
  | .fault f => .error f
  | .unreadable f => .error f
  | .file bytes =>
    match String.fromUTF8? bytes with
    | some text => .ok text
    | none => .error .notText

end Disk

end LiveDoc
