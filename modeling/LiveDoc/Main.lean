/-
The command-line program.

Reads the arguments, the environment, the clock and the files that the
run may look at, hands them to `CommandLine.run`, and writes what comes
back.
-/
import LiveDoc.CommandLine.Run
import Std.Time.Format

namespace LiveDoc.CommandLine

/-- The fault that an error reports. The number of an error is negated
when the path was not even followed to its end. -/
def faultOf : IO.Error → FileFault
  | .noFileOrDirectory .. => .notFound
  | .permissionDenied _ code text =>
    if code = 13 ∨ code = -13 then .permissionDenied else .other (osText code text)
  | .inappropriateType _ code _ => if code = 21 then .isDirectory else .notDirectory
  | .invalidArgument _ code text =>
    if code = -36 then .nameTooLong else .other (osText code text)
  | .hardwareFault code text => .other (osText code text)
  | .resourceExhausted _ code text => .other (osText code text)
  | e => .other (toString e)
where
  osText (code : UInt32) (text : String) : String :=
    text ++ " (os error " ++ toString code ++ ")"

/-- A path that cannot be read leads to a file: with a slash behind it, it
is refused for not leading to a directory. -/
def leadsToFile (path : String) : IO Bool := do
  try
    let _ ← IO.FS.readBinFile (path ++ "/")
    return false
  catch e =>
    return faultOf e = .notDirectory

/-- What stands under a path of the real file system. -/
def readEntry (path : String) : IO FileEntry := do
  try
    return .file (← IO.FS.readBinFile path)
  catch e =>
    let f := faultOf e
    if f ≠ .notDirectory && (← leadsToFile path) then return .unreadable f
    else return .fault f

/-- The current local time, as documentation texts show it. -/
def currentTime : IO String := do
  try
    let now ← Std.Time.DateTime.now
    return now.format "EEE dd MMM uuuu HH:mm:ss '(UTC 'xxx')'"
  catch _ =>
    return ""

/-- The files under the given paths, as a disk. -/
def snapshot (paths : List String) : IO Disk := do
  let entries ← paths.mapM fun path => do
    return (path, ← readEntry path)
  return fun path => ((entries.find? fun e => e.1 = path).map Prod.snd).getD (.fault .notFound)

end LiveDoc.CommandLine

/-- Run the command. -/
def main (args : List String) : IO UInt32 := do
  let environment ← IO.getEnv "IMPORTJSON_PATH"
  let disk ← LiveDoc.CommandLine.snapshot (LiveDoc.CommandLine.probes environment args)
  let time ← LiveDoc.CommandLine.currentTime
  let outcome := LiveDoc.CommandLine.run disk environment time args
  IO.print outcome.stdout
  IO.eprint outcome.stderr
  return outcome.exit.toUInt32
