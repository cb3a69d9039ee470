import Std.Time.DateTime.Timestamp
import StreamQuery.Command.Program

/-!
# The program

The command with the files, the environment and the clock of the system.
-/

namespace StreamQuery.Main

/-- What keeps a file from being used. -/
def fileFault : IO.Error → FileFault
  | .noFileOrDirectory .. => .missing
  | .permissionDenied .. => .noPermission
  | .inappropriateType _ 20 _ => .notDirectory
  | .inappropriateType _ 21 _ => .isDirectory
  | error => .other (toString error)

/-- The bytes of a stream up to its end. -/
partial def readAll (stream : IO.FS.Stream) (before : ByteArray) : IO ByteArray := do
  let bytes ← stream.read 65536
  if bytes.isEmpty then return before else readAll stream (before ++ bytes)

/-- Whether a place can be opened. A directory can be opened but not read. -/
def opensPlace : Place → IO (Except FileFault Unit)
  | .standard => return .ok ()
  | .file path => do
    try
      discard (IO.FS.Handle.mk path .read)
      return .ok ()
    catch error => match fileFault error with
      | .isDirectory => return .ok ()
      | fault => return .error fault

/-- What can be read from a place. -/
def readPlace : Place → IO Input
  | .standard => do
    try return ⟨(← readAll (← IO.getStdin) .empty).toList, none⟩
    catch error => return ⟨[], some (fileFault error)⟩
  | .file path => do
    try return ⟨(← IO.FS.readBinFile path).toList, none⟩
    catch error => return ⟨[], some (fileFault error)⟩

/-- Empties a place. -/
def createPlace : Place → IO (Except FileFault Unit)
  | .standard => return .ok ()
  | .file path => do
    try return .ok (← IO.FS.writeFile path "")
    catch error => return .error (fileFault error)

/-- Writes a text behind what a place holds. -/
def writePlace : Place → String → IO Unit
  | .standard, text => do
    let stream ← IO.getStdout
    stream.putStr text
    stream.flush
  | .file path, text => IO.FS.withFile path .append fun handle => handle.putStr text

/-- The present moment. -/
def now : IO Calendar.DateTime := do
  let elapsed := (← Std.Time.Timestamp.now).toNanosecondsSinceUnixEpoch.val
  let moment := Calendar.DateTime.ofTimestamp? (elapsed / 1000000000) (elapsed % 1000000000).toNat
  return moment.getD ⟨⟨1970, 1, 1⟩, 0, 0⟩

end StreamQuery.Main

open StreamQuery in
/-- Runs the command with the arguments of the system. -/
def main (arguments : List String) : IO UInt32 := do
  let known ← Command.environmentNames.filterMapM fun name => do
    return (← IO.getEnv name).map fun text => (name, text)
  let environment (name : String) := lookup? name known
  let ending ← Command.run
    { files := ⟨Main.opensPlace, Main.readPlace, Main.createPlace, Main.writePlace⟩
      environment := environment
      settingsDirectory := Command.settingsDirectory? environment
      clock := ← Main.now } arguments
  for line in ending.lines do
    IO.eprintln line
  return ending.code.toUInt32
