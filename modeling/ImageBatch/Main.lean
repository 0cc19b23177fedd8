import ImageBatch.Program
import ImageBatch.RunId
import Std.Time.DateTime.Timestamp

/-!
# The command

The program on the machine on which it runs: its files, its clock, its terminal.
-/

namespace ImageBatch

/-- The kind of an error of the machine. -/
def FileError.ofMachine (e : IO.Error) : FileError :=
  match e with
  | .noFileOrDirectory .. => .missing
  | .permissionDenied .. => .denied
  | .alreadyExists .. => .exists
  | .inappropriateType _ 20 _ => .notFolder
  | .inappropriateType _ 21 _ => .isFolder
  | .invalidArgument _ 36 _ => .nameTooLong
  | .resourceExhausted _ 36 _ => .nameTooLong
  | e => .other e.toString

namespace Terminal

/-- A request to the machine, which may refuse it. -/
def attempt {α : Type} (x : IO α) : IO (Except FileError α) := do
  match ← x.toBaseIO with
  | .ok a => return .ok a
  | .error e => return .error (.ofMachine e)

/-- The file under a path, or the folder. -/
def kind? (path : String) : IO (Option FileKind) := do
  try
    let full ← IO.FS.realPath path
    return some (if ← full.isDir then .folder else .file)
  catch _ => return none

def names (path : String) : IO (List String) := do
  let entries ← (← IO.FS.realPath path).readDir
  return entries.toList.map (·.fileName)

/-- Makes the first file of many under which there is nothing. -/
partial def createFrom (path : Nat → String) (n : Nat) :
    IO (Except (Nat × FileError) (Nat × IO.FS.Handle)) := do
  match ← attempt (IO.FS.Handle.mk (path n) .writeNew) with
  | .ok file => return .ok (n, file)
  | .error .exists => if n < lastNumber then createFrom path (n + 1) else return .error (n, .exists)
  | .error e => return .error (n, e)

def now : IO Instant := do
  let t ← Std.Time.Timestamp.now
  return ⟨t.val.second.val, t.val.nano.val.toNat⟩

partial def wait (millis : Nat) : IO Unit := do
  let part := min millis 1000000
  IO.sleep part.toUInt32
  if part < millis then wait (millis - part)

end Terminal

instance : Host IO IO.FS.Handle where
  kind? := Terminal.kind?
  read path := Terminal.attempt (IO.FS.readBinFile path)
  list path := Terminal.attempt (Terminal.names path)
  makeFolders path := Terminal.attempt (IO.FS.createDirAll path)
  createFirst path := Terminal.createFrom path 0
  openAtEnd path := Terminal.attempt (IO.FS.Handle.mk path .append)
  openAfresh path := Terminal.attempt (IO.FS.Handle.mk path .write)
  write file text := Terminal.attempt do
    file.putStr text
    file.flush
  now := Terminal.now
  newRunId := do
    let random ← IO.getRandomBytes 10
    return RunId.ofTime (← Terminal.now) (random.toList.map UInt8.toNat)
  rest span := Terminal.wait span.millis
  print line := IO.println line
  warn line := IO.eprintln line

end ImageBatch

open ImageBatch in
/-- Runs the program with the words of the command line. -/
def main (words : List String) : IO UInt32 := do
  let names := ["HOME", "XDG_CONFIG_HOME", "XDG_DATA_HOME", "CLICOLOR", "CLICOLOR_FORCE",
    "NO_COLOR"]
  let values ← names.filterMapM fun v => do
    return (← IO.getEnv v).map fun value => (v, value)
  let look (v : String) : Option String := values.lookup v
  let colour := Text.wantsColour look (← (← IO.getStdout).isTty)
  let status ← Program.perform colour (Places.ofEnvironment look) words
  return status.toUInt32
