import ImageBatch.ErrorLog.Entry
import ImageBatch.ErrorLog.Name
import ImageBatch.Host

/-!
# The folder of error logs

Each run that went wrong leaves one log, under a name that no other log has. The names sort as the
times of writing do.
-/

namespace ImageBatch.ErrorLog

/-- A file of the folder could not be used. -/
structure Error where
  path : String
  cause : FileError
deriving DecidableEq, Repr

def Error.message (e : Error) : String :=
  "Error log I/O failed for " ++ e.path ++ ": " ++ e.cause.message

variable {m : Type → Type} {η : Type} [Monad m] [Host m η]

/-- Writes a log and tells its path. -/
def write (folder runId : String) (s : Statistics) (records : List Record) :
    m (Except Error String) := do
  match ← Host.makeFolders folder with
  | .error e => return .error ⟨folder, e⟩
  | .ok () =>
    let written ← Host.now
    let path (n : Nat) := joinPath folder (numberedName written n)
    match ← Host.createFirst path with
    | .error (n, e) => return .error ⟨path n, e⟩
    | .ok (n, file) =>
      match ← Host.write file (content runId written s records) with
      | .error e => return .error ⟨path n, e⟩
      | .ok () => return .ok (path n)

/-- The names that are logs, oldest first. -/
def logNames (names : List String) : List String :=
  (names.filter isName).mergeSort (fun a b => decide (a ≤ b))

/-- The paths of all logs, oldest first. Where there is no folder there are no logs. -/
def list (folder : String) : m (Except Error (List String)) := do
  if ← Host.isThere folder then
    match ← Host.list folder with
    | .error e => return .error ⟨folder, e⟩
    | .ok names => return .ok ((logNames names).map (joinPath folder))
  else return .ok []

def latest (folder : String) : m (Except Error (Option String)) := do
  match ← list folder with
  | .error e => return .error e
  | .ok paths => return .ok paths.getLast?

def readOrigins (path : String) : m (Except Error (List String)) := do
  match ← Host.readText path with
  | .error e => return .error ⟨path, e⟩
  | .ok text => return .ok (origins text)

end ImageBatch.ErrorLog
