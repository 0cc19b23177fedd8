import ImageBatch.Text.Utf8
import ImageBatch.Time.Instant
import ImageBatch.Time.Span

/-!
# The host

What the library asks of the machine on which it runs: files, a clock, names for runs, and a
terminal. Every request may be refused, and then says why.
-/

namespace ImageBatch

/-- Why a file could not be used. -/
inductive FileError where
  | missing
  | denied
  | exists
  | notFolder
  | isFolder
  | nameTooLong
  | badName
  | notText
  | other (words : String)
deriving DecidableEq, Repr

def FileError.message : FileError → String
  | missing => "No such file or directory (os error 2)"
  | denied => "Permission denied (os error 13)"
  | «exists» => "File exists (os error 17)"
  | notFolder => "Not a directory (os error 20)"
  | isFolder => "Is a directory (os error 21)"
  | nameTooLong => "File name too long (os error 36)"
  | badName => "file name contained an unexpected NUL byte"
  | notText => "stream did not contain valid UTF-8"
  | other words => words

/-- The two sorts of things in a folder. -/
inductive FileKind where
  | file
  | folder
deriving DecidableEq, Repr

/-- The last number of a path that is tried; numbers end there. -/
def lastNumber : Nat := Nat.pow 2 31 - 1

/-- The machine as seen from a computation. `η` stands for open files. -/
class Host (m : Type → Type) (η : outParam Type) where
  /-- What there is under a path. -/
  kind? : String → m (Option FileKind)
  read : String → m (Except FileError ByteArray)
  /-- The names in a folder, in any order. -/
  list : String → m (Except FileError (List String))
  /-- Makes a folder and the folders above it, as far as they are missing. -/
  makeFolders : String → m (Except FileError Unit)
  /-- Makes a file under the first of many paths under which there is nothing; tells its number. No
  path behind `lastNumber` is tried. -/
  createFirst : (Nat → String) → m (Except (Nat × FileError) (Nat × η))
  /-- Opens a file to write behind what it holds; makes it if there is none. -/
  openAtEnd : String → m (Except FileError η)
  /-- Opens a file without its content; makes it if there is none. -/
  openAfresh : String → m (Except FileError η)
  write : η → String → m (Except FileError Unit)
  now : m Instant
  /-- A name that no other run has. -/
  newRunId : m String
  /-- Lets time pass. -/
  rest : Span → m Unit
  print : String → m Unit
  /-- Writes a line about progress or errors. -/
  warn : String → m Unit

/-- A path that leads on from another one. An absolute path does not lead on. -/
def joinPath (path name : String) : String :=
  if name.startsWith "/" || path.isEmpty then name
  else if path.endsWith "/" then path ++ name
  else path ++ "/" ++ name

namespace Host

variable {m : Type → Type} {η : Type} [Monad m] [Host m η]

def isThere (path : String) : m Bool := do
  let kind ← kind? path
  return kind.isSome

/-- The content of a file of text. -/
def readText (path : String) : m (Except FileError String) := do
  match ← read path with
  | .error e => return .error e
  | .ok bytes =>
    match Text.decode? bytes with
    | some s => return .ok s
    | none => return .error .notText

/-- A computation with a state of its own runs on the same host. -/
instance {σ : Type} : Host (StateT σ m) η where
  kind? path := StateT.lift (kind? path)
  read path := StateT.lift (read path)
  list path := StateT.lift (list path)
  makeFolders path := StateT.lift (makeFolders path)
  createFirst path := StateT.lift (createFirst path)
  openAtEnd path := StateT.lift (openAtEnd path)
  openAfresh path := StateT.lift (openAfresh path)
  write file text := StateT.lift (write file text)
  now := StateT.lift now
  newRunId := StateT.lift newRunId
  rest span := StateT.lift (rest span)
  print line := StateT.lift (print line)
  warn line := StateT.lift (warn line)

end Host

end ImageBatch
