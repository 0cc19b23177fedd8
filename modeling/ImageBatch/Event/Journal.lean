import ImageBatch.Event.Codec
import ImageBatch.Host
import ImageBatch.Text.Lines

/-!
# The journal

Every run has a file to which its events are added, one entry a line. The file of the current run
stays open until the run is completed or another run has an event.
-/

namespace ImageBatch

/-- A journal in a folder, with the run whose file is open. -/
structure Journal (η : Type) where
  folder : String
  current : Option (String × η)

namespace Journal

variable {m : Type → Type} {η : Type} [Monad m] [Host m η]

def start (folder : String) : Journal η := ⟨folder, none⟩

def runFolder (folder runId : String) : String := joinPath folder runId

def runFile (folder runId : String) : String := joinPath (runFolder folder runId) "events.jsonl"

def fileFor (j : Journal η) (runId : String) : m (Except FileError η) := do
  match j.current with
  | some (run, file) => if run = runId then return .ok file else openFile
  | none => openFile
where
  openFile : m (Except FileError η) := do
    match ← Host.makeFolders (runFolder j.folder runId) with
    | .error e => return .error e
    | .ok () => Host.openAtEnd (runFile j.folder runId)

/-- Adds an event to the file of its run. -/
def record (j : Journal η) (e : Event) : m (Except FileError Unit × Journal η) := do
  match ← fileFor j e.runId with
  | .error error => return (.error error, j)
  | .ok file =>
    let written ← Host.now
    let result ← Host.write file (LogEntry.line ⟨written, e⟩ ++ "\n")
    let closes := result.toBool && e.what.endsRun
    return (result, { j with current := if closes then none else some (e.runId, file) })

/-- The entries of a text; a line that is none is passed over. -/
def entries (text : String) : List LogEntry :=
  (Text.lines text.toList).filterMap fun l =>
    if l.all Text.isBlank then none else LogEntry.ofLine? (String.ofList l)

/-- The entries of a run. A run without a file has none. -/
def read (folder runId : String) : m (Except FileError (List LogEntry)) := do
  let path := runFile folder runId
  if ← Host.isThere path then
    match ← Host.readText path with
    | .error e => return .error e
    | .ok text => return .ok (entries text)
  else return .ok []

end Journal

end ImageBatch
