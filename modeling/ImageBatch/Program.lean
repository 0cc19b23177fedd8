import ImageBatch.CommandLine
import ImageBatch.Config.File
import ImageBatch.Event.Journal
import ImageBatch.Event.Reporter
import ImageBatch.TaskSet.File
import ImageBatch.Tool.Launch

/-!
# The program

What the commands of the command line do on a host. A command ends well or with a complaint: what
went wrong, and then why, from the outside in.
-/

namespace ImageBatch.Program

open CommandLine (Command Invocation RunRequest UsageError)

abbrev Complaint := List String

/-- The lines of a text, all but the first with a margin of their own. Empty lines have none. -/
def hang (first other text : String) : String :=
  let margin (i : Nat) (line : String) : String :=
    if line.isEmpty then "" else (if i = 0 then first else other) ++ line
  "\n".intercalate ((text.splitOn "\n").zipIdx.map fun l => margin l.2 l.1)

/-- A number that ends in the column before the causes. -/
def numberMargin (n : Nat) : String :=
  let s := toString n
  "".pushn ' ' (4 - s.length) ++ s ++ ": "

/-- The causes of a failure; they are numbered if there are several. -/
def causeLines : List String → List String
  | [] => []
  | [cause] => ["", "Caused by:", hang "    " "    " cause]
  | causes =>
    ["", "Caused by:"] ++
      causes.zipIdx.map fun c => hang (numberMargin c.2) "      " c.1

/-- How a complaint is written for the user. -/
def complaintLines : Complaint → List String
  | [] => []
  | outer :: causes => ("Error: " ++ outer) :: causeLines causes

/-- The levels of logging, in upper case. -/
def logLevels : List String := ["TRACE", "DEBUG", "INFO", "WARN", "WARNING", "ERROR"]

def isLogLevel (s : String) : Bool := String.ofList (Text.raised s) ∈ logLevels

def logFile (p : Places) : String := joinPath p.logFolder "mirrorbatch.log"

/-- What the command line says goes before the configuration. -/
def override (c : Config) (r : RunRequest) : Config :=
  { c with
    batch := { c.batch with
      limit := r.concurrency.getD c.batch.limit
      threshold := r.threshold.getD c.batch.threshold
      enclave := r.enclave || c.batch.enclave }
    retry := {
      maxAttempts := if r.noRetry then 1 else r.maxAttempts.getD c.retry.maxAttempts
      intervalSeconds := r.retryInterval.getD c.retry.intervalSeconds } }

/-- The text with blanks behind it up to a width. -/
def padRight (width : Nat) (s : String) : String := s ++ "".pushn ' ' (width - s.length)

/-- The text with blanks before it up to a width. -/
def padLeft (width : Nat) (s : String) : String := "".pushn ' ' (width - s.length) ++ s

/-- What is said of a set that can be used. -/
def setLines (colour : Bool) (path : String) (s : TaskSet) : List String :=
  let observed := s.observed
  let dependents (words : String) (d : Dependents) : List String :=
    if d.toList.isEmpty then []
    else ["  " ++ words ++ " dependencies: " ++ toString d.toList.length]
  [Text.paint colour .green "✓" ++ " " ++ toString s.tasks.length ++ " tasks in " ++ path] ++
    (s.expected.toList.map fun e =>
      "  " ++ padRight 24 e.1.label ++ " " ++ padLeft 5 (toString ((observed.get? e.1).getD 0)) ++
        " (expected " ++ toString e.2 ++ ")") ++
    dependents "bundle" s.bundleDependents ++ dependents "operator" s.operatorDependents

/-- Those who are told what happens in runs. -/
structure Listeners (η : Type) where
  reporter : Option Reporter
  journal : Option (Journal η)

section

variable {m : Type → Type} {η : Type} [Monad m] [Host m η]

def printLines (lines : List String) : m Unit := lines.forM (Host.print (m := m) (η := η))

def tellReporter (colour : Bool) (h : Happening) (r : Reporter) : m Reporter := do
  let (r, line) := r.tell colour h
  (line.toList).forM (Host.warn (m := m) (η := η))
  return r

/-- Tells everyone what happened in a run. An entry that cannot be written is lost. -/
def tell (colour : Bool) (runId : String) (h : Happening) : StateT (Listeners η) m Unit :=
  fun x => do
    let reporter ← match x.reporter with
      | some r => some <$> tellReporter (η := η) colour h r
      | none => pure none
    let journal ← match x.journal with
      | some j => do
        let (_, j) ← j.record ⟨runId, h⟩
        pure (some j)
      | none => pure none
    return ((), ⟨reporter, journal⟩)

/-- The surroundings of the engine: the tool of the configuration, called on the host. -/
def world (colour : Bool) (command : String) (runId : String) :
    Engine.World (StateT (Listeners η) m) where
  call r := do
    let l ← StateT.lift (Tool.launch command r)
    return ⟨Tool.answer command r.options.timeout l, ⟨0⟩, false⟩
  wait d := StateT.lift (Host.rest d)
  tell h := tell colour runId h

/-- Opens the log of the program. A level that there is not is pointed out. -/
def openLog (p : Places) (level : Option String) : m (Except Complaint Unit) := do
  match ← Host.makeFolders p.logFolder with
  | .error e =>
    return .error ["Failed to setup logging", "Failed to create log directory", e.message]
  | .ok () =>
    let unknown := level.toList.filter (fun s => !isLogLevel s)
    unknown.forM fun s =>
      Host.warn ("Warning: Unknown log-level '" ++ s ++ "', defaulting to INFO")
    match ← Host.openAfresh (logFile p) with
    | .error e => return .error ["Failed to setup logging", "Failed to create log file", e.message]
    | .ok _ => return .ok ()

/-- The task set of a file that the user names. -/
def taskSet (path : String) : m (Except Complaint TaskSet) := do
  match ← TaskSet.load path with
  | .ok s => return .ok s
  | .error e => return .error ("Failed to load task file" :: e.messages)

def conclude (colour : Bool) (format : Format) (reports : List Report) :
    m (Except Complaint Unit) := do
  match reports.getLast? with
  | none => return .error ["No run was performed"]
  | some last =>
    let count := reports.length
    match format with
    | .text => do
      if 1 < count then
        Host.print (Text.paint colour .dimmed ("after " ++ toString count ++ " attempts:"))
      Host.print (last.summary colour)
    | .json => Host.print (Json.list (reports.map Report.json)).pretty
    if last.outcome.isHardFailure then
      return .error ["Mirroring failed after " ++ toString count ++ " attempt(s)"]
    else return .ok ()

def run (colour : Bool) (c : Config) (r : RunRequest) : m (Except Complaint Unit) := do
  let c := override c r
  match c.fault? with
  | some f => return .error ["Invalid configuration", f.message]
  | none =>
    match ← taskSet r.tasks with
    | .error e => return .error e
    | .ok set =>
      let listeners : Listeners η := {
        reporter := if r.format = .text then some .start else none
        journal := c.events.map Journal.start }
      let around := Session.onHost (c.plan r.mode) (world colour c.tool.command)
      let session : StateT (Weather × List Session.Trace) (StateT (Listeners η) m) _ :=
        Session.runs around c.retrySettings set
      let ((result, _), _) ← (session.run (⟨⟨0⟩, [], false⟩, [])).run listeners
      match result with
      | .error e => return .error (Run.messagesWithCause e)
      | .ok reports => conclude colour r.format reports

/-- Shows the error logs of a folder, or the origins in the newest one. -/
def errors (colour : Bool) (folder : String) (latest : Bool) : m (Except Complaint Unit) := do
  let blame (e : ErrorLog.Error) : Except Complaint Unit := .error [e.message, e.cause.message]
  let nothing := "No error logs in " ++ folder
  if latest then
    match ← ErrorLog.latest folder with
    | .error e => return blame e
    | .ok none =>
      Host.print nothing
      return .ok ()
    | .ok (some path) =>
      Host.print (Text.paint colour .cyan path)
      match ← ErrorLog.readOrigins path with
      | .error e => return blame e
      | .ok origins =>
        printLines origins
        return .ok ()
  else
    match ← ErrorLog.list folder with
    | .error e => return blame e
    | .ok paths =>
      printLines (if paths.isEmpty then [nothing] else paths)
      return .ok ()

/-- Looks whether a file of tasks can be used. -/
def validate (colour : Bool) (path : String) : m (Except Complaint Unit) := do
  match ← taskSet path with
  | .error e => return .error e
  | .ok s =>
    printLines (setLines colour path s)
    return .ok ()

def command (colour : Bool) (c : Config) : Command → m (Except Complaint Unit)
  | .run r => run colour c r
  | .errors folder latest => errors colour (folder.getD c.errors) latest
  | .validate path => validate colour path

/-- What the user asks for. The log is opened before the configuration is read in full. -/
def invoke (colour : Bool) (p : Places) (i : Invocation) : m (Except Complaint Unit) := do
  let level ← Config.loadLogLevel p i.config
  match ← openLog p (i.logLevel <|> level) with
  | .error e => return .error e
  | .ok () =>
    match ← Config.load p i.config with
    | .error e => return .error ("Failed to load configuration" :: e.messages)
    | .ok c => command colour c i.command

end

def usage : String :=
  "Usage: mb [-c FILE] [-l LEVEL] COMMAND\n\n" ++
  "  run TASKS -m MODE    runs the tasks of a file\n" ++
  "  errors               lists the error logs\n" ++
  "  validate TASKS       checks a file of tasks"

def versionText : String := "mb 0.1.0"

/-- The words for a command line that is none. -/
def usageComplaint : UsageError → String
  | .unknownArgument => "unexpected argument"
  | .invalidSubcommand => "unrecognized subcommand"
  | .missingSubcommand => "a subcommand is required"
  | .missingArgument => "a required argument is missing"
  | .conflict => "two arguments cannot be used together"
  | .tooManyValues => "unexpected value"
  | .invalidValue => "a value is missing or not possible"
  | .unreadableValue => "a value cannot be read"
  | .help | .version | .helpForNothing => usage

variable {m : Type → Type} {η : Type} [Monad m] [Host m η]

/-- The program with the words of its command line; gives back its status. -/
def perform (colour : Bool) (p : Places) (words : List String) : m Nat := do
  match CommandLine.parse words with
  | .error .help =>
    Host.print usage
    return 0
  | .error .version =>
    Host.print versionText
    return 0
  | .error .helpForNothing =>
    Host.warn usage
    return 2
  | .error e =>
    Host.warn ("error: " ++ usageComplaint e)
    return 2
  | .ok i =>
    match ← invoke colour p i with
    | .ok () => return 0
    | .error complaint =>
      (complaintLines complaint).forM (Host.warn (m := m) (η := η))
      return 1

end ImageBatch.Program
