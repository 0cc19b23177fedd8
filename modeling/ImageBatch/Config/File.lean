import ImageBatch.Config.Basic
import ImageBatch.Yaml.Fields

/-!
# Files of settings

A configuration is read from a file in YAML that may leave anything out. A file that the user names
has to be usable; otherwise the first usable file in the known places counts, and where there is
none the usual settings do.
-/

namespace ImageBatch

open Yaml (Read)

def BatchSettings.ofYaml : Read BatchSettings := fun d n => do
  let k ← Read.known ["acceptance-threshold", "concurrency-limit", "task-attempts",
    "backoff-unit-ms", "enclave-override"] d n
  some {
    threshold := ← Read.withDefault d k "acceptance-threshold" standard.threshold Read.number
    limit := ← Read.withDefault d k "concurrency-limit" standard.limit (Read.count countBound)
    attempts := ← Read.withDefault d k "task-attempts" standard.attempts
      (Read.count attemptBound)
    backoffMillis := ← Read.withDefault d k "backoff-unit-ms" standard.backoffMillis
      (Read.count countBound)
    enclave := ← Read.withDefault d k "enclave-override" standard.enclave Read.bool }

def RetryDefaults.ofYaml : Read RetryDefaults := fun d n => do
  let k ← Read.known ["max-attempts", "interval-secs"] d n
  some {
    maxAttempts := ← Read.withDefault d k "max-attempts" standard.maxAttempts
      (Read.count attemptBound)
    intervalSeconds := ← Read.withDefault d k "interval-secs" standard.intervalSeconds
      (Read.count countBound) }

def Tiers.ofYaml : Read Tiers := fun d n => do
  let k ← Read.known ["excellent", "minor-warning-above", "hard-floor"] d n
  some {
    excellent := ← Read.withDefault d k "excellent" standard.excellent Read.number
    minorWarningAbove := ← Read.withDefault d k "minor-warning-above" standard.minorWarningAbove
      Read.number
    hardFloor := ← Read.withDefault d k "hard-floor" standard.hardFloor Read.number }

def ToolSettings.ofYaml : Read ToolSettings := fun d n => do
  let k ← Read.known ["command", "timeout-secs", "credentials-file", "tls-verify", "workspace",
    "extra-args"] d n
  some {
    command := ← Read.withDefault d k "command" standard.command Read.text
    timeoutSeconds := ← Read.withDefault d k "timeout-secs" standard.timeoutSeconds
      (Read.count countBound)
    credentials := ← Read.withDefault d k "credentials-file" none (Read.nullable Read.text)
    tlsVerify := ← Read.withDefault d k "tls-verify" standard.tlsVerify Read.bool
    workspace := ← Read.withDefault d k "workspace" none (Read.nullable Read.text)
    extra := ← Read.withDefault d k "extra-args" [] (Read.items Read.text) }

/-- A structure with a folder as its only field. -/
def folderOfYaml {α : Type} (usual : α) (read : Read α) : Read α := fun d n => do
  let k ← Read.known ["dir"] d n
  Read.withDefault d k "dir" usual read

namespace Config

def ofYaml (p : Places) : Read Config := fun d n => do
  let usual := standard p
  let k ← Read.known
    ["batch", "retry", "tiers", "error-log", "executor", "events", "log-level"] d n
  some {
    batch := ← Read.withDefault d k "batch" usual.batch BatchSettings.ofYaml
    retry := ← Read.withDefault d k "retry" usual.retry RetryDefaults.ofYaml
    tiers := ← Read.withDefault d k "tiers" usual.tiers Tiers.ofYaml
    errors := ← Read.withDefault d k "error-log" usual.errors (folderOfYaml usual.errors Read.text)
    tool := ← Read.withDefault d k "executor" usual.tool ToolSettings.ofYaml
    events := ← Read.withDefault d k "events" usual.events
      (folderOfYaml usual.events (Read.nullable Read.text))
    logLevel := ← Read.withDefault d k "log-level" usual.logLevel (Read.nullable Read.text) }

inductive FileFault where
  | unread (cause : FileError)
  | malformed
deriving DecidableEq, Repr

/-- A file that the user named gives no configuration. -/
structure LoadError where
  path : String
  fault : FileFault
deriving DecidableEq, Repr

/-- What went wrong, and then why. -/
def FileFault.messages : FileFault → List String
  | unread cause => ["Failed to read config file", cause.message]
  | malformed => ["Failed to parse config file", "not a configuration"]

def LoadError.messages (e : LoadError) : List String :=
  ("Failed to load config from " ++ e.path) :: e.fault.messages

/-- The files that are looked for if the user names none. -/
def candidates (p : Places) : List String :=
  ".mirrorbatch.yml" ::
    (p.config?.toList.map fun d => joinPath (joinPath d Places.ownName) "mirrorbatch.yml")

variable {m : Type → Type} {η : Type} [Monad m] [Host m η]

def loadFile (p : Places) (path : String) : m (Except FileFault Config) := do
  match ← Host.readText path with
  | .error e => return .error (.unread e)
  | .ok text =>
    match Read.ofText? (ofYaml p) text with
    | none => return .error .malformed
    | some c => return .ok c

/-- The configuration of the first of some files that is there and usable. -/
def firstUsable (p : Places) : List String → m (Option Config)
  | [] => return none
  | path :: rest => do
    if ← Host.isThere path then
      match ← loadFile p path with
      | .ok c => return some c
      | .error _ => firstUsable p rest
    else firstUsable p rest

/-- The first of some files that is there. -/
def firstThere : List String → m (Option String)
  | [] => return none
  | path :: rest => do
    if ← Host.isThere path then return some path else firstThere rest

def load (p : Places) (named : Option String) : m (Except LoadError Config) := do
  match named with
  | some path =>
    match ← loadFile p path with
    | .ok c => return .ok c
    | .error e => return .error ⟨path, e⟩
  | none => return .ok ((← firstUsable p (candidates p)).getD (standard p))

/-- The level of logging that a file asks for: the file that the user named, or else the first one
that is there. -/
def loadLogLevel (p : Places) (named : Option String) : m (Option String) := do
  let path ← match named with
    | some path => pure (some path)
    | none => firstThere (candidates p)
  match path with
  | none => return none
  | some path =>
    match ← loadFile p path with
    | .ok c => return c.logLevel
    | .error _ => return none

end Config

end ImageBatch
