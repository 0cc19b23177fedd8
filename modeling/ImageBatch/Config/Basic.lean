import ImageBatch.Encoding
import ImageBatch.Config.Places
import ImageBatch.Session

/-!
# Configurations

What a user can settle ahead of a run. Every setting has a usual value, and a configuration is used
only if its settings make sense together.
-/

namespace ImageBatch

structure BatchSettings where
  threshold : Binary64
  limit : Nat
  attempts : Nat
  backoffMillis : Nat
  enclave : Bool
deriving DecidableEq

structure RetryDefaults where
  maxAttempts : Nat
  intervalSeconds : Nat
deriving DecidableEq

structure ToolSettings where
  command : String
  timeoutSeconds : Nat
  credentials : Option String
  tlsVerify : Bool
  workspace : Option String
  extra : List String
deriving DecidableEq

structure Config where
  batch : BatchSettings
  retry : RetryDefaults
  tiers : Tiers
  /-- The folder of error logs. -/
  errors : String
  tool : ToolSettings
  /-- The folder of journals; without one there are none. -/
  events : Option String
  logLevel : Option String
deriving DecidableEq

def BatchSettings.standard : BatchSettings := ⟨Policy.standard.threshold, 8, 3, 1000, false⟩

def RetryDefaults.standard : RetryDefaults := ⟨2, 30⟩

def ToolSettings.standard : ToolSettings := ⟨"skopeo", 600, none, true, none, []⟩

namespace Config

def standard (p : Places) : Config :=
  ⟨.standard, .standard, .standard, p.errorFolder, .standard, none, none⟩

inductive Fault where
  | threshold (t : Binary64)
  | limit
  | attempts
  | tiers (t : Tiers)
deriving DecidableEq

def Fault.message : Fault → String
  | threshold t => "acceptance-threshold must be between 0 and 1, got " ++ t.text
  | limit => "concurrency-limit must be at least 1"
  | attempts => "task-attempts must be at least 1"
  | tiers t =>
    "tiers must satisfy 0 <= hard-floor <= minor-warning-above <= excellent <= 1 (got "
      ++ t.hardFloor.text ++ ", " ++ t.minorWarningAbove.text ++ ", " ++ t.excellent.text ++ ")"

/-- A rate lies between zero and one. -/
def isRate (x : Binary64) : Bool := Binary64.le 0 x && Binary64.le x 1

/-- The boundaries stand in their order, between zero and one. -/
def areOrdered (t : Tiers) : Bool :=
  Binary64.le 0 t.hardFloor && Binary64.le t.hardFloor t.minorWarningAbove &&
    Binary64.le t.minorWarningAbove t.excellent && Binary64.le t.excellent 1

def fault? (c : Config) : Option Fault :=
  if !isRate c.batch.threshold then some (.threshold c.batch.threshold)
  else if c.batch.limit = 0 then some .limit
  else if c.batch.attempts = 0 then some .attempts
  else if !areOrdered c.tiers then some (.tiers c.tiers)
  else none

def toolOptions (c : Config) : ToolOptions :=
  ⟨c.tool.credentials, c.tool.tlsVerify, c.tool.workspace, .ofSeconds c.tool.timeoutSeconds,
    c.tool.extra⟩

def engineSettings (c : Config) (mode : Mode) : Engine.Settings :=
  ⟨c.batch.limit, c.batch.attempts, .ofMillis c.batch.backoffMillis, mode, c.toolOptions⟩

def policy (c : Config) : Policy := ⟨c.batch.threshold, c.tiers⟩

def retrySettings (c : Config) : RetrySettings :=
  ⟨c.retry.maxAttempts, .ofSeconds c.retry.intervalSeconds⟩

/-- What runs in a mode go by. -/
def plan (c : Config) (mode : Mode) : Plan :=
  ⟨c.engineSettings mode, c.batch.enclave, c.policy, c.errors⟩

end Config

def BatchSettings.json (b : BatchSettings) : Json := .record [
  ("acceptance-threshold", .ofBinary64 b.threshold), ("concurrency-limit", .ofNat b.limit),
  ("task-attempts", .ofNat b.attempts), ("backoff-unit-ms", .ofNat b.backoffMillis),
  ("enclave-override", .bool b.enclave)]

def RetryDefaults.json (r : RetryDefaults) : Json := .record [
  ("max-attempts", .ofNat r.maxAttempts), ("interval-secs", .ofNat r.intervalSeconds)]

def Tiers.json (t : Tiers) : Json := .record [
  ("excellent", .ofBinary64 t.excellent), ("minor-warning-above", .ofBinary64 t.minorWarningAbove),
  ("hard-floor", .ofBinary64 t.hardFloor)]

def ToolSettings.json (t : ToolSettings) : Json := .record [
  ("command", .text t.command), ("timeout-secs", .ofNat t.timeoutSeconds),
  ("credentials-file", .ofOption t.credentials), ("tls-verify", .bool t.tlsVerify),
  ("workspace", .ofOption t.workspace), ("extra-args", .ofNames t.extra)]

/-- The settings under the names that they have in files. -/
def Config.json (c : Config) : Json := .record [
  ("batch", c.batch.json), ("retry", c.retry.json), ("tiers", c.tiers.json),
  ("error-log", .record [("dir", .text c.errors)]), ("executor", c.tool.json),
  ("events", .record [("dir", .ofOption c.events)]), ("log-level", .ofOption c.logLevel)]

end ImageBatch
