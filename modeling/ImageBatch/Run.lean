import ImageBatch.Engine.Timeline
import ImageBatch.ErrorLog.Folder
import ImageBatch.Report

/-!
# Runs

A run takes every task of a set once through the engine, judges the result, and leaves an error log
if something went wrong.
-/

namespace ImageBatch

structure Plan where
  settings : Engine.Settings
  enclave : Bool
  policy : Policy
  /-- The folder of error logs. -/
  errors : String

def Plan.skipPolicy (p : Plan) : SkipPolicy := ⟨p.settings.mode, p.enclave⟩

/-- What goes on outside between the runs of a session: the clock, the alarms that are set, and
whether the session is cancelled. -/
structure Weather where
  now : Span
  alarms : List Engine.Alarm
  cancelled : Bool

namespace Run

/-- The report of a run that came to its end. -/
def report (p : Plan) (runId : String) (attempt : Nat) (s : Statistics) (tally : Tally)
    (log : Option String) : Report :=
  ⟨runId, attempt, p.policy.threshold, p.policy.tiers.hardFloor, s, tally.succeeded, tally.errors,
    Outcome.ofVerdict (p.policy.judge s) s log⟩

variable {m : Type → Type} {η : Type} [Monad m] [Host m η]

/-- The error log of a run that needs one, if it can be written. -/
def writeLog (p : Plan) (runId : String) (s : Statistics) (tally : Tally) : m (Option String) := do
  if (p.policy.judge s).needsLog then
    match ← ErrorLog.write p.errors runId s tally.errors with
    | .ok path => return some path
    | .error _ => return none
  else return none

/-- What a run came to: its report, or why there is none. -/
abbrev Ending := Except Aggregator.Error Report

/-- What a run without a report says of itself. -/
def messages (_ : Aggregator.Error) : List String := ["Failed to aggregate run results"]

/-- What it says when it is asked for the cause as well. -/
def messagesWithCause (e : Aggregator.Error) : List String := messages e ++ [e.message]

/-- Concludes a run after the engine has stopped. -/
def conclude (p : Plan) (runId : String) (attempt : Nat) (elapsed : Span) (a : Aggregator) :
    m Ending := do
  if a.phase = .finished then
    let s := { a.tally.statistics with elapsed := elapsed }
    let log ← writeLog p runId s a.tally
    return .ok (report p runId attempt s a.tally log)
  else return .error (.incomplete a.expected a.tally.received)

/-- A run around an engine. Gives back what the engine came to, too. -/
def around {α : Type} (p : Plan) (tell : String → Happening → m Unit) (engine : String → m α)
    (aggregator : α → Aggregator) (set : TaskSet) (attempt : Nat) : m (Ending × α) := do
  let runId ← Host.newRunId
  tell runId (.runStarted set.tasks.length attempt)
  let began ← Host.now
  let x ← engine runId
  let ended ← Host.now
  let ending ← conclude p runId attempt ⟨ended.nanosSince began⟩ (aggregator x)
  match ending with
  | .ok r =>
    tell runId (.runCompleted r.statistics.succeeded r.statistics.failed r.statistics.skipped)
  | .error _ => pure ()
  return (ending, x)

def once (p : Plan) (world : String → Engine.World m) (set : TaskSet) (attempt : Nat)
    (weather : Weather) : m (Ending × Engine.Timeline) :=
  let start := Engine.Timeline.start p.settings set p.skipPolicy weather.cancelled weather.now
    weather.alarms
  around p (fun runId => (world runId).tell) (fun runId => start.drive (world runId) start.enough)
    (fun t => t.state.aggregator) set attempt

end Run

end ImageBatch
