import ImageBatch.Run

/-!
# Sessions

A session runs a task set, and runs it again while a run fails outright and attempts are left. A
further run takes up only the tasks that the error log of the run before names, unless the log does
not account for all that is left to do.
-/

namespace ImageBatch

/-- How often a session tries, and how long it waits in between. -/
structure RetrySettings where
  maxAttempts : Nat
  interval : Span
deriving DecidableEq

structure Session where
  /-- The runs that were started. -/
  attempt : Nat
  maxAttempts : Nat
  interval : Span
deriving DecidableEq

namespace Session

/-- A session has at least one run. -/
def start (s : RetrySettings) : Session := ⟨0, max s.maxAttempts 1, s.interval⟩

def attemptsRemain (s : Session) : Bool := s.attempt < s.maxAttempts

/-- What a session needs from outside. -/
structure Surroundings (m : Type → Type) where
  /-- Runs a set; the number of the run comes with it. -/
  run : TaskSet → Nat → m Run.Ending
  cancelled : m Bool
  /-- The origins that the log of a failed run names. -/
  recover : Outcome → m (List String)
  /-- Waits, and tells whether the session was cancelled meanwhile. -/
  pause : Span → m Bool

variable {m : Type → Type} [Monad m]

/-- The runs from number `attempt + 1` on, when so many attempts are left. -/
def runsFrom (w : Surroundings m) (full : TaskSet) (interval : Span) :
    Nat → Nat → TaskSet → m (Except Aggregator.Error (List Report))
  | 0, _, _ => return .ok []
  | left + 1, attempt, current => do
    match ← w.run current (attempt + 1) with
    | .error e => return .error e
    | .ok r =>
      if !r.outcome.isHardFailure || left == 0 then return .ok [r]
      else if ← w.cancelled then return .ok [r]
      else
        let origins ← w.recover r.outcome
        let unresolved := r.statistics.failed + r.statistics.skipped
        if ← w.pause interval then return .ok [r]
        else
          match ← runsFrom w full interval left (attempt + 1)
            (full.next origins unresolved) with
          | .error e => return .error e
          | .ok rs => return .ok (r :: rs)

/-- All runs of a session, in order; the last one decides. -/
def runs (w : Surroundings m) (s : RetrySettings) (set : TaskSet) :
    m (Except Aggregator.Error (List Report)) :=
  let session := start s
  runsFrom w set session.interval session.maxAttempts session.attempt set

end Session

namespace Weather

/-- The first time at which the session will be cancelled. -/
def cancelTime (w : Weather) : Option Span :=
  (w.alarms.filter (fun a => a.bell == .cancel)).head?.map Engine.Alarm.time

/-- Lets time pass up to an end, or up to the moment at which the session is cancelled. -/
def pass (w : Weather) (d : Span) : Weather :=
  let stop : Span := ⟨w.now.nanos + d.nanos⟩
  match w.cancelTime with
  | some t =>
    if t.nanos ≤ stop.nanos ∧ !w.cancelled then
      { now := ⟨max w.now.nanos t.nanos⟩, alarms := [], cancelled := true }
    else { w with now := stop }
  | none => { w with now := stop }

def after (t : Engine.Timeline) : Weather where
  now := t.now
  alarms := t.alarms.filter (fun a => a.bell == .cancel)
  cancelled := t.state.cancelled

end Weather

namespace Session

variable {m : Type → Type} {η : Type} [Monad m] [Host m η]

/-- The origins that a run's own log names, or else the newest log. -/
def recover (errors : String) (o : Outcome) : m (List String) := do
  let path ← match o.log? with
    | some path => pure (some path)
    | none =>
      match ← ErrorLog.latest errors with
      | .ok path => pure path
      | .error _ => pure none
  match path with
  | none => return []
  | some path =>
    match ← ErrorLog.readOrigins path with
    | .ok origins => return origins
    | .error _ => return []

/-- What the engine shows of a run besides its report. -/
structure Trace where
  starts : List (Span × String)
  peak : Nat

/-- The surroundings of a session on a host. The weather is carried from run to run, and so are the
traces of the runs. -/
def onHost (p : Plan) (w : String → Engine.World m) :
    Surroundings (StateT (Weather × List Trace) m) where
  run set attempt := fun (weather, traces) => do
    let (ending, t) ← Run.once p w set attempt weather
    return (ending, (Weather.after t, ⟨t.starts.reverse, t.peak⟩ :: traces))
  cancelled := fun x => return (x.1.cancelled, x)
  recover o := fun x => do return (← recover p.errors o, x)
  pause d := fun (weather, traces) => do
    let later := weather.pass d.slept
    Host.rest ⟨later.now.nanos - weather.now.nanos⟩
    return (later.cancelled, (later, traces))

end Session

end ImageBatch
