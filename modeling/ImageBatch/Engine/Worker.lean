import ImageBatch.Event.Basic
import ImageBatch.Result
import ImageBatch.Text.Quoted
import ImageBatch.Tool.Arguments

/-!
# Workers

A worker drives one task through the tool: it calls, and after a failure that may pass it waits and
calls again, a little longer each time, until the attempts are used up or the run is cancelled.
-/

namespace ImageBatch.Engine

structure Settings where
  /-- How many tasks may be in flight. -/
  limit : Nat
  /-- How many calls a task may take. -/
  attempts : Nat
  /-- The wait before the next call is so long for each call made. -/
  backoff : Span
  mode : Mode
  options : ToolOptions
deriving DecidableEq

/-- A task has at least one slot and one call, whatever the settings say. -/
def Settings.slots (s : Settings) : Nat := max s.limit 1

def Settings.maxAttempts (s : Settings) : Nat := max s.attempts 1

def Settings.request (s : Settings) (t : Task) : Request :=
  ⟨t.source, t.destination, s.mode, s.options⟩

inductive Answer where
  | success
  | failure (f : Failure)
  /-- The worker itself breaks off, with these words. -/
  | panic (words : String)
deriving DecidableEq, Repr

/-- How a worker ends: with a result, or broken off. -/
inductive Exit where
  | done (r : Result)
  | aborted (words : String)
deriving DecidableEq

/-- What a worker does after its call number so many was answered. -/
inductive Reaction where
  | finish (h : Happening) (e : Exit)
  | pause (h : Happening) (delay : Span) (f : Failure)
  | abort (words : String)
deriving DecidableEq

/-- What is said when a wait does not fit a clock. -/
def overflowWords : String := "overflow when multiplying duration by scalar"

/-- The failure of a worker that broke off. -/
def abortFailure (words : String) : Failure :=
  ⟨.other, "mirror worker aborted: task # panicked with message " ++ Text.quoted words⟩

/-- Gives up a task with the failure of its last call. -/
def giveUp (t : Task) (k : Nat) (f : Failure) : Happening × Exit :=
  (.taskFailed t.origin k f, .done (.failure t f k))

/-- The milliseconds of a delay as they are told, modulo two to the power 64. -/
def toldMillis (delay : Span) : Nat := delay.millis % Nat.pow 2 64

/-- The reaction to the answer to call number `k`. -/
def react (s : Settings) (cancelled : Bool) (t : Task) (k : Nat) : Answer → Reaction
  | .success => .finish (.taskSucceeded t.origin k) (.done (.success t k))
  | .panic words => .abort words
  | .failure f =>
    if !f.category.isRetryable || s.maxAttempts ≤ k || cancelled then
      .finish (giveUp t k f).1 (giveUp t k f).2
    else
      match s.backoff.times? k with
      | none => .abort overflowWords
      | some delay => .pause (.taskRetrying t.origin k (toldMillis delay) f) delay f

/-- What a worker is about to do. -/
inductive Phase where
  | spawned
  /-- Call number `k` is under way. -/
  | calling (k : Nat)
  /-- Call number `k` has failed, and the next one will follow after a wait. -/
  | pausing (k : Nat) (wait : Span) (f : Failure)
  /-- Over, but nobody has noticed yet. -/
  | over (e : Exit)
deriving DecidableEq

structure Worker where
  id : Nat
  task : Task
  phase : Phase
deriving DecidableEq

end ImageBatch.Engine
