import ImageBatch.Category

/-!
# Events

What a run tells about its progress. Events are for people who watch: nothing in a run reads them
back.
-/

namespace ImageBatch

inductive Happening where
  /-- A run of so many tasks starts; it is number `attempt` of its session. -/
  | runStarted (total attempt : Nat)
  /-- The tool is about to be called for a task. -/
  | taskStarted (origin : String) (attempt : Nat)
  /-- A call failed, and after a delay there will be another. -/
  | taskRetrying (origin : String) (attempt delayMillis : Nat) (failure : Failure)
  | taskSucceeded (origin : String) (attempts : Nat)
  | taskFailed (origin : String) (attempts : Nat) (failure : Failure)
  | taskSkipped (origin : String) (reason : Option String)
  | runCompleted (succeeded failed skipped : Nat)
deriving DecidableEq, Repr

/-- A happening with the run to which it belongs. -/
structure Event where
  runId : String
  what : Happening
deriving DecidableEq, Repr

namespace Happening

/-- The name of the kind of happening. -/
def label : Happening → String
  | runStarted .. => "RunStarted"
  | taskStarted .. => "TaskStarted"
  | taskRetrying .. => "TaskRetrying"
  | taskSucceeded .. => "TaskSucceeded"
  | taskFailed .. => "TaskFailed"
  | taskSkipped .. => "TaskSkipped"
  | runCompleted .. => "RunCompleted"

/-- The last happening of its task. -/
def isTerminal : Happening → Bool
  | taskSucceeded .. | taskFailed .. | taskSkipped .. => true
  | _ => false

def endsRun : Happening → Bool
  | runCompleted .. => true
  | _ => false

end Happening

end ImageBatch
