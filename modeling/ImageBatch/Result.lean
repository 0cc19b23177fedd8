import ImageBatch.Category
import ImageBatch.Task

/-!
# Results

Every task of a run ends in one result. Failures and skips with a reason are kept as records for
later decisions and for the error log.
-/

namespace ImageBatch

/-- How a task ended. A skip without a reason is a bypass: nothing went wrong. -/
inductive Ending where
  | succeeded
  | failed (failure : Failure)
  | skipped (reason : Option String)
deriving DecidableEq, Repr

/-- The result of one task, with the calls that were made for it. -/
structure Result where
  task : Task
  ending : Ending
  attempts : Nat
deriving DecidableEq

namespace Result

def success (task : Task) (attempts : Nat) : Result := ⟨task, .succeeded, attempts⟩

def failure (task : Task) (f : Failure) (attempts : Nat) : Result := ⟨task, .failed f, attempts⟩

/-- A skip takes no call. -/
def skip (task : Task) (reason : Option String) : Result := ⟨task, .skipped reason, 0⟩

def isSuccess (r : Result) : Bool := r.ending == .succeeded

def isSkip (r : Result) : Bool :=
  match r.ending with
  | .skipped _ => true
  | _ => false

def failure? (r : Result) : Option Failure :=
  match r.ending with
  | .failed f => some f
  | _ => none

def reason? (r : Result) : Option String :=
  match r.ending with
  | .skipped reason => reason
  | _ => none

end Result

/-- Whether a record tells of a failure or of a skip. -/
inductive RecordKind where
  | failed
  | skipped
deriving DecidableEq, Repr

def RecordKind.label : RecordKind → String
  | failed => "failed"
  | skipped => "skipped"

def RecordKind.ofLabel? (s : String) : Option RecordKind :=
  [failed, skipped].find? (fun k => k.label == s)

/-- A failure or a skip with a reason, and who is affected by it. -/
structure Record where
  task : Task
  kind : RecordKind
  message : String
  category : Category
  operators : NameSet
  bundles : NameSet
deriving DecidableEq

end ImageBatch
