import ImageBatch.Result
import ImageBatch.Statistics
import ImageBatch.TaskSet

/-!
# The tally of a run

Results are counted as they come in. Failures and skips with a reason leave a record.
-/

namespace ImageBatch

/-- What is known from the results so far. -/
structure Tally where
  received : Nat
  statistics : Statistics
  succeeded : List Task
  errors : List Record
deriving DecidableEq, Inhabited

namespace Tally

def start (s : TaskSet) : Tally :=
  ⟨0, { Statistics.empty with
    total := s.tasks.length, byKind := s.expected.map (fun n => ⟨0, n⟩) }, [], []⟩

/-- The record that a task leaves, with everyone whom it affects. -/
def recordOf (s : TaskSet) (t : Task) (kind : RecordKind) (f : Failure) : Record :=
  ⟨t, kind, f.message, f.category, s.linkedOperators t, s.linkedBundles t⟩

/-- The record that a result leaves, if any. -/
def record? (s : TaskSet) (r : Result) : Option Record :=
  match r.ending with
  | .succeeded => none
  | .failed f => some (recordOf s r.task .failed f)
  | .skipped (some reason) => some (recordOf s r.task .skipped ⟨.other, reason⟩)
  | .skipped none => none

/-- Counts one ending of a task of a kind. A bypassed task is expected no longer. -/
def count (n : Statistics) (kind : ImageKind) : Ending → Statistics
  | .succeeded =>
    { n with
      succeeded := n.succeeded + 1
      byKind := n.byKind.alter kind fun old =>
        let t := old.getD ⟨0, 0⟩
        { t with succeeded := t.succeeded + 1 } }
  | .failed f =>
    { n with
      failed := n.failed + 1
      failuresByCategory := n.failuresByCategory.alter f.category (fun old => old.getD 0 + 1)
      critical := n.critical + (if f.category.isCritical then 1 else 0) }
  | .skipped (some _) => { n with skipped := n.skipped + 1 }
  | .skipped none =>
    { n with
      bypassed := n.bypassed + 1
      byKind := n.byKind.modify kind (fun t => { t with expected := t.expected - 1 }) }

def add (s : TaskSet) (t : Tally) (r : Result) : Tally where
  received := t.received + 1
  statistics := count t.statistics r.task.kind r.ending
  succeeded := if r.isSuccess then t.succeeded ++ [r.task] else t.succeeded
  errors := t.errors ++ (record? s r).toList

def addAll (s : TaskSet) (t : Tally) (rs : List Result) : Tally := rs.foldl (add s) t

end Tally

end ImageBatch
