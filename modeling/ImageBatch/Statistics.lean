import ImageBatch.Category
import ImageBatch.Task
import ImageBatch.Time.Span

/-!
# Statistics

The counts of a finished run. A bypassed task was never meant to be copied, so it does not count
towards the success rate.
-/

namespace ImageBatch

/-- How many images of a kind arrived, and how many should. -/
structure KindTally where
  succeeded : Nat
  expected : Nat
deriving DecidableEq, Repr, Inhabited

/-- Fewer arrived than should. -/
def KindTally.isShort (t : KindTally) : Bool := t.succeeded < t.expected

structure Statistics where
  total : Nat
  succeeded : Nat
  failed : Nat
  /-- Skips with a reason. -/
  skipped : Nat
  /-- Skips without a reason. -/
  bypassed : Nat
  byKind : SortedMap ImageKind KindTally
  failuresByCategory : SortedMap Category Nat
  /-- Failures of a critical category. -/
  critical : Nat
  elapsed : Span
deriving DecidableEq, Inhabited

namespace Statistics

def empty : Statistics := ⟨0, 0, 0, 0, 0, ∅, ∅, 0, ⟨0⟩⟩

/-- The tasks that were meant to be copied. -/
def eligible (s : Statistics) : Nat := s.total - s.bypassed

/-- The part of the eligible tasks that succeeded; all of them if there are none. -/
def rate (s : Statistics) : Binary64 :=
  if s.eligible = 0 then 1 else Binary64.ofNat s.succeeded / Binary64.ofNat s.eligible

/-- A line for every kind of which too few arrived. -/
def shortfalls (s : Statistics) : List String :=
  (s.byKind.toList.filter (fun e => e.2.isShort)).map fun e =>
    toString e.2.succeeded ++ "/" ++ toString e.2.expected ++ " " ++ e.1.plural ++ " succeeded"

def failuresIn (s : Statistics) (c : Category) : Nat := (s.failuresByCategory.get? c).getD 0

/-- The categories that failures fell into, with their counts. -/
def breakdown (s : Statistics) : String :=
  let parts := (Category.all.filter (fun c => 0 < s.failuresIn c)).map
    (fun c => c.label ++ ": " ++ toString (s.failuresIn c))
  if parts.isEmpty then "none" else ", ".intercalate parts

/-- Nothing failed and nothing was skipped with a reason. -/
def isClean (s : Statistics) : Bool := s.failed == 0 && s.skipped == 0

end Statistics

end ImageBatch
