import ImageBatch.Task
import ImageBatch.Text.Blank
import ImageBatch.Text.Quoted

/-!
# Task sets

The tasks of a run in their order, how many images of each kind are expected to arrive, and which
bundles and operators depend on which origins.
-/

namespace ImageBatch

/-- How many there are of each kind. -/
abbrev KindCounts := SortedMap ImageKind Nat

/-- Which names depend on an origin. -/
abbrev Dependents := SortedMap String NameSet

structure TaskSet where
  tasks : List Task
  expected : KindCounts
  bundleDependents : Dependents
  operatorDependents : Dependents
deriving DecidableEq, Inhabited

inductive OriginError where
  | invalid (origin : String)
  | duplicate (origin : String)
deriving DecidableEq, Repr

def OriginError.message : OriginError → String
  | invalid origin =>
    "Invalid task origin " ++ Text.quoted origin ++ ": must be non-empty and contain no whitespace"
  | duplicate origin => "Duplicate task origin: " ++ origin

namespace TaskSet

def countOne (counts : KindCounts) (kind : ImageKind) : KindCounts :=
  counts.alter kind (fun n => n.getD 0 + 1)

/-- How many tasks there are of each kind. -/
def countKinds (tasks : List Task) : KindCounts :=
  tasks.foldl (fun counts t => countOne counts t.kind) ∅

def observed (s : TaskSet) : KindCounts := countKinds s.tasks

/-- Expects the observed count of every kind that has no expectation yet. -/
def fillExpected (s : TaskSet) : TaskSet :=
  { s with expected :=
      s.observed.toList.foldl (fun m e => m.alter e.1 (fun n => n.getD e.2)) s.expected }

/-- A set of tasks without dependents that expects what it observes. -/
def ofTasks (tasks : List Task) : TaskSet := fillExpected ⟨tasks, ∅, ∅, ∅⟩

/-- An origin that can be told apart in a log: not empty, and without blanks. -/
def isUsableOrigin (origin : String) : Bool :=
  !origin.isEmpty && !origin.toList.any Text.isBlank

/-- The first task with an unusable origin, or with an origin seen before. -/
def firstOffender (seen : List String) : List Task → Option OriginError
  | [] => none
  | t :: ts =>
    if !isUsableOrigin t.origin then some (.invalid t.origin)
    else if t.origin ∈ seen then some (.duplicate t.origin)
    else firstOffender (t.origin :: seen) ts

/-- Says what is wrong with the origins, if anything. -/
def fault? (s : TaskSet) : Option OriginError := firstOffender [] s.tasks

/-- The bundles that need a task: those it names and those that depend on its origin. -/
def linkedBundles (s : TaskSet) (t : Task) : NameSet :=
  match s.bundleDependents.get? t.origin with
  | some more => t.bundles.union more
  | none => t.bundles

def linkedOperators (s : TaskSet) (t : Task) : NameSet :=
  match s.operatorDependents.get? t.origin with
  | some more => t.operators.union more
  | none => t.operators

/-- The tasks with a listed origin, in their order. Expectations are counted anew. -/
def narrow (s : TaskSet) (origins : List String) : TaskSet :=
  fillExpected
    { s with tasks := s.tasks.filter (fun t => decide (t.origin ∈ origins)), expected := ∅ }

/-- The set for another attempt: the tasks that are listed, unless these are fewer than the tasks
that are left to do. Then the list is no full account, and every task is tried again. -/
def next (full : TaskSet) (origins : List String) (unresolved : Nat) : TaskSet :=
  let narrowed := full.narrow origins
  if origins.isEmpty ∨ narrowed.tasks.length < max unresolved 1 then full else narrowed

end TaskSet

end ImageBatch
