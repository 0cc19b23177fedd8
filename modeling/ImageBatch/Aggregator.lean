import ImageBatch.Skip
import ImageBatch.Tally

/-!
# The aggregator

The aggregator takes in one result for every task of the run and answers questions in between. It
looks for results first. Before it answers a question it takes in every result that has arrived,
so an answer reflects all that was sent before the question.
-/

namespace ImageBatch

inductive Query where
  /-- What becomes of the task? -/
  | decide (task : Task)
  /-- Which records are there? -/
  | records
deriving DecidableEq

inductive Reply where
  | decision (d : Decision)
  | records (rs : List Record)
deriving DecidableEq

structure Inbox where
  /-- The results that have arrived, oldest first. -/
  results : List Result
  resultsOpen : Bool
  /-- The questions that have arrived, oldest first. -/
  queries : List Query
deriving DecidableEq

/-- The places for results, and those for questions. -/
def Inbox.room : Nat := 256

namespace Aggregator

/-- What the aggregator is about to do. -/
inductive Phase where
  /-- Look for a result. -/
  | polling
  /-- Look for a question, as there was no result. -/
  | listening
  /-- Wait until something arrives. -/
  | asleep
  /-- Take in the results that are there, and answer. -/
  | answering (q : Query)
  /-- Every result is in. -/
  | finished
  /-- No more results will come, and some are missing. -/
  | incomplete
deriving DecidableEq

end Aggregator

structure Aggregator where
  set : TaskSet
  policy : SkipPolicy
  tally : Tally
  phase : Aggregator.Phase
deriving DecidableEq

namespace Aggregator

/-- An aggregator of no tasks is finished at once. -/
def settledPhase (received expected : Nat) : Phase :=
  if received < expected then .polling else .finished

def expected (a : Aggregator) : Nat := a.set.tasks.length

def start (set : TaskSet) (policy : SkipPolicy) : Aggregator :=
  ⟨set, policy, Tally.start set, settledPhase 0 set.tasks.length⟩

/-- The aggregator has returned. -/
def hasEnded (a : Aggregator) : Bool := a.phase == .finished || a.phase == .incomplete

/-- Takes in one result, and is finished once none is missing. -/
def take (a : Aggregator) (r : Result) : Aggregator :=
  let tally := a.tally.add a.set r
  { a with tally := tally, phase := settledPhase tally.received a.expected }

/-- Takes in one result before an answer. -/
def takeQuietly (a : Aggregator) (r : Result) : Aggregator :=
  { a with tally := a.tally.add a.set r }

def answer (a : Aggregator) : Query → Reply
  | .decide t => .decision (a.policy.decide t (a.set.linkedBundles t) a.tally.errors)
  | .records => .records a.tally.errors

/-- One step, if there is one: what becomes of the aggregator and of what waits for it, and the
answer that it gives. -/
def step? (a : Aggregator) (i : Inbox) : Option (Aggregator × Inbox × Option Reply) :=
  match a.phase with
  | .polling =>
    match i.results with
    | r :: rs => some (a.take r, { i with results := rs }, none)
    | [] =>
      if i.resultsOpen then some ({ a with phase := .listening }, i, none)
      else some ({ a with phase := .incomplete }, i, none)
  | .listening =>
    match i.queries with
    | q :: qs => some ({ a with phase := .answering q }, { i with queries := qs }, none)
    | [] => some ({ a with phase := .asleep }, i, none)
  | .asleep =>
    if i.results.isEmpty && i.resultsOpen && i.queries.isEmpty then none
    else some ({ a with phase := .polling }, i, none)
  | .answering q =>
    match i.results with
    | r :: rs =>
      if a.tally.received < a.expected then
        some (a.takeQuietly r, { i with results := rs }, none)
      else some ({ a with phase := settledPhase a.tally.received a.expected }, i, some (a.answer q))
    | [] =>
      some ({ a with phase := settledPhase a.tally.received a.expected }, i, some (a.answer q))
  | .finished => none
  | .incomplete => none

/-- Steps until nothing is left to do, at most so many times; the answers come in order. -/
def settle : Nat → Aggregator → Inbox → Aggregator × Inbox × List Reply
  | 0, a, i => (a, i, [])
  | fuel + 1, a, i =>
    match a.step? i with
    | none => (a, i, [])
    | some (a, i, reply) =>
      let (a, i, replies) := settle fuel a i
      (a, i, reply.toList ++ replies)

/-- Enough steps for all that waits. -/
def settleAll (a : Aggregator) (i : Inbox) : Aggregator × Inbox × List Reply :=
  settle (4 * (i.results.length + i.queries.length) + 8) a i

/-- What was wrong when the aggregator could not finish. -/
inductive Error where
  | incomplete (expected received : Nat)
  | unreachable
deriving DecidableEq, Repr

def Error.message : Error → String
  | incomplete expected received =>
    "Result stream closed after " ++ toString received ++ " of " ++ toString expected ++ " results"
  | unreachable => "Aggregator channel error"

end Aggregator

end ImageBatch
