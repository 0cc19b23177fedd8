import ImageBatch.Aggregator
import ImageBatch.Engine.Worker

/-!
# The engine

A dispatcher, its workers and the aggregator run side by side. The system moves in small steps, and
each step belongs to one of them; any order of steps that are possible is a run. So what holds after
every sequence of steps holds for every timing.

The dispatcher goes through the tasks in order. For each it waits for a free slot, asks the
aggregator what becomes of the task, and then hands it to a new worker or passes over it. While it
waits it forwards the results of workers that are over.
-/

namespace ImageBatch.Engine

/-- What the dispatcher looks at while it waits for a slot. -/
inductive Look where
  /-- Has the run been cancelled? -/
  | cancel
  /-- Is a worker over? -/
  | join
  /-- Is a slot free? -/
  | slot
  /-- None of these; something has to change first. -/
  | asleep
deriving DecidableEq, Repr

/-- What the dispatcher does once a result is on its way. -/
inductive Resume where
  | next
  /-- Wait for a slot for this task again. -/
  | choose (task : Task)
  /-- Pass over the tasks that are left. -/
  | discard
  /-- Wait for the workers that are left. -/
  | drain
deriving DecidableEq

/-- What the dispatcher is about to do. -/
inductive Dispatch where
  | ready
  | choosing (task : Task) (look : Look)
  /-- Ask what becomes of a task; a slot is held for it. -/
  | asking (task : Task)
  | waiting (task : Task)
  /-- Put a result on the stream, and then free a slot if the result came with one. -/
  | delivering (r : Result) (freesSlot : Bool) (resume : Resume)
  /-- The run is cancelled: pass over the tasks that are left. -/
  | discarding
  | draining
  | ended
  /-- There are more slots than can be counted. -/
  | broken
deriving DecidableEq

/-- The most slots that can be counted. -/
def slotBound : Nat := Nat.pow 2 61 - 1

/-- Why a task was never started in a cancelled run. -/
def cancelledReason : String := "run cancelled before dispatch"

/-- A call of the tool that was made. -/
structure Invocation where
  worker : Nat
  task : Task
  attempt : Nat
deriving DecidableEq

/-- Everything that makes up a run. The histories at the end are kept newest first. -/
structure State where
  cancelled : Bool
  free : Nat
  dispatch : Dispatch
  /-- The tasks that the dispatcher has not taken up. -/
  pending : List Task
  /-- The workers that are not over, or whose end nobody has noticed. -/
  workers : List Worker
  /-- The workers that can be seen to be over, in the order in which they were. -/
  finished : List (Nat × Exit)
  /-- The tasks of the workers that the dispatcher has not taken back. -/
  inFlight : List (Nat × Task)
  nextId : Nat
  inbox : Inbox
  reply : Option Reply
  aggregator : Aggregator
  happenings : List Happening
  calls : List Invocation
  sent : List Result

def State.start (s : Settings) (set : TaskSet) (policy : SkipPolicy) (cancelled : Bool) :
    State where
  cancelled := cancelled
  free := s.slots
  dispatch := if slotBound < s.slots then .broken else .ready
  pending := set.tasks
  workers := []
  finished := []
  inFlight := []
  nextId := 0
  inbox := ⟨[], true, []⟩
  reply := none
  aggregator := .start set policy
  happenings := []
  calls := []
  sent := []

namespace State

/-- The phase of a worker that is not over for all to see. -/
def worker? (x : State) (id : Nat) : Option Worker := x.workers.find? (fun w => w.id == id)

def setPhase (x : State) (id : Nat) (p : Phase) : State :=
  { x with workers := x.workers.map (fun w => if w.id == id then { w with phase := p } else w) }

def tell (x : State) (h : Happening) : State := { x with happenings := h :: x.happenings }

/-- The dispatcher is gone, and with it the stream of results. -/
def dispatcherGone (x : State) : Bool := x.dispatch == .ended || x.dispatch == .broken

/-- Goes on after a result has been put on the stream. -/
def resume (x : State) : Resume → State
  | .next => { x with dispatch := .ready }
  | .choose t => { x with dispatch := .choosing t .cancel }
  | .discard => { x with dispatch := .discarding }
  | .drain => { x with dispatch := .draining }

/-- Passes over a task: that happens at once, and its result is on the way. -/
def pass (x : State) (t : Task) (reason : Option String) (then_ : Resume) : State :=
  { x.tell (.taskSkipped t.origin reason) with
    dispatch := .delivering (.skip t reason) false then_ }

/-- Takes back a worker that is over. A result that it has is forwarded and then its slot is free; a
worker that broke off has lost its slot already, and its task fails. -/
def reap (x : State) (id : Nat) (e : Exit) (then_ : Resume) : State :=
  let task := x.inFlight.lookup id
  let x := { x with inFlight := x.inFlight.filter (fun f => f.1 != id) }
  match e, task with
  | .done r, _ => { x with dispatch := .delivering r true then_ }
  | .aborted words, some t =>
    let f := abortFailure words
    { x.tell (.taskFailed t.origin 0 f) with
      dispatch := .delivering (.failure t f 0) false then_ }
  | .aborted _, none => x.resume then_

/-- Hands a task to a new worker, which holds the slot. -/
def spawn (x : State) (t : Task) : State :=
  { x with
    dispatch := .ready
    workers := x.workers ++ [⟨x.nextId, t, .spawned⟩]
    inFlight := x.inFlight ++ [(x.nextId, t)]
    nextId := x.nextId + 1 }

/-- Does with a task what was decided. -/
def carryOut (x : State) (t : Task) : Decision → State
  | .proceed => x.spawn t
  | .bypass => { x with free := x.free + 1 }.pass t none .next
  | .skip reason => { x with free := x.free + 1 }.pass t (some reason) .next

/-- The next step of the dispatcher, if there is one. -/
def dispatchStep? (x : State) : Option State :=
  match x.dispatch with
  | .ready =>
    match x.pending with
    | t :: ts => some { x with pending := ts, dispatch := .choosing t .cancel }
    | [] => some { x with dispatch := .draining }
  | .choosing t .cancel =>
    if x.cancelled then some (x.pass t (some cancelledReason) .discard)
    else some { x with dispatch := .choosing t .join }
  | .choosing t .join =>
    match x.finished with
    | (id, e) :: rest => some ({ x with finished := rest }.reap id e (.choose t))
    | [] => some { x with dispatch := .choosing t .slot }
  | .choosing t .slot =>
    if 0 < x.free then some { x with free := x.free - 1, dispatch := .asking t }
    else some { x with dispatch := .choosing t .asleep }
  | .choosing t .asleep =>
    if x.cancelled || !x.finished.isEmpty || decide (0 < x.free) then
      some { x with dispatch := .choosing t .cancel }
    else none
  | .asking t =>
    if x.aggregator.hasEnded then some (x.carryOut t .proceed)
    else if x.inbox.queries.length < Inbox.room then
      some { x with
        inbox := { x.inbox with queries := x.inbox.queries ++ [.decide t] }
        dispatch := .waiting t }
    else none
  | .waiting t =>
    match x.reply with
    | some (.decision d) => some ({ x with reply := none }.carryOut t d)
    | some (.records _) => some ({ x with reply := none }.carryOut t .proceed)
    | none => if x.aggregator.hasEnded then some (x.carryOut t .proceed) else none
  | .delivering r freesSlot rest =>
    let after (x : State) : State :=
      (if freesSlot then { x with free := x.free + 1 } else x).resume rest
    if x.aggregator.hasEnded then some (after { x with sent := r :: x.sent })
    else if x.inbox.results.length < Inbox.room then
      some (after { x with
        inbox := { x.inbox with results := x.inbox.results ++ [r] }, sent := r :: x.sent })
    else none
  | .discarding =>
    match x.pending with
    | t :: ts => some ({ x with pending := ts }.pass t (some cancelledReason) .discard)
    | [] => some { x with dispatch := .draining }
  | .draining =>
    match x.finished with
    | (id, e) :: rest => some ({ x with finished := rest }.reap id e .drain)
    | [] =>
      if x.workers.isEmpty then
        some { x with dispatch := .ended, inbox := { x.inbox with resultsOpen := false } }
      else none
  | .ended => none
  | .broken =>
    if x.inbox.resultsOpen then
      some { x with inbox := { x.inbox with resultsOpen := false } }
    else none

/-- The next step of the aggregator, if there is one. -/
def aggregatorStep? (x : State) : Option State :=
  (x.aggregator.step? x.inbox).map fun (a, i, reply) =>
    { x with aggregator := a, inbox := i, reply := reply <|> x.reply }

/-- Starts call number `k` of a worker. -/
def call (x : State) (w : Worker) (k : Nat) : State :=
  let x := (x.tell (.taskStarted w.task.origin k)).setPhase w.id (.calling k)
  { x with calls := ⟨w.id, w.task, k⟩ :: x.calls }

/-- The call of a worker is answered. A worker that breaks off gives its slot back at once. -/
def answer (s : Settings) (x : State) (w : Worker) (k : Nat) (a : Answer) : State :=
  match react s x.cancelled w.task k a with
  | .finish h e => (x.tell h).setPhase w.id (.over e)
  | .pause h wait f => (x.tell h).setPhase w.id (.pausing k wait f)
  | .abort words => { x with free := x.free + 1 }.setPhase w.id (.over (.aborted words))

/-- A worker gives up instead of waiting on. -/
def abandon (x : State) (w : Worker) (k : Nat) (f : Failure) : State :=
  (x.tell (giveUp w.task k f).1).setPhase w.id (.over (giveUp w.task k f).2)

end State

/-- Whose step it is, and what comes from outside with it. -/
inductive Label where
  | cancel
  | dispatcher
  | aggregator
  /-- A new worker makes its first call. -/
  | begin (id : Nat)
  | answer (id : Nat) (a : Answer)
  /-- A worker has waited long enough and calls again. -/
  | wake (id : Nat)
  /-- A waiting worker notices that the run is cancelled. -/
  | giveUp (id : Nat)
  /-- The end of a worker can be seen. -/
  | settle (id : Nat)
deriving DecidableEq

/-- One step of the system, if it is possible. -/
def step? (s : Settings) (x : State) : Label → Option State
  | .cancel => if x.cancelled then none else some { x with cancelled := true }
  | .dispatcher => x.dispatchStep?
  | .aggregator => x.aggregatorStep?
  | .begin id =>
    match x.worker? id with
    | some w => if w.phase = .spawned then some (x.call w 1) else none
    | none => none
  | .answer id a =>
    match x.worker? id with
    | some w =>
      match w.phase with
      | .calling k => some (x.answer s w k a)
      | _ => none
    | none => none
  | .wake id =>
    match x.worker? id with
    | some w =>
      match w.phase with
      | .pausing k _ _ => some (x.call w (k + 1))
      | _ => none
    | none => none
  | .giveUp id =>
    match x.worker? id with
    | some w =>
      match w.phase with
      | .pausing k _ f => if x.cancelled then some (x.abandon w k f) else none
      | _ => none
    | none => none
  | .settle id =>
    match x.worker? id with
    | some w =>
      match w.phase with
      | .over e =>
        some { x with
          workers := x.workers.filter (fun v => v.id != id), finished := x.finished ++ [(id, e)] }
      | _ => none
    | none => none

def steps? (s : Settings) (x : State) : List Label → Option State
  | [] => some x
  | l :: ls => (step? s x l).bind (fun y => steps? s y ls)

/-- A state that a run can come to, whatever the timing. -/
inductive Reachable (s : Settings) (set : TaskSet) (policy : SkipPolicy) (cancelled : Bool) :
    State → Prop where
  | start : Reachable s set policy cancelled (State.start s set policy cancelled)
  | step {x y : State} {l : Label} :
    Reachable s set policy cancelled x → step? s x l = some y → Reachable s set policy cancelled y

end ImageBatch.Engine
