import ImageBatch.Engine.System

/-!
# Timelines

A timeline puts the steps of the engine in the order of a clock. What follows at once from one event
is done before time goes on: the end of a worker is seen first, then the dispatcher moves as far as
it can, a new worker calls before the dispatcher is told about the next task, the aggregator moves,
and then the workers that wait give up if the run is cancelled. Only then the clock moves to the
next alarm. Calls and waits that take no time are over at once.
-/

namespace ImageBatch.Engine

/-- How a call goes: its answer, its length, and whether the session is cancelled at its end. -/
structure Call where
  answer : Answer
  length : Span
  cancels : Bool
deriving DecidableEq

inductive Bell where
  | answer (id : Nat) (a : Answer) (cancels : Bool)
  | wake (id : Nat)
  | cancel
deriving DecidableEq

/-- Something that will happen at a time. -/
structure Alarm where
  time : Span
  bell : Bell
deriving DecidableEq

structure Timeline where
  settings : Settings
  state : State
  now : Span
  /-- The alarms in the order in which they were set. -/
  alarms : List Alarm
  /-- The worker whose call has just started. -/
  calling : Option Nat
  /-- The most calls that were under way at once. -/
  peak : Nat
  /-- When calls started, and for which source, newest first. -/
  starts : List (Span × String)

inductive Next where
  | over
  | move (t : Timeline)
  | ask (r : Request) (k : Call → Timeline)
  | wait (d : Span) (t : Timeline)

namespace Timeline

def start (s : Settings) (set : TaskSet) (policy : SkipPolicy) (cancelled : Bool) (now : Span)
    (alarms : List Alarm) : Timeline :=
  ⟨s, State.start s set policy cancelled, now, alarms, none, 0, []⟩

/-- Takes a step of the engine; one that is not possible changes nothing. -/
def take (t : Timeline) (l : Label) : Timeline :=
  { t with state := (step? t.settings t.state l).getD t.state }

/-- How many calls are under way. -/
def inCall (t : Timeline) : Nat :=
  (t.state.workers.filter fun w =>
    match w.phase with
    | .calling _ => true
    | _ => false).length

def called (t : Timeline) (id : Nat) : Timeline :=
  { t with
    calling := some id
    peak := max t.peak t.inCall
    starts := (t.state.worker? id).toList.map (fun w => (t.now, w.task.source)) ++ t.starts }

/-- A worker has waited, and calls. -/
def rouse (t : Timeline) (id : Nat) : Timeline := (t.take (.wake id)).called id

/-- Sets a timer for the wait of a worker, if that is what it is about to do. -/
def setWake (t : Timeline) (id : Nat) : Timeline :=
  match (t.state.worker? id).map Worker.phase with
  | some (Phase.pausing _ wait _) =>
    if wait.nanos = 0 then t.rouse id
    else { t with alarms := t.alarms ++ [⟨⟨t.now.nanos + wait.slept.nanos⟩, .wake id⟩] }
  | _ => t

/-- Sets off what an alarm is for. -/
def ring (t : Timeline) : Bell → Timeline
  | .cancel => t.take .cancel
  | .answer id a cancels =>
    ((if cancels then t.take .cancel else t).take (.answer id a)).setWake id
  | .wake id => t.rouse id

/-- Lets the call of a worker take its time. -/
def setAnswer (t : Timeline) (id : Nat) (c : Call) : Timeline :=
  let bell := Bell.answer id c.answer c.cancels
  if c.length.nanos = 0 then t.ring bell
  else { t with alarms := t.alarms ++ [⟨⟨t.now.nanos + c.length.nanos⟩, bell⟩] }

/-- The first of the earliest alarms, and the others. -/
def earliest : List Alarm → Option (Alarm × List Alarm)
  | [] => none
  | a :: as =>
    match earliest as with
    | none => some (a, [])
    | some (b, bs) => if a.time.nanos ≤ b.time.nanos then some (a, as) else some (b, a :: bs)

def firstWorker (t : Timeline) (p : Phase → Bool) : Option Nat :=
  (t.state.workers.find? (fun w => p w.phase)).map (·.id)

/-- The worker that has waited longest. -/
def firstWaiting (t : Timeline) : Option Nat :=
  t.alarms.findSome? fun a =>
    match a.bell with
    | .wake id => some id
    | _ => none

/-- A worker gives up; its alarm is off. -/
def abandon (t : Timeline) (id : Nat) : Timeline :=
  let t := t.take (.giveUp id)
  { t with alarms := t.alarms.filter (fun a => a.bell != .wake id) }

/-- Moves the clock to the next alarm. -/
def passTime (t : Timeline) : Next :=
  match earliest t.alarms with
  | none => .over
  | some (a, rest) =>
    let wait : Span := ⟨a.time.nanos - t.now.nanos⟩
    .wait wait ({ t with now := ⟨max t.now.nanos a.time.nanos⟩, alarms := rest }.ring a.bell)

def next (t : Timeline) : Next :=
  match t.calling.bind t.state.worker? with
  | some w =>
    .ask (t.settings.request w.task) fun c => ({ t with calling := none }).setAnswer w.id c
  | none =>
    if t.state.aggregator.hasEnded then .over
    else
      match t.firstWorker (fun p => match p with | .over _ => true | _ => false) with
      | some id => .move (t.take (.settle id))
      | none =>
        match step? t.settings t.state .dispatcher with
        | some x => .move { t with state := x }
        | none =>
          match t.firstWorker (· == .spawned) with
          | some id => .move ((t.take (.begin id)).called id)
          | none =>
            match step? t.settings t.state .aggregator with
            | some x => .move { t with state := x }
            | none =>
              match if t.state.cancelled then t.firstWaiting else none with
              | some id => .move (t.abandon id)
              | none => t.passTime

/-- More steps than a run takes: each task is looked at a few times for each worker that ends
meanwhile, and each call takes a few steps. -/
def enough (t : Timeline) : Nat :=
  let tasks := t.state.pending.length + 1
  100 * tasks * (t.settings.maxAttempts + 1)

end Timeline

/-- What a run needs from outside: the tool, and time that passes. It tells what happens. -/
structure World (m : Type → Type) where
  call : Request → m Call
  wait : Span → m Unit
  tell : Happening → m Unit

namespace Timeline

variable {m : Type → Type} [Monad m]

/-- Tells what has happened between two states of a run. -/
def tellNews (w : World m) (before after : Timeline) : m Unit :=
  let news := after.state.happenings.length - before.state.happenings.length
  (after.state.happenings.take news).reverse.forM w.tell

/-- Goes on until the run is over. The first argument bounds the steps. -/
def drive (w : World m) : Nat → Timeline → m Timeline
  | 0, t => pure t
  | fuel + 1, t =>
    match t.next with
    | .over => pure t
    | .move u => do
      tellNews w t u
      drive w fuel u
    | .ask r k => do
      let c ← w.call r
      tellNews w t (k c)
      drive w fuel (k c)
    | .wait d u => do
      w.wait d
      tellNews w t u
      drive w fuel u

end Timeline

end ImageBatch.Engine
