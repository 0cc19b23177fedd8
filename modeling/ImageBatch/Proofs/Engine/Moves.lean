import ImageBatch.Engine.System
import ImageBatch.Proofs.Aggregator.Steps

/-!
# What a run can do

The steps of the dispatcher and of the workers as rules. Each rule says when it applies and what the
next state is, field by field, so whatever holds after every rule holds after every step.
-/

namespace ImageBatch.Engine

variable {s : Settings} {x y : State}

/-! ## The dispatcher -/

/-- Where the dispatcher goes on. -/
def Resume.target : Resume → Dispatch
  | .next => .ready
  | .choose t => .choosing t .cancel
  | .discard => .discarding
  | .drain => .draining

theorem State.resume_eq (x : State) (k : Resume) :
    x.resume k = { x with dispatch := k.target } := by
  cases k <;> rfl

/-- The dispatcher looks for workers that are over, and goes on afterwards. -/
inductive LooksForWorkers : Dispatch → Resume → Prop where
  | choosing (t : Task) : LooksForWorkers (.choosing t .join) (.choose t)
  | draining : LooksForWorkers .draining .drain

/-- The dispatcher learns that a task is to be worked on: it is told so, or there is nobody left
to ask. The reply that is left behind comes with it. -/
inductive LearnsToProceed (x : State) : Task → Option Reply → Prop where
  | unasked {t} (hd : x.dispatch = .asking t) (he : x.aggregator.hasEnded = true) :
    LearnsToProceed x t x.reply
  | told {t} (hd : x.dispatch = .waiting t) (hr : x.reply = some (.decision .proceed)) :
    LearnsToProceed x t none
  | misled {t rs} (hd : x.dispatch = .waiting t) (hr : x.reply = some (.records rs)) :
    LearnsToProceed x t none
  | unanswered {t} (hd : x.dispatch = .waiting t) (hr : x.reply = none)
      (he : x.aggregator.hasEnded = true) : LearnsToProceed x t x.reply

theorem LearnsToProceed.dispatch_eq {x : State} {t : Task} {reply : Option Reply}
    (h : LearnsToProceed x t reply) : x.dispatch = .asking t ∨ x.dispatch = .waiting t := by
  cases h with
  | unasked hd => exact .inl hd
  | told hd | misled hd | unanswered hd => exact .inr hd

/-- The rules by which the dispatcher moves on. -/
inductive Dispatches (x : State) : State → Prop where
  | takeUp {t ts} (hd : x.dispatch = .ready) (hp : x.pending = t :: ts) :
    Dispatches x { x with pending := ts, dispatch := .choosing t .cancel }
  | runOut (hd : x.dispatch = .ready) (hp : x.pending = []) :
    Dispatches x { x with dispatch := .draining }
  | giveUp {t} (hd : x.dispatch = .choosing t .cancel) (hc : x.cancelled = true) :
    Dispatches x { x with
      happenings := .taskSkipped t.origin (some cancelledReason) :: x.happenings
      dispatch := .delivering (.skip t (some cancelledReason)) false .discard }
  | goOn {t} (hd : x.dispatch = .choosing t .cancel) (hc : x.cancelled = false) :
    Dispatches x { x with dispatch := .choosing t .join }
  | noneOver {t} (hd : x.dispatch = .choosing t .join) (hf : x.finished = []) :
    Dispatches x { x with dispatch := .choosing t .slot }
  | acquire {t} (hd : x.dispatch = .choosing t .slot) (hs : 0 < x.free) :
    Dispatches x { x with free := x.free - 1, dispatch := .asking t }
  | fallAsleep {t} (hd : x.dispatch = .choosing t .slot) (hs : x.free = 0) :
    Dispatches x { x with dispatch := .choosing t .asleep }
  | wake {t} (hd : x.dispatch = .choosing t .asleep)
      (hw : x.cancelled = true ∨ x.finished ≠ [] ∨ 0 < x.free) :
    Dispatches x { x with dispatch := .choosing t .cancel }
  | forward {k id r rest} (hd : LooksForWorkers x.dispatch k)
      (hf : x.finished = (id, .done r) :: rest) :
    Dispatches x { x with
      finished := rest
      inFlight := x.inFlight.filter (fun f => f.1 != id)
      dispatch := .delivering r true k }
  | recover {k id words rest t} (hd : LooksForWorkers x.dispatch k)
      (hf : x.finished = (id, .aborted words) :: rest) (ht : x.inFlight.lookup id = some t) :
    Dispatches x { x with
      finished := rest
      inFlight := x.inFlight.filter (fun f => f.1 != id)
      happenings := .taskFailed t.origin 0 (abortFailure words) :: x.happenings
      dispatch := .delivering (.failure t (abortFailure words) 0) false k }
  | forget {k id words rest} (hd : LooksForWorkers x.dispatch k)
      (hf : x.finished = (id, .aborted words) :: rest) (ht : x.inFlight.lookup id = none) :
    Dispatches x { x with
      finished := rest
      inFlight := x.inFlight.filter (fun f => f.1 != id)
      dispatch := k.target }
  | ask {t} (hd : x.dispatch = .asking t) (he : x.aggregator.hasEnded = false)
      (hr : x.inbox.queries.length < Inbox.room) :
    Dispatches x { x with
      inbox := { x.inbox with queries := x.inbox.queries ++ [.decide t] }
      dispatch := .waiting t }
  | spawn {t reply} (hl : LearnsToProceed x t reply) :
    Dispatches x { x with
      reply := reply
      dispatch := .ready
      workers := x.workers ++ [⟨x.nextId, t, .spawned⟩]
      inFlight := x.inFlight ++ [(x.nextId, t)]
      nextId := x.nextId + 1 }
  | bypass {t} (hd : x.dispatch = .waiting t) (hr : x.reply = some (.decision .bypass)) :
    Dispatches x { x with
      reply := none
      free := x.free + 1
      happenings := .taskSkipped t.origin none :: x.happenings
      dispatch := .delivering (.skip t none) false .next }
  | skip {t reason} (hd : x.dispatch = .waiting t)
      (hr : x.reply = some (.decision (.skip reason))) :
    Dispatches x { x with
      reply := none
      free := x.free + 1
      happenings := .taskSkipped t.origin (some reason) :: x.happenings
      dispatch := .delivering (.skip t (some reason)) false .next }
  | deliver {r freesSlot k} (hd : x.dispatch = .delivering r freesSlot k)
      (he : x.aggregator.hasEnded = false) (hr : x.inbox.results.length < Inbox.room) :
    Dispatches x { x with
      inbox := { x.inbox with results := x.inbox.results ++ [r] }
      sent := r :: x.sent
      free := if freesSlot then x.free + 1 else x.free
      dispatch := k.target }
  | deliverInVain {r freesSlot k} (hd : x.dispatch = .delivering r freesSlot k)
      (he : x.aggregator.hasEnded = true) :
    Dispatches x { x with
      sent := r :: x.sent
      free := if freesSlot then x.free + 1 else x.free
      dispatch := k.target }
  | discard {t ts} (hd : x.dispatch = .discarding) (hp : x.pending = t :: ts) :
    Dispatches x { x with
      pending := ts
      happenings := .taskSkipped t.origin (some cancelledReason) :: x.happenings
      dispatch := .delivering (.skip t (some cancelledReason)) false .discard }
  | discarded (hd : x.dispatch = .discarding) (hp : x.pending = []) :
    Dispatches x { x with dispatch := .draining }
  | finish (hd : x.dispatch = .draining) (hf : x.finished = []) (hw : x.workers = []) :
    Dispatches x { x with dispatch := .ended, inbox := { x.inbox with resultsOpen := false } }
  | close (hd : x.dispatch = .broken) (ho : x.inbox.resultsOpen = true) :
    Dispatches x { x with inbox := { x.inbox with resultsOpen := false } }

theorem dispatches_reap {id : Nat} {e : Exit} {rest : List (Nat × Exit)} {k : Resume}
    (hd : LooksForWorkers x.dispatch k) (hf : x.finished = (id, e) :: rest) :
    Dispatches x ({ x with finished := rest }.reap id e k) := by
  cases e with
  | done r => exact .forward hd hf
  | aborted words =>
      cases ht : x.inFlight.lookup id with
      | none =>
          simp only [State.reap, ht, State.resume_eq]
          exact .forget hd hf ht
      | some t =>
          simp only [State.reap, ht]
          exact .recover hd hf ht

theorem dispatches_carryOut {t : Task} {d : Decision} (hd : x.dispatch = .waiting t)
    (hr : x.reply = some (.decision d)) :
    Dispatches x ({ x with reply := none }.carryOut t d) := by
  cases d with
  | proceed => exact .spawn (.told hd hr)
  | bypass => exact .bypass hd hr
  | skip reason => exact .skip hd hr

theorem dispatches_of_dispatchStep? (h : x.dispatchStep? = some y) : Dispatches x y := by
  unfold State.dispatchStep? at h
  split at h
  · rename_i hd
    split at h
    · rename_i hp
      cases h
      exact .takeUp hd hp
    · rename_i hp
      cases h
      exact .runOut hd hp
  · rename_i t hd
    split at h
    · rename_i hc
      cases h
      exact .giveUp hd hc
    · rename_i hc
      cases h
      exact .goOn hd (by simpa using hc)
  · rename_i t hd
    split at h
    · rename_i hf
      cases h
      exact dispatches_reap (hd ▸ .choosing t) hf
    · rename_i hf
      cases h
      exact .noneOver hd hf
  · rename_i t hd
    split at h
    · rename_i hs
      cases h
      exact .acquire hd hs
    · rename_i hs
      cases h
      exact .fallAsleep hd (by omega)
  · rename_i t hd
    split at h
    · rename_i hw
      cases h
      exact .wake hd (by simpa [or_assoc] using hw)
    · cases h
  · rename_i t hd
    split at h
    · rename_i he
      cases h
      exact .spawn (.unasked hd he)
    · rename_i he
      split at h
      · rename_i hr
        cases h
        exact .ask hd (by simpa using he) hr
      · cases h
  · rename_i t hd
    split at h
    · rename_i d hr
      cases h
      exact dispatches_carryOut hd hr
    · rename_i hr
      cases h
      exact .spawn (.misled hd hr)
    · rename_i hr
      split at h
      · rename_i he
        cases h
        exact .spawn (.unanswered hd hr he)
      · cases h
  · rename_i r freesSlot k hd
    cases he : x.aggregator.hasEnded with
    | true =>
        simp only [he, if_true, Option.some.injEq] at h
        subst h
        cases freesSlot <;> rw [State.resume_eq] <;> exact .deliverInVain hd he
    | false =>
        simp only [he, Bool.false_eq_true, if_false, Option.ite_none_right_eq_some,
          Option.some.injEq] at h
        obtain ⟨hr, rfl⟩ := h
        cases freesSlot <;> rw [State.resume_eq] <;> exact .deliver hd he hr
  · rename_i hd
    split at h
    · rename_i hp
      cases h
      exact .discard hd hp
    · rename_i hp
      cases h
      exact .discarded hd hp
  · rename_i hd
    split at h
    · rename_i hf
      cases h
      exact dispatches_reap (hd ▸ .draining) hf
    · rename_i hf
      split at h
      · rename_i hw
        cases h
        exact .finish hd hf (by simpa using hw)
      · cases h
  · cases h
  · rename_i hd
    split at h
    · rename_i ho
      cases h
      exact .close hd ho
    · cases h

/-! ## The workers -/

/-- A worker in its new phase, if it is the one that is meant. -/
def Worker.inPhase (id : Nat) (p : Phase) (w : Worker) : Worker :=
  if w.id == id then { w with phase := p } else w

@[simp] theorem Worker.inPhase_id (id : Nat) (p : Phase) (w : Worker) :
    (w.inPhase id p).id = w.id := by
  unfold inPhase
  split <;> rfl

@[simp] theorem Worker.inPhase_task (id : Nat) (p : Phase) (w : Worker) :
    (w.inPhase id p).task = w.task := by
  unfold inPhase
  split <;> rfl

theorem Worker.inPhase_self (w : Worker) (p : Phase) :
    w.inPhase w.id p = { w with phase := p } := if_pos (beq_self_eq_true _)

theorem Worker.inPhase_of_ne {id : Nat} {w : Worker} (h : w.id ≠ id) (p : Phase) :
    w.inPhase id p = w := if_neg (by simpa using h)

theorem Worker.map_id_inPhase (ws : List Worker) (id : Nat) (p : Phase) :
    (ws.map (inPhase id p)).map Worker.id = ws.map Worker.id := by
  simp [Function.comp_def]

/-- The others stay as they are when one worker gets into a new phase. -/
theorem Worker.mem_map_inPhase_iff {ws : List Worker} {id : Nat} {v : Worker} (h : v.id ≠ id)
    (p : Phase) : v ∈ ws.map (inPhase id p) ↔ v ∈ ws := by
  rw [List.mem_map]
  constructor
  · rintro ⟨u, hu, rfl⟩
    rw [inPhase_id] at h
    rwa [inPhase_of_ne h]
  · exact fun hv => ⟨v, hv, inPhase_of_ne h p⟩

theorem State.mem_of_worker? {id : Nat} {w : Worker} (h : x.worker? id = some w) :
    w ∈ x.workers ∧ w.id = id :=
  ⟨List.mem_of_find?_eq_some h, by simpa using List.find?_some h⟩

/-- The rules by which workers move on, and what comes from outside with them. -/
inductive Works (s : Settings) (x : State) : Label → State → Prop where
  | begin {w} (hw : w ∈ x.workers) (hp : w.phase = .spawned) :
    Works s x (.begin w.id) { x with
      workers := x.workers.map (Worker.inPhase w.id (.calling 1))
      happenings := .taskStarted w.task.origin 1 :: x.happenings
      calls := ⟨w.id, w.task, 1⟩ :: x.calls }
  | finish {w k a h e} (hw : w ∈ x.workers) (hp : w.phase = .calling k)
      (ha : react s x.cancelled w.task k a = .finish h e) :
    Works s x (.answer w.id a) { x with
      workers := x.workers.map (Worker.inPhase w.id (.over e))
      happenings := h :: x.happenings }
  | pause {w k a h wait f} (hw : w ∈ x.workers) (hp : w.phase = .calling k)
      (ha : react s x.cancelled w.task k a = .pause h wait f) :
    Works s x (.answer w.id a) { x with
      workers := x.workers.map (Worker.inPhase w.id (.pausing k wait f))
      happenings := h :: x.happenings }
  | abort {w k a words} (hw : w ∈ x.workers) (hp : w.phase = .calling k)
      (ha : react s x.cancelled w.task k a = .abort words) :
    Works s x (.answer w.id a) { x with
      free := x.free + 1
      workers := x.workers.map (Worker.inPhase w.id (.over (.aborted words))) }
  | wake {w k wait f} (hw : w ∈ x.workers) (hp : w.phase = .pausing k wait f) :
    Works s x (.wake w.id) { x with
      workers := x.workers.map (Worker.inPhase w.id (.calling (k + 1)))
      happenings := .taskStarted w.task.origin (k + 1) :: x.happenings
      calls := ⟨w.id, w.task, k + 1⟩ :: x.calls }
  | giveUp {w k wait f} (hw : w ∈ x.workers) (hp : w.phase = .pausing k wait f)
      (hc : x.cancelled = true) :
    Works s x (.giveUp w.id) { x with
      workers := x.workers.map (Worker.inPhase w.id (.over (giveUp w.task k f).2))
      happenings := (giveUp w.task k f).1 :: x.happenings }
  | settle {w e} (hw : w ∈ x.workers) (hp : w.phase = .over e) :
    Works s x (.settle w.id) { x with
      workers := x.workers.filter (fun v => v.id != w.id)
      finished := x.finished ++ [(w.id, e)] }

theorem works_answer {w : Worker} {k : Nat} (a : Answer) (hw : w ∈ x.workers)
    (hp : w.phase = .calling k) : Works s x (.answer w.id a) (x.answer s w k a) := by
  unfold State.answer
  split
  · rename_i ha
    exact .finish hw hp ha
  · rename_i ha
    exact .pause hw hp ha
  · rename_i ha
    exact .abort hw hp ha

/-! ## Everyone -/

/-- The rules by which a run moves on. -/
inductive Moves (s : Settings) (x : State) : Label → State → Prop where
  | cancel (hc : x.cancelled = false) : Moves s x .cancel { x with cancelled := true }
  | dispatcher {y : State} (h : Dispatches x y) : Moves s x .dispatcher y
  | aggregator {a i reply} (h : Aggregator.Steps x.aggregator x.inbox a i reply) :
    Moves s x .aggregator { x with aggregator := a, inbox := i, reply := reply <|> x.reply }
  | worker {l : Label} {y : State} (h : Works s x l y) : Moves s x l y

theorem moves_of_step? {l : Label} (h : step? s x l = some y) : Moves s x l y := by
  cases l with
  | cancel =>
      simp only [step?] at h
      split at h
      · cases h
      · rename_i hc
        cases h
        exact .cancel (by simpa using hc)
  | dispatcher => exact .dispatcher (dispatches_of_dispatchStep? h)
  | aggregator =>
      simp only [step?, State.aggregatorStep?, Option.map_eq_some_iff] at h
      obtain ⟨⟨a, i, reply⟩, ha, rfl⟩ := h
      exact .aggregator (Aggregator.steps_of_step? ha)
  | begin id =>
      simp only [step?] at h
      split at h
      · rename_i w hw
        obtain ⟨hm, rfl⟩ := State.mem_of_worker? hw
        split at h
        · rename_i hp
          cases h
          exact .worker (.begin hm hp)
        · cases h
      · cases h
  | answer id a =>
      simp only [step?] at h
      split at h
      · rename_i w hw
        obtain ⟨hm, rfl⟩ := State.mem_of_worker? hw
        split at h
        · rename_i hp
          cases h
          exact .worker (works_answer a hm hp)
        · cases h
      · cases h
  | wake id =>
      simp only [step?] at h
      split at h
      · rename_i w hw
        obtain ⟨hm, rfl⟩ := State.mem_of_worker? hw
        split at h
        · rename_i hp
          cases h
          exact .worker (.wake hm hp)
        · cases h
      · cases h
  | giveUp id =>
      simp only [step?] at h
      split at h
      · rename_i w hw
        obtain ⟨hm, rfl⟩ := State.mem_of_worker? hw
        split at h
        · rename_i hp
          split at h
          · rename_i hc
            cases h
            exact .worker (.giveUp hm hp hc)
          · cases h
        · cases h
      · cases h
  | settle id =>
      simp only [step?] at h
      split at h
      · rename_i w hw
        obtain ⟨hm, rfl⟩ := State.mem_of_worker? hw
        split at h
        · rename_i hp
          cases h
          exact .worker (.settle hm hp)
        · cases h
      · cases h

theorem State.dispatch_start (s : Settings) (set : TaskSet) (policy : SkipPolicy)
    (cancelled : Bool) : (State.start s set policy cancelled).dispatch = .ready ∨
      (State.start s set policy cancelled).dispatch = .broken := by
  by_cases hbound : slotBound < s.slots
  · exact .inr (if_pos hbound)
  · exact .inl (if_neg hbound)

/-- What holds at the start and after every move holds throughout. -/
theorem Reachable.induction {set : TaskSet} {policy : SkipPolicy} {cancelled : Bool}
    {P : State → Prop} (start : P (State.start s set policy cancelled))
    (move : ∀ {x l y}, Reachable s set policy cancelled x → P x → Moves s x l y → P y)
    (h : Reachable s set policy cancelled x) : P x := by
  induction h with
  | start => exact start
  | step hx hs ih => exact move hx ih (moves_of_step? hs)

theorem steps?_append (s : Settings) (x : State) (ls ls' : List Label) :
    steps? s x (ls ++ ls') = (steps? s x ls).bind (fun y => steps? s y ls') := by
  induction ls generalizing x with
  | nil => rfl
  | cons l ls ih =>
      rw [List.cons_append, steps?, steps?]
      cases step? s x l with
      | none => rfl
      | some z => exact ih z

/-- What holds at the end of a sequence of steps, and before each step if it holds behind it, holds
at its start. -/
theorem steps?_induction {P : State → List Label → Prop} (nil : P y [])
    (cons : ∀ {x z l ls}, step? s x l = some z → P z ls → P x (l :: ls)) {ls : List Label}
    (h : steps? s x ls = some y) : P x ls := by
  induction ls generalizing x with
  | nil =>
      cases h
      exact nil
  | cons l ls ih =>
      simp only [steps?, Option.bind_eq_some_iff] at h
      obtain ⟨z, hz, h⟩ := h
      exact cons hz (ih h)

section

variable {set : TaskSet} {policy : SkipPolicy} {cancelled : Bool} {ls : List Label}

theorem Reachable.of_steps? (hx : Reachable s set policy cancelled x)
    (h : steps? s x ls = some y) : Reachable s set policy cancelled y := by
  refine steps?_induction (P := fun x _ => Reachable s set policy cancelled x →
    Reachable s set policy cancelled y) id ?_ h hx
  intro x z l ls hz ih hx
  exact ih (hx.step hz)

theorem Reachable.steps_induction {P : State → List Label → Prop} (nil : P y [])
    (cons : ∀ {x z l ls}, Reachable s set policy cancelled x → Moves s x l z → P z ls →
      P x (l :: ls))
    (hx : Reachable s set policy cancelled x) (h : steps? s x ls = some y) : P x ls := by
  refine steps?_induction (P := fun x ls => Reachable s set policy cancelled x → P x ls)
    (fun _ => nil) ?_ h hx
  intro x z l ls hz ih hx
  exact cons hx (moves_of_step? hz) (ih (hx.step hz))

end

end ImageBatch.Engine
