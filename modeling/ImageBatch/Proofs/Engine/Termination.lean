import ImageBatch.Proofs.Engine.Slots
import ImageBatch.Proofs.Engine.Stream
import Mathlib.Algebra.BigOperators.Group.List.Basic
import Mathlib.Algebra.GroupWithZero.Nat

/-!
# Runs are finite

Every step of a run takes effort. A task that waits for its turn stands for the looks of the
dispatcher, the question about the task, its worker with all calls that are left to it, and its
result. So a run takes no more steps than the effort of its state.
-/

namespace ImageBatch

/-! ## The aggregator -/

namespace Aggregator

/-- An aggregator that listens in vain goes to sleep before it looks for results again. -/
def Phase.effort (i : Inbox) : Phase → Nat
  | .polling => 2
  | .listening => if i.queries = [] ∧ i.stirs then 4 else 1
  | .asleep => if i.stirs then 3 else 0
  | .answering _ => 3
  | .finished => 0
  | .incomplete => 0

/-- What is left to do for the aggregator with all that waits for it. -/
def effort (a : Aggregator) (i : Inbox) : Nat :=
  i.results.length + 3 * i.queries.length + a.phase.effort i

variable {a b : Aggregator} {i j : Inbox} {reply : Option Reply}

theorem effort_settledPhase_le (n m : Nat) (i : Inbox) : (settledPhase n m).effort i ≤ 2 := by
  unfold settledPhase
  split <;> simp [Phase.effort]

/-- Whatever comes for the aggregator, at most it has to be woken. -/
theorem Phase.effort_le (p : Phase) (i j : Inbox) : p.effort j ≤ p.effort i + 3 := by
  cases p with
  | listening | asleep =>
      simp only [effort]
      split <;> split <;> omega
  | _ => exact Nat.le_add_right _ _

theorem Steps.effort_lt (h : a.Steps i b j reply) : b.effort j < a.effort i := by
  cases h with
  | @take r rs hp hr =>
      have hle := effort_settledPhase_le (a.tally.add a.set r).received a.expected
        { i with results := rs }
      simp only [effort, Aggregator.take, hp, hr, List.length_cons, Phase.effort] at hle ⊢
      omega
  | listen hp hr ho => simp [effort, Phase.effort, hp, hr, ho, Inbox.stirs]
  | breakOff hp hr ho => simp [effort, Phase.effort, hp]
  | hear hp hq =>
      simp only [effort, Phase.effort, hp, hq, List.length_cons, List.cons_ne_nil, false_and,
        if_false]
      omega
  | rest hp hq => by_cases hs : i.stirs <;> simp [effort, Phase.effort, hp, hq, hs]
  | wake hp hi => simp [effort, Phase.effort, hp, hi]
  | catchUp hp hr hlt =>
      simp only [effort, takeQuietly, Phase.effort, hp, hr, List.length_cons]
      omega
  | answer hp hi =>
      have hle := effort_settledPhase_le a.tally.received a.expected i
      have hthree : a.phase.effort i = 3 := by rw [hp]; rfl
      simp only [effort]
      omega

theorem effort_send_le (a : Aggregator) (i : Inbox) (r : Result) :
    a.effort { i with results := i.results ++ [r] } ≤ a.effort i + 4 := by
  have hle := a.phase.effort_le i { i with results := i.results ++ [r] }
  simp only [effort, List.length_append, List.length_singleton]
  omega

theorem effort_ask_le (a : Aggregator) (i : Inbox) (q : Query) :
    a.effort { i with queries := i.queries ++ [q] } ≤ a.effort i + 6 := by
  have hle := a.phase.effort_le i { i with queries := i.queries ++ [q] }
  simp only [effort, List.length_append, List.length_singleton]
  omega

theorem effort_close_le (a : Aggregator) (i : Inbox) :
    a.effort { i with resultsOpen := false } ≤ a.effort i + 3 := by
  have hle := a.phase.effort_le i { i with resultsOpen := false }
  simp only [effort]
  omega

end Aggregator

namespace Engine

variable {s : Settings} {set : TaskSet} {policy : SkipPolicy} {cancelled : Bool} {x y : State}
  {l : Label}

/-! ## Effort -/

/-- The calls that are left, and the end of the worker, which the dispatcher has to notice. -/
def Phase.effort (s : Settings) : Phase → Nat
  | .spawned => 2 * s.maxAttempts + 18
  | .calling k => 2 * (s.maxAttempts - k) + 17
  | .pausing k _ _ => 2 * (s.maxAttempts - k) + 16
  | .over _ => 12

def Worker.effort (s : Settings) (w : Worker) : Nat := w.phase.effort s

/-- The dispatcher that waits for a slot has a reason to wake up. -/
def State.stirs (x : State) : Prop := x.cancelled = true ∨ x.finished ≠ [] ∨ 0 < x.free

instance (x : State) : Decidable x.stirs := inferInstanceAs (Decidable (_ ∨ _))

/-- How many looks there are at most until one is not in vain. The dispatcher does not notice at
once what has happened since it last looked there. -/
def Look.effort (x : State) : Look → Nat
  | .cancel => 3
  | .join => if x.cancelled = true ∧ x.finished = [] ∧ x.free = 0 then 6 else 2
  | .slot => if x.stirs ∧ x.free = 0 then 5 else 1
  | .asleep => if x.stirs then 4 else 0

def Resume.effort (s : Settings) : Resume → Nat
  | .next => 5
  | .choose _ => 2 * s.maxAttempts + 34
  | .discard => 5
  | .drain => 4

/-- What is left to do for the dispatcher with the task that it holds. -/
def Dispatch.effort (s : Settings) (x : State) : Dispatch → Nat
  | .ready => 5
  | .choosing _ look => look.effort x + (2 * s.maxAttempts + 31)
  | .asking _ => 2 * s.maxAttempts + 31
  | .waiting _ => 2 * s.maxAttempts + 24
  | .delivering _ _ k => k.effort s + 5
  | .discarding => 5
  | .draining => 4
  | .ended => 0
  | .broken => if x.inbox.resultsOpen then 4 else 0

/-- What is left to do in a run, which may still be cancelled. -/
def State.effort (s : Settings) (x : State) : Nat :=
  x.dispatch.effort s x + (2 * s.maxAttempts + 30) * x.pending.length +
    (x.workers.map (Worker.effort s)).sum + 7 * x.finished.length +
    x.aggregator.effort x.inbox + if x.cancelled then 0 else 5

/-- Whatever happens meanwhile, the dispatcher has at most to go round once more. -/
theorem Look.effort_le (look : Look) (x y : State) : look.effort y ≤ look.effort x + 4 := by
  cases look with
  | cancel => exact Nat.le_add_right _ _
  | join | slot | asleep =>
      simp only [effort]
      split <;> split <;> omega

theorem Look.effort_slot_lt (hf : x.finished = []) : Look.slot.effort x < Look.join.effort x := by
  by_cases hfree : x.free = 0
  · by_cases hc : x.cancelled = true <;> simp [effort, State.stirs, hf, hfree, hc]
  · simp [effort, hfree]

theorem Look.effort_asleep_lt (hs : x.free = 0) : Look.asleep.effort x < Look.slot.effort x := by
  by_cases hstirs : x.stirs <;> simp [effort, hs, hstirs]

theorem Dispatch.effort_le (s : Settings) (d : Dispatch) (x y : State) :
    d.effort s y ≤ d.effort s x + 4 := by
  cases d with
  | choosing t look =>
      have hle := look.effort_le x y
      simp only [effort]
      omega
  | broken =>
      simp only [effort]
      split <;> split <;> omega
  | _ => exact Nat.le_add_right _ _

/-- Only a dispatcher that is broken looks at what waits for the aggregator. -/
theorem Dispatch.effort_inbox (s : Settings) (d : Dispatch) (reply : Option Reply)
    (a : Aggregator) {i : Inbox} (ho : i.resultsOpen = x.inbox.resultsOpen) :
    d.effort s { x with aggregator := a, inbox := i, reply := reply } = d.effort s x := by
  cases d with
  | broken => simp only [effort, ho]
  | _ => rfl

theorem Dispatch.effort_delivering (s : Settings) (x : State) (r : Result) (b : Bool) (k : Resume) :
    (Dispatch.delivering r b k).effort s x = k.effort s + 5 := rfl

theorem Resume.effort_target (k : Resume) : k.target.effort s x = k.effort s := by
  cases k with
  | choose t =>
      simp only [target, Dispatch.effort, Look.effort, effort]
      omega
  | next | discard | drain => rfl

theorem LooksForWorkers.effort_lt {d : Dispatch} {k : Resume} (h : LooksForWorkers d k)
    (hf : x.finished ≠ []) : k.effort s < d.effort s x + 2 := by
  cases h with
  | choosing t =>
      simp only [Dispatch.effort, Look.effort, Resume.effort, hf, false_and, and_false, if_false]
      omega
  | draining => simp [Dispatch.effort, Resume.effort]

/-! ## Every step takes effort -/

theorem Dispatches.effort_lt (h : Dispatches x y) : y.effort s < x.effort s := by
  cases h with
  | takeUp hd hp =>
      simp only [State.effort, hd, hp, List.length_cons, Nat.mul_succ, Dispatch.effort, Look.effort]
      omega
  | discard hd hp =>
      simp only [State.effort, hd, hp, List.length_cons, Nat.mul_succ, Dispatch.effort,
        Resume.effort]
      omega
  | runOut hd | discarded hd | bypass hd | skip hd =>
      simp only [State.effort, hd, Dispatch.effort, Resume.effort]
      omega
  | giveUp hd =>
      simp only [State.effort, hd, Dispatch.effort, Look.effort, Resume.effort]
      omega
  | goOn hd hc =>
      simp [State.effort, hd, hc, Dispatch.effort, Look.effort]
  | @noneOver t hd hf =>
      have hlt : Look.slot.effort { x with dispatch := .choosing t .slot } < Look.join.effort x :=
        Look.effort_slot_lt hf
      simp only [State.effort, hd, Dispatch.effort]
      omega
  | acquire hd hs =>
      have hne : x.free ≠ 0 := by omega
      simp only [State.effort, hd, hne, Dispatch.effort, Look.effort, and_false, if_false]
      omega
  | @fallAsleep t hd hs =>
      have hlt : Look.asleep.effort { x with dispatch := .choosing t .asleep } <
        Look.slot.effort x := Look.effort_asleep_lt hs
      simp only [State.effort, hd, Dispatch.effort]
      omega
  | wake hd hw =>
      have hstirs : x.stirs := hw
      simp only [State.effort, hd, Dispatch.effort, Look.effort, if_pos hstirs]
      omega
  | forward hd hf | recover hd hf =>
      have hlt := hd.effort_lt (s := s) (x := x) (by simp [hf])
      simp only [State.effort, hf, List.length_cons, Dispatch.effort_delivering]
      omega
  | forget hd hf =>
      have hlt := hd.effort_lt (s := s) (x := x) (by simp [hf])
      simp only [State.effort, hf, List.length_cons, Resume.effort_target]
      omega
  | @ask t hd he hr =>
      have hle := x.aggregator.effort_ask_le x.inbox (.decide t)
      simp only [State.effort, hd, Dispatch.effort]
      omega
  | spawn hl =>
      simp only [State.effort, List.map_append, List.sum_append, List.map_cons, List.map_nil,
        List.sum_singleton, Worker.effort, Phase.effort]
      rcases hl.dispatch_eq with hd | hd <;> simp only [hd, Dispatch.effort] <;> omega
  | @deliver r freesSlot k hd he hr =>
      have hle := x.aggregator.effort_send_le x.inbox r
      simp only [State.effort, hd, Resume.effort_target, Dispatch.effort_delivering]
      omega
  | deliverInVain hd he =>
      simp only [State.effort, hd, Resume.effort_target, Dispatch.effort_delivering]
      omega
  | finish hd hf hw =>
      have hle := x.aggregator.effort_close_le x.inbox
      simp only [State.effort, hd, Dispatch.effort]
      omega
  | close hd ho =>
      have hle := x.aggregator.effort_close_le x.inbox
      simp only [State.effort, hd, ho, Dispatch.effort, if_true, Bool.false_eq_true, if_false]
      omega

/-- A worker that waits has a call left. -/
def State.KeepsTries (s : Settings) (x : State) : Prop :=
  ∀ w ∈ x.workers, ∀ k wait f, w.phase = .pausing k wait f → k < s.maxAttempts

theorem lt_of_react {c : Bool} {t : Task} {k : Nat} {a : Answer} {h : Happening} {wait : Span}
    {f : Failure} (hr : react s c t k a = .pause h wait f) : k < s.maxAttempts := by
  cases a with
  | success | panic words => simp [react] at hr
  | failure f =>
      simp only [react] at hr
      split at hr
      · cases hr
      · rename_i hlast
        simp only [Bool.or_eq_true, decide_eq_true_eq, not_or] at hlast
        omega

theorem Worker.mem_or_phase_eq {ws : List Worker} {id : Nat} {p : Phase} {v : Worker}
    (hv : v ∈ ws.map (Worker.inPhase id p)) : v ∈ ws ∨ v.phase = p := by
  obtain ⟨w, hw, rfl⟩ := List.mem_map.mp hv
  unfold inPhase
  split
  · exact .inr rfl
  · exact .inl hw

theorem Works.keepsTries (h : Works s x l y) (hx : x.KeepsTries s) : y.KeepsTries s := by
  intro v hv k wait f hp
  cases h with
  | settle hw => exact hx v (List.mem_filter.mp hv).1 k wait f hp
  | pause hw hp' ha =>
      rcases Worker.mem_or_phase_eq hv with hv | he
      · exact hx v hv k wait f hp
      · cases hp.symm.trans he
        exact lt_of_react ha
  | begin hw | finish hw | abort hw | wake hw | giveUp hw =>
      rcases Worker.mem_or_phase_eq hv with hv | he
      · exact hx v hv k wait f hp
      · cases hp.symm.trans he

theorem Reachable.keepsTries (h : Reachable s set policy cancelled x) : x.KeepsTries s := by
  refine Reachable.induction (P := State.KeepsTries s) ?_ ?_ h
  · simp [State.KeepsTries, State.start]
  · intro x l y hx ih hm
    cases hm with
    | cancel hc => exact ih
    | aggregator hm => exact ih
    | worker hm => exact hm.keepsTries ih
    | dispatcher hm =>
        cases hm with
        | spawn hl =>
            intro w hw k wait f hp
            rcases List.mem_append.mp hw with hw | hw
            · exact ih w hw k wait f hp
            · cases List.mem_singleton.mp hw
              cases hp
        | _ => exact ih

namespace State.HasRoster

theorem sum_workers (hx : x.HasRoster) {w : Worker} (hw : w ∈ x.workers) (f : Worker → Nat) :
    (x.workers.map f).sum = f w + ((x.workers.filter (fun v => v.id != w.id)).map f).sum := by
  have hperm := (perm_cons_filter Worker.id hx.nodup_workers hw).map f
  rw [hperm.sum_eq, List.map_cons, List.sum_cons]

theorem sum_inPhase (hx : x.HasRoster) {w : Worker} (hw : w ∈ x.workers) (phase : Phase)
    (f : Worker → Nat) : ((x.workers.map (Worker.inPhase w.id phase)).map f).sum =
      f { w with phase := phase } +
        ((x.workers.filter (fun v => v.id != w.id)).map f).sum := by
  have hperm := (hx.perm_inPhase hw phase).map f
  rw [hperm.sum_eq, List.map_cons, List.sum_cons]

end State.HasRoster

/-- A step of a worker takes effort if the dispatcher has less to do on account of it. -/
theorem State.HasRoster.effort_lt (hr : x.HasRoster) {w : Worker} (hw : w ∈ x.workers)
    {phase : Phase} (hworkers : y.workers = x.workers.map (Worker.inPhase w.id phase))
    (hpending : y.pending = x.pending) (hfinished : y.finished = x.finished)
    (haggregator : y.aggregator = x.aggregator) (hinbox : y.inbox = x.inbox)
    (hcancelled : y.cancelled = x.cancelled)
    (hlt : y.dispatch.effort s y + phase.effort s < x.dispatch.effort s x + w.phase.effort s) :
    y.effort s < x.effort s := by
  have hx := hr.sum_workers hw (Worker.effort s)
  have hy := hr.sum_inPhase hw phase (Worker.effort s)
  have hbefore : w.effort s = w.phase.effort s := rfl
  have hafter : Worker.effort s { w with phase := phase } = phase.effort s := rfl
  unfold State.effort
  rw [hworkers, hpending, hfinished, haggregator, hinbox, hcancelled]
  omega

theorem Works.effort_lt (h : Works s x l y) (hr : x.HasRoster) (hx : x.KeepsTries s) :
    y.effort s < x.effort s := by
  cases h with
  | begin hw hp | finish hw hp | pause hw hp | giveUp hw hp =>
      refine hr.effort_lt hw rfl rfl rfl rfl rfl rfl (Nat.add_lt_add_left ?_ _)
      rw [hp]
      simp only [Phase.effort]
      omega
  | wake hw hp =>
      have hlt := hx _ hw _ _ _ hp
      refine hr.effort_lt hw rfl rfl rfl rfl rfl rfl (Nat.add_lt_add_left ?_ _)
      rw [hp]
      simp only [Phase.effort]
      omega
  | @abort w k a words hw hp ha =>
      refine hr.effort_lt hw rfl rfl rfl rfl rfl rfl ?_
      have hle := x.dispatch.effort_le s x { x with
        free := x.free + 1
        workers := x.workers.map (Worker.inPhase w.id (.over (.aborted words))) }
      rw [hp]
      simp only [Phase.effort]
      omega
  | @settle w e hw hp =>
      have hle := x.dispatch.effort_le s x { x with
        workers := x.workers.filter (fun v => v.id != w.id)
        finished := x.finished ++ [(w.id, e)] }
      have hsum := hr.sum_workers hw (Worker.effort s)
      have hover : w.effort s = 12 := by rw [Worker.effort, hp]; rfl
      simp only [State.effort, List.length_append, List.length_singleton]
      omega

theorem Moves.effort_lt (h : Moves s x l y) (hr : x.HasRoster) (hx : x.KeepsTries s) :
    y.effort s < x.effort s := by
  cases h with
  | cancel hc =>
      have hle := x.dispatch.effort_le s x { x with cancelled := true }
      simp only [State.effort, hc, if_true, Bool.false_eq_true, if_false]
      omega
  | dispatcher h => exact h.effort_lt
  | @aggregator a i reply h =>
      have hlt := h.effort_lt
      have hsame := x.dispatch.effort_inbox s (reply <|> x.reply) a (resultsOpen_of_steps h)
      simp only [State.effort, hsame]
      omega
  | worker h => exact h.effort_lt hr hx

theorem Reachable.length_add_effort_le {ls : List Label} (h : Reachable s set policy cancelled x)
    (hs : steps? s x ls = some y) : ls.length + y.effort s ≤ x.effort s := by
  refine Reachable.steps_induction (P := fun x ls => ls.length + y.effort s ≤ x.effort s) ?_ ?_ h hs
  · exact Nat.le_of_eq (Nat.zero_add _)
  · intro x z l ls hx hm ih
    have hlt := hm.effort_lt hx.hasRoster hx.keepsTries
    rw [List.length_cons]
    omega

/-- The effort of a whole run: so much for each task, and a little for the dispatcher, the
aggregator and the one who may cancel the run. -/
theorem State.effort_start_le (s : Settings) (set : TaskSet) (policy : SkipPolicy)
    (cancelled : Bool) : (State.start s set policy cancelled).effort s ≤
      (2 * s.maxAttempts + 30) * set.tasks.length + 12 := by
  have hle := Aggregator.effort_settledPhase_le 0 set.tasks.length ⟨[], true, []⟩
  have hdispatch : (State.start s set policy cancelled).dispatch.effort s
      (State.start s set policy cancelled) ≤ 5 := by
    rcases State.dispatch_start s set policy cancelled with hd | hd <;> rw [hd]
    · exact Nat.le_refl _
    · exact Nat.le_succ 4
  unfold State.effort
  have hcancel : (if (State.start s set policy cancelled).cancelled then 0 else 5) ≤ 5 := by
    split <;> omega
  simp only [State.start, Aggregator.effort, Aggregator.start, List.map_nil, List.sum_nil,
    List.length_nil] at hdispatch hcancel ⊢
  omega

end Engine

end ImageBatch
