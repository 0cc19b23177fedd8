import ImageBatch.Proofs.Engine.Consultation
import ImageBatch.Proofs.Engine.Termination

/-!
# Runs go on

No run gets stuck. As long as the aggregator has not returned, somebody can move: a worker that is
not over can always go on, and when there is no worker, a slot is free and the dispatcher and the
aggregator do not wait for each other. As runs are finite, too, every run can be brought to its end.
-/

namespace ImageBatch.Engine

variable {s : Settings} {set : TaskSet} {policy : SkipPolicy} {cancelled : Bool} {x y : State}
  {l : Label}

/-! ## The end of the dispatcher -/

/-- A dispatcher that has ended has closed the stream, and one is broken only if there are more
slots than can be counted. -/
structure State.LeavesOff (s : Settings) (x : State) : Prop where
  closed : x.dispatch = .ended → x.inbox.resultsOpen = false
  broken : x.dispatch = .broken → slotBound < s.slots

theorem Resume.target_ne_broken (k : Resume) : k.target ≠ .broken := by
  cases k <;> simp [Resume.target]

theorem Dispatches.leavesOff (h : Dispatches x y) (hx : x.LeavesOff s) : y.LeavesOff s := by
  cases h with
  | forget hd | deliver hd | deliverInVain hd =>
      exact ⟨fun he => (Resume.target_ne_ended _ he).elim,
        fun hb => (Resume.target_ne_broken _ hb).elim⟩
  | finish hd => exact ⟨fun _ => rfl, by simp⟩
  | close hd => exact ⟨fun _ => rfl, hx.broken⟩
  | _ => constructor <;> simp

theorem Reachable.leavesOff (h : Reachable s set policy cancelled x) : x.LeavesOff s := by
  refine Reachable.induction (P := State.LeavesOff s) ?_ ?_ h
  · simp only [State.start]
    split <;> constructor <;> simp_all
  · intro x l y hx ih hm
    cases hm with
    | cancel hc => exact ⟨ih.closed, ih.broken⟩
    | dispatcher hm => exact hm.leavesOff ih
    | aggregator hm => exact ⟨fun he => (resultsOpen_of_steps hm).trans (ih.closed he), ih.broken⟩
    | worker hm => cases hm <;> exact ⟨ih.closed, ih.broken⟩

/-! ## Too many slots -/

theorem Settings.slots_le_iff (s : Settings) : s.slots ≤ slotBound ↔ s.limit ≤ slotBound := by
  have hone : 1 ≤ slotBound := by decide
  unfold slots
  omega

/-- The dispatcher has broken off, and nobody has been hired. -/
structure State.NeverStarts (x : State) : Prop where
  dispatch : x.dispatch = .broken
  workers : x.workers = []
  sent : x.sent = []

theorem Dispatches.neverStarts (h : Dispatches x y) (hx : x.NeverStarts) : y.NeverStarts := by
  have hd := hx.dispatch
  cases h with
  | close _ ho => exact ⟨hd, hx.workers, hx.sent⟩
  | spawn hl => rcases hl.dispatch_eq with ht | ht <;> cases hd.symm.trans ht
  | forward hl | recover hl | forget hl =>
      rw [hd] at hl
      cases hl
  | _ => simp_all

theorem Moves.neverStarts (h : Moves s x l y) (hx : x.NeverStarts) : y.NeverStarts := by
  cases h with
  | cancel hc | aggregator hm => exact ⟨hx.dispatch, hx.workers, hx.sent⟩
  | dispatcher hm => exact hm.neverStarts hx
  | worker hm =>
      have hnone {w : Worker} (hw : w ∈ x.workers) : False := by
        rw [hx.workers] at hw
        cases hw
      cases hm with
      | begin hw | finish hw | pause hw | abort hw | wake hw | giveUp hw | settle hw =>
          exact (hnone hw).elim

theorem Reachable.neverStarts (h : Reachable s set policy cancelled x) (hs : slotBound < s.slots) :
    x.NeverStarts := by
  refine Reachable.induction (P := State.NeverStarts) ?_ (fun _ ih hm => hm.neverStarts ih) h
  exact ⟨if_pos hs, rfl, rfl⟩

theorem Reachable.broken_iff (h : Reachable s set policy cancelled x) :
    x.dispatch = .broken ↔ slotBound < s.slots :=
  ⟨h.leavesOff.broken, fun hs => (h.neverStarts hs).dispatch⟩

/-! ## Somebody can move -/

/-- A step that is not left to chance: nobody cancels the run, and a call is answered with what the
tool has for its worker. -/
def Label.Follows (tool : Nat → Answer) : Label → Prop
  | .cancel => False
  | .answer id a => a = tool id
  | _ => True

theorem State.exists_worker? {w : Worker} (hw : w ∈ x.workers) : ∃ v, x.worker? w.id = some v := by
  apply Option.isSome_iff_exists.mp
  rw [worker?, List.find?_isSome]
  exact ⟨w, hw, by simp⟩

theorem State.exists_work {w : Worker} (hw : w ∈ x.workers) (tool : Nat → Answer) :
    ∃ l, l.Follows tool ∧ (step? s x l).isSome = true := by
  obtain ⟨v, hv⟩ := exists_worker? hw
  cases hp : v.phase with
  | spawned => exact ⟨.begin w.id, trivial, by simp [step?, hv, hp]⟩
  | calling k => exact ⟨.answer w.id (tool w.id), rfl, by simp [step?, hv, hp]⟩
  | pausing k wait f => exact ⟨.wake w.id, trivial, by simp [step?, hv, hp]⟩
  | «over» e => exact ⟨.settle w.id, trivial, by simp [step?, hv, hp]⟩

theorem State.aggregatorStep_isSome (he : x.aggregator.hasEnded = false)
    (hw : x.aggregator.phase = .asleep → x.inbox.stirs) :
    (step? s x .aggregator).isSome = true := by
  obtain ⟨a, i, reply, ha⟩ := Aggregator.exists_step? he hw
  simp [step?, State.aggregatorStep?, ha]

/-- When nobody works and no worker is to be taken back, a slot is free, unless the dispatcher has
one. -/
theorem Reachable.free_pos (h : Reachable s set policy cancelled x) (hworkers : x.workers = [])
    (hfinished : x.finished = []) (hd : x.dispatch.slots = 0) : 0 < x.free := by
  have hkeeps := h.keepsSlots
  rw [State.KeepsSlots, State.taken, hworkers, hfinished, hd] at hkeeps
  simp only [List.countP_nil] at hkeeps
  unfold Settings.slots at hkeeps
  omega

/-- When nobody works and the aggregator sleeps, the dispatcher can move. -/
theorem Reachable.dispatchStep_isSome (h : Reachable s set policy cancelled x)
    (hworkers : x.workers = []) (hp : x.aggregator.phase = .asleep) (hs : ¬ x.inbox.stirs) :
    (step? s x .dispatcher).isSome = true := by
  obtain ⟨hresults, hopen, hqueries⟩ := not_not.mp hs
  have he : x.aggregator.hasEnded = false := by rw [Aggregator.hasEnded, hp]; rfl
  cases hd : x.dispatch with
  | asking t =>
      obtain ⟨y, hy, -⟩ := h.asks hd
      exact hy ▸ rfl
  -- Without an answer the question would be with the aggregator, which would not be asleep then.
  | waiting t =>
      cases hr : x.reply with
      | none =>
          rcases h.talks.pending hd hr with hq | ha
          · exact (hq hqueries).elim
          · cases hp.symm.trans ha
      | some reply =>
          obtain ⟨rfl, -⟩ := h.talks.answer_eq hd hr
          simp [step?, State.dispatchStep?, hd, hr]
  | ended =>
      rw [h.leavesOff.closed hd] at hopen
      cases hopen
  | ready | discarding => cases hpending : x.pending <;> simp [step?, State.dispatchStep?, hd, hpending]
  | choosing t look =>
      cases look with
      | cancel | slot =>
          simp only [step?, State.dispatchStep?, hd]
          split <;> rfl
      | join => cases hf : x.finished <;> simp [step?, State.dispatchStep?, hd, hf]
      | asleep =>
          cases hf : x.finished with
          | cons f rest => simp [step?, State.dispatchStep?, hd, hf]
          | nil =>
              have hfree := h.free_pos hworkers hf (by rw [hd]; rfl)
              simp [step?, State.dispatchStep?, hd, hfree]
  | delivering r freesSlot k =>
      have hroom : 0 < Inbox.room := by decide
      simp [step?, State.dispatchStep?, hd, he, hresults, hroom]
  | draining => cases hf : x.finished <;> simp [step?, State.dispatchStep?, hd, hworkers, hf]
  | broken => simp [step?, State.dispatchStep?, hd, hopen]

theorem Reachable.exists_step (h : Reachable s set policy cancelled x)
    (he : x.aggregator.hasEnded = false) (tool : Nat → Answer) :
    ∃ l, l.Follows tool ∧ (step? s x l).isSome = true := by
  cases hworkers : x.workers with
  | cons w ws => exact State.exists_work (hworkers ▸ List.mem_cons_self) tool
  | nil =>
      by_cases hidle : x.aggregator.phase = .asleep ∧ ¬ x.inbox.stirs
      · exact ⟨.dispatcher, trivial, h.dispatchStep_isSome hworkers hidle.1 hidle.2⟩
      · have hstirs : x.aggregator.phase = .asleep → x.inbox.stirs := by
          intro hp
          by_contra hs
          exact hidle ⟨hp, hs⟩
        exact ⟨.aggregator, trivial, State.aggregatorStep_isSome he hstirs⟩

/-! ## Runs come to their end -/

theorem Reachable.exists_end (h : Reachable s set policy cancelled x) (tool : Nat → Answer) :
    ∃ ls y, (∀ l ∈ ls, l.Follows tool) ∧ steps? s x ls = some y ∧
      y.aggregator.hasEnded = true := by
  induction hn : x.effort s using Nat.strongRecOn generalizing x with
  | ind n ih =>
      cases he : x.aggregator.hasEnded with
      | true => exact ⟨[], x, by simp, rfl, he⟩
      | false =>
          obtain ⟨l, hl, hsome⟩ := h.exists_step he tool
          obtain ⟨y, hy⟩ := Option.isSome_iff_exists.mp hsome
          have hlt := (moves_of_step? hy).effort_lt h.hasRoster h.keepsTries
          obtain ⟨ls, z, hls, hz, hend⟩ := ih _ (hn ▸ hlt) (h.step hy) rfl
          refine ⟨l :: ls, z, ?_, ?_, hend⟩
          · intro l' hl'
            rcases List.mem_cons.mp hl' with rfl | hl'
            · exact hl
            · exact hls l' hl'
          · rw [steps?, hy]
            exact hz

/-- No run gets stuck, whatever the tool answers, whenever the run is cancelled and in whatever
order everybody moves: as long as the aggregator has not returned, somebody can move, it comes to no
end without all results unless the dispatcher broke, which takes more slots than can be counted, and
no run goes on for ever. -/
theorem Reachable.runs_on (h : Reachable s set policy cancelled x) (tool : Nat → Answer) :
    (x.aggregator.hasEnded = false → ∃ l, l.Follows tool ∧ (step? s x l).isSome = true) ∧
    (x.aggregator.phase = .incomplete → x.dispatch = .broken ∧ slotBound < s.slots) ∧
    (∃ ls y, (∀ l ∈ ls, l.Follows tool) ∧ steps? s x ls = some y ∧
      y.aggregator.hasEnded = true) ∧
    ∀ ls y, steps? s x ls = some y → ls.length ≤ x.effort s := by
  refine ⟨fun he => h.exists_step he tool, ?_, h.exists_end tool, ?_⟩
  · intro hi
    have hd := h.broken_of_incomplete hi
    exact ⟨hd, h.leavesOff.broken hd⟩
  · intro ls y hs
    exact Nat.le_trans (Nat.le_add_right _ _) (h.length_add_effort_le hs)

/-- The dispatcher waits for the only slot and the aggregator for a result; the worker can move, and
the run comes to its end. -/
theorem runs_on_of_sleepers :
    ∃ x, Reachable frugal repeatedOrigin ⟨.mirrorToMirror, false⟩ false x ∧
      x.aggregator.hasEnded = false ∧ (step? frugal x .dispatcher).isNone = true ∧
      (step? frugal x .aggregator).isNone = true ∧
      (∃ l, l.Follows (fun _ => .success) ∧ (step? frugal x l).isSome = true) ∧
      ∃ ls y, (∀ l ∈ ls, l.Follows (fun _ => .success)) ∧ steps? frugal x ls = some y ∧
        y.aggregator.hasEnded = true := by
  have hrun : ((steps? frugal (State.start frugal repeatedOrigin ⟨.mirrorToMirror, false⟩ false)
      (timing [(5, .dispatcher), (3, .aggregator), (1, .dispatcher), (1, .begin 0),
        (4, .dispatcher), (2, .aggregator)])).map (fun x =>
          (x.aggregator.hasEnded, (step? frugal x .dispatcher).isNone,
            (step? frugal x .aggregator).isNone))) = some (false, true, true) := by
    decide +kernel
  obtain ⟨x, hx, hends⟩ := Option.map_eq_some_iff.mp hrun
  simp only [Prod.mk.injEq] at hends
  obtain ⟨he, hdispatcher, haggregator⟩ := hends
  have hreach := Reachable.start.of_steps? hx
  obtain ⟨hmoves, -, hend, -⟩ := hreach.runs_on (fun _ => .success)
  exact ⟨x, hreach, he, hdispatcher, haggregator, hmoves he, hend⟩

end ImageBatch.Engine
