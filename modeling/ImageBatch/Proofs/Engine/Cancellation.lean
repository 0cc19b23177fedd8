import ImageBatch.Proofs.Engine.Dependents
import Mathlib.Data.List.Perm.Subperm

/-!
# Cancelled runs

What may still happen once a run is cancelled. The dispatcher hires a worker for the task for which
it has already looked whether the run is cancelled, and for no other; every task behind it is passed
over. A worker that has been hired makes its first call, and one that waits may make one more call
instead of giving up, if its wait is over at the same moment.
-/

namespace ImageBatch.Engine

variable {s : Settings} {set : TaskSet} {policy : SkipPolicy} {cancelled : Bool} {x y z : State}
  {l : Label}

/-! ## What is left of a cancelled run -/

/-- The task for which the dispatcher will not look again whether the run is cancelled. -/
def Dispatch.committed : Dispatch → List Task
  | .choosing t .join => [t]
  | .choosing t .slot => [t]
  | .asking t => [t]
  | .waiting t => [t]
  | _ => []

/-- The task for which it will look again. -/
def Dispatch.postponed : Dispatch → List Task
  | .choosing t .cancel => [t]
  | .choosing t .asleep => [t]
  | .delivering _ _ k => k.held
  | _ => []

/-- The tasks that a cancelled run passes over. -/
def State.unclaimed (x : State) : List Task := x.dispatch.postponed ++ x.pending

/-- The result of a task that a cancelled run passes over. -/
def passedOver (t : Task) : Result := .skip t (some cancelledReason)

/-- The call that a worker may make before it hears from the tool. -/
def Worker.nextCall? (w : Worker) : Option Invocation :=
  match w.phase with
  | .spawned => some ⟨w.id, w.task, 1⟩
  | .pausing k _ _ => some ⟨w.id, w.task, k + 1⟩
  | _ => none

/-- The calls that a cancelled run may still make. -/
def State.due (x : State) : List Invocation :=
  x.workers.filterMap Worker.nextCall? ++ x.dispatch.committed.map (Invocation.mk x.nextId · 1)

@[simp] theorem Resume.committed_target (k : Resume) : k.target.committed = [] := by
  cases k <;> rfl

@[simp] theorem Resume.postponed_target (k : Resume) : k.target.postponed = k.held := by
  cases k <;> rfl

theorem LearnsToProceed.committed {t : Task} {reply : Option Reply}
    (h : LearnsToProceed x t reply) :
    x.dispatch.committed = [t] ∧ x.dispatch.postponed = [] := by
  rcases h.dispatch_eq with hd | hd <;> rw [hd] <;> exact ⟨rfl, rfl⟩

theorem LooksForWorkers.postponed {d : Dispatch} {k : Resume} (h : LooksForWorkers d k) :
    d.postponed.Sublist k.held := by
  cases h <;> exact List.nil_sublist _

/-! ## No step does more -/

/-- What lies between two states of a cancelled run: how many workers were hired, which calls were
made, and which tasks were passed over. -/
structure State.Subsides (x y : State) : Prop where
  hired : y.nextId + y.dispatch.committed.length ≤ x.nextId + x.dispatch.committed.length
  called : ∃ new, y.calls = new ++ x.calls ∧ (new ++ y.due).Subperm x.due
  passed : ∃ late, y.results = late ++ x.results ∧
    (x.unclaimed.map passedOver).Sublist
      (late.reverse ++ y.unclaimed.map passedOver)

namespace State.Subsides

theorem refl (x : State) : x.Subsides x :=
  ⟨Nat.le_refl _, ⟨[], rfl, List.Subperm.refl _⟩, ⟨[], rfl, List.Sublist.refl _⟩⟩

theorem trans (hxy : x.Subsides y) (hyz : y.Subsides z) : x.Subsides z := by
  obtain ⟨new₁, hcalls₁, hdue₁⟩ := hxy.called
  obtain ⟨new₂, hcalls₂, hdue₂⟩ := hyz.called
  obtain ⟨late₁, hresults₁, hpassed₁⟩ := hxy.passed
  obtain ⟨late₂, hresults₂, hpassed₂⟩ := hyz.passed
  refine ⟨Nat.le_trans hyz.hired hxy.hired, ⟨new₂ ++ new₁, ?_, ?_⟩, ⟨late₂ ++ late₁, ?_, ?_⟩⟩
  · rw [hcalls₂, hcalls₁, List.append_assoc]
  · have hmove : (new₂ ++ new₁ ++ z.due).Perm (new₁ ++ (new₂ ++ z.due)) := by
      rw [← List.append_assoc]
      exact List.perm_append_comm.append_right _
    exact hmove.subperm.trans (((List.subperm_append_left new₁).mpr hdue₂).trans hdue₁)
  · rw [hresults₂, hresults₁, List.append_assoc]
  · rw [List.reverse_append, List.append_assoc]
    exact hpassed₁.trans (hpassed₂.append_left _)

theorem look (hworkers : y.workers = x.workers) (hid : y.nextId = x.nextId)
    (hcalls : y.calls = x.calls)
    (hcommitted : y.dispatch.committed.Sublist x.dispatch.committed)
    (hresults : y.results = x.results) (hunclaimed : x.unclaimed.Sublist y.unclaimed) :
    x.Subsides y := by
  refine ⟨?_, ⟨[], hcalls, ?_⟩, ⟨[], hresults, hunclaimed.map _⟩⟩
  · rw [hid]
    exact Nat.add_le_add_left hcommitted.length_le _
  · rw [List.nil_append, due, due, hworkers, hid]
    exact ((hcommitted.map _).append_left _).subperm

theorem announce {r : Result} {freesSlot : Bool} {k : Resume}
    (hd : y.dispatch = .delivering r freesSlot k) (hworkers : y.workers = x.workers)
    (hid : y.nextId = x.nextId) (hcalls : y.calls = x.calls) (hsent : y.sent = x.sent)
    (hnone : x.dispatch.outgoing = [])
    (hpassed : (x.unclaimed.map passedOver).Sublist (r :: (k.held ++ y.pending).map passedOver)) :
    x.Subsides y := by
  refine ⟨?_, ⟨[], hcalls, ?_⟩, ⟨[r], ?_, ?_⟩⟩
  · rw [hid, hd]
    exact Nat.add_le_add_left (Nat.zero_le _) _
  · rw [List.nil_append, due, due, hworkers, hd]
    exact ((List.nil_sublist _).append_left _).subperm
  · rw [results, results, hd, hnone, hsent]
    rfl
  · have hunclaimed : y.unclaimed = k.held ++ y.pending := by rw [unclaimed, hd]; rfl
    rw [hunclaimed]
    exact hpassed

end State.Subsides

theorem Dispatches.subsides (h : Dispatches x y) (hc : x.cancelled = true) : x.Subsides y := by
  cases h with
  | goOn hd hc' =>
      rw [hc] at hc'
      cases hc'
  | takeUp hd hp =>
      refine .look rfl rfl rfl (List.nil_sublist _) ?_ ?_
      · rw [State.results, State.results, hd]
        rfl
      · rw [State.unclaimed, State.unclaimed, hd, hp]
        exact List.Sublist.refl _
  | runOut hd | noneOver hd | acquire hd | fallAsleep hd | wake hd | ask hd | discarded hd
  | finish hd =>
      refine .look rfl rfl rfl ?_ ?_ ?_
      · simp [hd, Dispatch.committed]
      · rw [State.results, State.results, hd]
        rfl
      · simp [State.unclaimed, hd, Dispatch.postponed]
  | close hd ho => exact .look rfl rfl rfl (List.Sublist.refl _) rfl (List.Sublist.refl _)
  | giveUp hd | bypass hd | skip hd =>
      refine .announce rfl rfl rfl rfl rfl (by rw [hd]; rfl) ?_
      simp [State.unclaimed, hd, Dispatch.postponed, Resume.held, passedOver]
  | discard hd hp =>
      refine .announce rfl rfl rfl rfl rfl (by rw [hd]; rfl) ?_
      simp [State.unclaimed, hd, hp, Dispatch.postponed, Resume.held, passedOver]
  | forward hd | recover hd =>
      refine .announce rfl rfl rfl rfl rfl hd.outgoing ?_
      exact ((hd.postponed.append_right _).map _).cons _
  | forget hd =>
      refine .look rfl rfl rfl (by simp) ?_ ?_
      · rw [State.results, State.results, hd.outgoing, Resume.outgoing_target]
      · rw [State.unclaimed, State.unclaimed, Resume.postponed_target]
        exact hd.postponed.append_right _
  | deliver hd | deliverInVain hd =>
      refine .look rfl rfl rfl (by simp) ?_ ?_
      · rw [State.results, State.results, hd, Resume.outgoing_target]
        rfl
      · rw [State.unclaimed, State.unclaimed, hd, Resume.postponed_target]
        exact List.Sublist.refl _
  | spawn hl =>
      obtain ⟨hcommitted, hpostponed⟩ := hl.committed
      refine ⟨?_, ⟨[], rfl, ?_⟩, ⟨[], ?_, ?_⟩⟩
      · rw [hcommitted]
        exact Nat.le_refl _
      · rw [List.nil_append, State.due, State.due, hcommitted, List.filterMap_append]
        simp [Worker.nextCall?, Dispatch.committed, List.Subperm.refl]
      · rcases hl.dispatch_eq with hd | hd <;> rw [State.results, State.results, hd] <;> rfl
      · rw [State.unclaimed, State.unclaimed, hpostponed]
        exact List.Sublist.refl _

theorem react_of_cancelled (t : Task) (k : Nat) (a : Answer) (h : Happening) (wait : Span)
    (f : Failure) : react s true t k a ≠ .pause h wait f := by
  cases a <;> simp [react]

/-- The calls that are due but for one worker. -/
def State.dueApart (x : State) (id : Nat) : List Invocation :=
  (x.workers.filter (fun w => w.id != id)).filterMap Worker.nextCall? ++
    x.dispatch.committed.map (Invocation.mk x.nextId · 1)

theorem State.HasRoster.due_perm (hx : x.HasRoster) {w : Worker} (hw : w ∈ x.workers) :
    x.due.Perm (w.nextCall?.toList ++ x.dueApart w.id) := by
  have hperm := (perm_cons_filter Worker.id hx.nodup_workers hw).filterMap Worker.nextCall?
  rw [State.due, State.dueApart, ← List.append_assoc]
  refine (hperm.trans ?_).append_right _
  cases hw' : w.nextCall? <;> simp [hw']

theorem State.HasRoster.due_inPhase_perm (hx : x.HasRoster) {w : Worker} (hw : w ∈ x.workers)
    (p : Phase) : ((x.workers.map (Worker.inPhase w.id p)).filterMap Worker.nextCall? ++
      x.dispatch.committed.map (Invocation.mk x.nextId · 1)).Perm
        ((Worker.nextCall? { w with phase := p }).toList ++ x.dueApart w.id) := by
  rw [State.dueApart, ← List.append_assoc]
  refine (((hx.perm_inPhase hw p).filterMap Worker.nextCall?).trans ?_).append_right _
  cases hw' : Worker.nextCall? { w with phase := p } <;> simp [hw']

theorem Works.subsides (h : Works s x l y) (hr : x.HasRoster) (hc : x.cancelled = true) :
    x.Subsides y := by
  cases h with
  | begin hw hp | wake hw hp =>
      refine ⟨Nat.le_refl _, ⟨[_], rfl, ?_⟩, ⟨[], rfl, List.Sublist.refl _⟩⟩
      have hdue := hr.due_perm hw
      rw [Worker.nextCall?, hp] at hdue
      exact (((hr.due_inPhase_perm hw (.calling _)).cons _).trans hdue.symm).subperm
  | pause hw hp ha =>
      rw [hc] at ha
      exact (react_of_cancelled _ _ _ _ _ _ ha).elim
  | finish hw hp | abort hw hp | giveUp hw hp =>
      refine ⟨Nat.le_refl _, ⟨[], rfl, ?_⟩, ⟨[], rfl, List.Sublist.refl _⟩⟩
      refine (hr.due_inPhase_perm hw _).subperm.trans ?_
      exact (List.sublist_append_right _ _).subperm.trans (hr.due_perm hw).symm.subperm
  | settle hw hp =>
      refine ⟨Nat.le_refl _, ⟨[], rfl, ?_⟩, ⟨[], rfl, List.Sublist.refl _⟩⟩
      exact (List.sublist_append_right _ _).subperm.trans (hr.due_perm hw).symm.subperm

theorem Moves.subsides (h : Moves s x l y) (hr : x.HasRoster) (hc : x.cancelled = true) :
    x.Subsides y := by
  cases h with
  | cancel hc' =>
      rw [hc] at hc'
      cases hc'
  | dispatcher h => exact h.subsides hc
  | aggregator h => exact .look rfl rfl rfl (List.Sublist.refl _) rfl (List.Sublist.refl _)
  | worker h => exact h.subsides hr hc

theorem Moves.stays_cancelled (h : Moves s x l y) (hc : x.cancelled = true) : y.cancelled = true := by
  cases h with
  | cancel hc' => rfl
  | dispatcher h => cases h <;> exact hc
  | aggregator h => exact hc
  | worker h => cases h <;> exact hc

/-- However a cancelled run goes on, no more happens than what was left of it. -/
theorem Reachable.subsides {ls : List Label} (h : Reachable s set policy cancelled x)
    (hc : x.cancelled = true) (hs : steps? s x ls = some y) : x.Subsides y := by
  refine Reachable.steps_induction (P := fun x _ => x.cancelled = true → x.Subsides y) ?_ ?_ h hs hc
  · exact fun _ => .refl _
  · intro x z l ls hx hm ih hc
    exact (hm.subsides hx.hasRoster hc).trans (ih (hm.stays_cancelled hc))

/-! ## Cancelled runs -/

/-- The number of a worker and its task, with which the call is made. -/
def Invocation.entry (c : Invocation) : Nat × Task := (c.worker, c.task)

theorem Worker.entry_of_nextCall? {w : Worker} {c : Invocation} (h : w.nextCall? = some c) :
    c.entry = (w.id, w.task) := by
  unfold nextCall? at h
  split at h <;> cases h <;> rfl

theorem Worker.map_entry_sublist (ws : List Worker) :
    ((ws.filterMap Worker.nextCall?).map Invocation.entry).Sublist
      (ws.map (fun w => (w.id, w.task))) := by
  induction ws with
  | nil => exact List.Sublist.refl _
  | cons w ws ih =>
      cases hw : w.nextCall? with
      | none =>
          rw [List.filterMap_cons_none hw]
          exact ih.cons _
      | some c =>
          rw [List.filterMap_cons_some hw, List.map_cons, List.map_cons,
            Worker.entry_of_nextCall? hw]
          exact ih.cons_cons _

theorem State.HasRoster.entries_of_due (hx : x.HasRoster) : (x.due.map Invocation.entry).Subperm
    (x.inFlight ++ x.dispatch.committed.map (Prod.mk x.nextId)) := by
  have hnodup : (x.workers.map (fun w => (w.id, w.task))).Nodup := by
    apply List.Nodup.of_map Prod.fst
    rw [List.map_map]
    exact hx.nodup_workers
  have hworking : x.workers.map (fun w => (w.id, w.task)) ⊆ x.inFlight := by
    intro f hf
    obtain ⟨w, hw, rfl⟩ := List.mem_map.mp hf
    exact hx.working w hw
  rw [State.due, List.map_append, List.map_map]
  apply (List.subperm_append_right _).mpr
  exact (Worker.map_entry_sublist x.workers).subperm.trans (hnodup.subperm hworking)

theorem Dispatch.nodup_committed (d : Dispatch) (n : Nat) :
    (d.committed.map (fun _ => n)).Nodup := by
  unfold committed
  split <;> simp

theorem State.HasRoster.nodup_due (hx : x.HasRoster) : (x.due.map Invocation.worker).Nodup := by
  obtain ⟨entries, hperm, hsub⟩ := hx.entries_of_due
  have hids := hsub.map Prod.fst
  have hdue := hperm.map Prod.fst
  rw [List.map_append, List.map_map] at hids
  rw [List.map_map] at hdue
  refine hdue.nodup_iff.mp (List.Nodup.sublist hids ?_)
  refine List.nodup_append.mpr ⟨hx.nodup, x.dispatch.nodup_committed x.nextId, ?_⟩
  intro id hid id' hid'
  obtain ⟨f, hf, rfl⟩ := List.mem_map.mp hid
  obtain ⟨t, -, rfl⟩ := List.mem_map.mp hid'
  exact Nat.ne_of_lt (hx.fresh f hf)

theorem Dispatch.committed_append_postponed (d : Dispatch) :
    (d.committed ++ d.postponed).Sublist d.held := by
  cases d with
  | choosing t look => cases look <;> exact List.Sublist.refl _
  | delivering r freesSlot k => exact List.sublist_cons_self _ _
  | _ => exact List.Sublist.refl _

/-- The tasks for which calls are due are others than those that a cancelled run passes over. -/
theorem Reachable.due_subperm (h : Reachable s set policy cancelled x) :
    (x.due.map Invocation.task ++ x.unclaimed).Subperm set.tasks := by
  obtain ⟨entries, hperm, hsub⟩ := h.hasRoster.entries_of_due
  have htasks := hsub.map Prod.snd
  have hdue := hperm.map Prod.snd
  rw [List.map_append, List.map_map] at htasks
  rw [List.map_map] at hdue
  have hcommitted : x.dispatch.committed.map (Prod.snd ∘ Prod.mk x.nextId) =
      x.dispatch.committed := List.map_id _
  rw [hcommitted] at htasks
  have hdispatch : (x.inFlight.map Prod.snd ++ x.dispatch.committed ++ x.unclaimed).Sublist
      (x.inFlight.map Prod.snd ++ x.dispatch.held ++ x.pending) := by
    have hheld := (x.dispatch.committed_append_postponed.append_left (x.inFlight.map Prod.snd))
    simpa [State.unclaimed] using hheld.append_right x.pending
  have hplaces : (x.dispatch.held ++ x.inFlight.map Prod.snd ++ x.pending).Sublist x.account := by
    simp only [State.account, List.append_assoc]
    exact List.sublist_append_right _ _
  have hmove : (x.inFlight.map Prod.snd ++ x.dispatch.held ++ x.pending).Perm
      (x.dispatch.held ++ x.inFlight.map Prod.snd ++ x.pending) :=
    List.perm_append_comm.append_right _
  have hin := (hdispatch.subperm.trans hmove.subperm).trans
    (hplaces.subperm.trans h.account_perm.subperm)
  exact ((hdue.symm.append_right _).subperm.trans (htasks.append_right _).subperm).trans hin

/-- Once a run is cancelled, at most one more worker is hired, for the task about which the
dispatcher has already decided to ask. Every worker makes at most the one call that is due for it,
and these calls are for other tasks than those that the dispatcher has not taken up: when it ends,
each of those has been passed over. -/
theorem Reachable.subsides_of_cancelled {ls : List Label} (h : Reachable s set policy cancelled x)
    (hc : x.cancelled = true) (hs : steps? s x ls = some y) :
    y.nextId ≤ x.nextId + x.dispatch.committed.length ∧
    (∃ new, y.calls = new ++ x.calls ∧ new.Subperm x.due) ∧
    (x.due.map Invocation.worker).Nodup ∧
    (x.due.map Invocation.task ++ x.unclaimed).Subperm set.tasks ∧
    (y.dispatch = .ended → ∃ late, y.sent = late ++ x.results ∧
      (x.unclaimed.map passedOver).Sublist late.reverse) := by
  have hsubsides := h.subsides hc hs
  refine ⟨?_, ?_, h.hasRoster.nodup_due, h.due_subperm, ?_⟩
  · exact Nat.le_trans (Nat.le_add_right _ _) hsubsides.hired
  · obtain ⟨new, hcalls, hdue⟩ := hsubsides.called
    exact ⟨new, hcalls, (List.sublist_append_left _ _).subperm.trans hdue⟩
  · intro he
    obtain ⟨late, hresults, hpassed⟩ := hsubsides.passed
    have hpending := (h.of_steps? hs).windsDown.pending (by rw [he]; rfl)
    rw [State.results, he] at hresults
    rw [State.unclaimed.eq_1 y, he, hpending] at hpassed
    exact ⟨late, hresults, by simpa [Dispatch.postponed] using hpassed⟩

def patient : Settings := { twoSlots with attempts := 2 }

/-- The first image waits for its second call, and the dispatcher for an answer about the second
image, when the run is cancelled. -/
def upToCancel : List Label :=
  timing [(5, .dispatcher), (3, .aggregator), (1, .dispatcher), (1, .begin 0), (5, .dispatcher),
    (1, .answer 0 (.failure ⟨.network, "connection reset"⟩)), (1, .cancel)]

/-- The wait is over at the same moment, and the answer is to proceed. -/
def afterCancel : List Label :=
  timing [(1, .wake 0), (3, .aggregator), (1, .dispatcher), (1, .begin 1), (1, .answer 0 .success),
    (1, .answer 1 .success), (1, .settle 0), (1, .settle 1), (9, .dispatcher)]

/-- A worker is hired and two calls are made after the run was cancelled; the third image is passed
over. -/
theorem subsides_of_busyMoment :
    ∃ x y, Reachable patient threeImages ⟨.mirrorToMirror, false⟩ false x ∧ x.cancelled = true ∧
      steps? patient x afterCancel = some y ∧ x.nextId = 1 ∧ y.nextId = 2 ∧
      y.calls.length = x.calls.length + 2 ∧ y.dispatch = .ended ∧
      y.nextId ≤ x.nextId + x.dispatch.committed.length ∧
      (∃ new, y.calls = new ++ x.calls ∧ new.Subperm x.due) ∧
      ∃ late, y.sent = late ++ x.results ∧
        (x.unclaimed.map passedOver).Sublist late.reverse := by
  have hrun : ((steps? patient (State.start patient threeImages ⟨.mirrorToMirror, false⟩ false)
      upToCancel).bind (fun x => (steps? patient x afterCancel).map (fun y =>
        (x.cancelled, x.nextId, y.nextId, decide (y.calls.length = x.calls.length + 2),
          y.dispatch)))) = some (true, 1, 2, true, .ended) := by
    decide +kernel
  obtain ⟨x, hx, hrest⟩ := Option.bind_eq_some_iff.mp hrun
  obtain ⟨y, hy, hends⟩ := Option.map_eq_some_iff.mp hrest
  simp only [Prod.mk.injEq, decide_eq_true_eq] at hends
  obtain ⟨hc, hbefore, hafter, hcalls, hended⟩ := hends
  have hreach := Reachable.start.of_steps? hx
  obtain ⟨hhired, hcalled, -, -, hpassed⟩ := hreach.subsides_of_cancelled hc hy
  exact ⟨x, y, hreach, hc, hy, hbefore, hafter, hcalls, hended, hhired, hcalled, hpassed hended⟩

end ImageBatch.Engine
