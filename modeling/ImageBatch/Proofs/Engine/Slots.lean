import ImageBatch.Proofs.Engine.Roster

/-!
# Slots

Every slot is free or held by somebody: by the dispatcher from the moment when it gets the slot for
a task or takes it back with a result, or by a worker. A worker that breaks off gives its slot back
before anybody can see that it is over.
-/

namespace ImageBatch.Engine

variable {s : Settings} {set : TaskSet} {policy : SkipPolicy} {cancelled : Bool} {x y : State}
  {l : Label}

/-! ## Who holds a slot -/

def Dispatch.slots : Dispatch → Nat
  | .asking _ => 1
  | .waiting _ => 1
  | .delivering _ freesSlot _ => if freesSlot then 1 else 0
  | _ => 0

/-- The slot of a worker that is over comes with its result. -/
def Exit.holdsSlot : Exit → Bool
  | .done _ => true
  | .aborted _ => false

def Phase.holdsSlot : Phase → Bool
  | .over e => e.holdsSlot
  | _ => true

def Worker.holdsSlot (w : Worker) : Bool := w.phase.holdsSlot

/-- The slots of the workers, and of those that are over and not taken back. -/
def State.taken (x : State) : Nat :=
  x.workers.countP Worker.holdsSlot + x.finished.countP (fun f => f.2.holdsSlot)

def State.KeepsSlots (s : Settings) (x : State) : Prop :=
  x.free + x.dispatch.slots + x.taken = s.slots

theorem Exit.not_holdsSlot_aborted (words : String) : ¬ (Exit.aborted words).holdsSlot = true :=
  Bool.false_ne_true

@[simp] theorem Resume.slots_target (k : Resume) : k.target.slots = 0 := by
  cases k <;> rfl

theorem LooksForWorkers.slots {d : Dispatch} {k : Resume} (h : LooksForWorkers d k) :
    d.slots = 0 := by
  cases h <;> rfl

theorem LearnsToProceed.slots {t : Task} {reply : Option Reply} (h : LearnsToProceed x t reply) :
    x.dispatch.slots = 1 := by
  rcases h.dispatch_eq with hd | hd <;> rw [hd] <;> rfl

/-! ## No step loses a slot -/

theorem Dispatches.keepsSlots (h : Dispatches x y) (hx : x.KeepsSlots s) : y.KeepsSlots s := by
  unfold State.KeepsSlots State.taken at hx ⊢
  cases h with
  | takeUp hd | runOut hd | giveUp hd | goOn hd | noneOver hd | fallAsleep hd | wake hd | ask hd
  | discard hd | discarded hd | finish hd =>
      rw [hd] at hx
      exact hx
  | close hd ho => exact hx
  | acquire hd hs =>
      rw [hd] at hx
      simp only [Dispatch.slots] at hx ⊢
      omega
  | @forward k id r rest hd hf =>
      have hdone : (Exit.done r).holdsSlot = true := rfl
      rw [hd.slots, hf, List.countP_cons, if_pos hdone] at hx
      simp only [Dispatch.slots, if_true]
      omega
  -- A worker that broke off gave its slot back then, so there is none to take over.
  | recover hd hf =>
      rw [hd.slots, hf, List.countP_cons, if_neg (Exit.not_holdsSlot_aborted _)] at hx
      exact hx
  | forget hd hf =>
      rw [hd.slots, hf, List.countP_cons, if_neg (Exit.not_holdsSlot_aborted _)] at hx
      rw [Resume.slots_target]
      exact hx
  | @spawn t reply hl =>
      have hnew : (Worker.mk x.nextId t .spawned).holdsSlot = true := rfl
      rw [hl.slots] at hx
      rw [List.countP_append, List.countP_singleton, if_pos hnew]
      simp only [Dispatch.slots]
      omega
  | bypass hd | skip hd =>
      rw [hd] at hx
      simp only [Dispatch.slots, Bool.false_eq_true, if_false] at hx ⊢
      omega
  | @deliver r freesSlot k hd | @deliverInVain r freesSlot k hd =>
      rw [hd] at hx
      rw [Resume.slots_target]
      cases freesSlot <;> simp only [Dispatch.slots, Bool.false_eq_true, if_false, if_true] at hx ⊢ <;>
        omega

namespace State.HasRoster

/-- Whatever is counted of the workers, one of them can be counted apart. -/
theorem countP_workers (hx : x.HasRoster) {w : Worker} (hw : w ∈ x.workers) (p : Worker → Bool) :
    x.workers.countP p =
      (x.workers.filter (fun v => v.id != w.id)).countP p + if p w then 1 else 0 := by
  rw [(perm_cons_filter Worker.id hx.nodup_workers hw).countP_eq p, List.countP_cons]

/-- The others stay as they are when one worker gets into a new phase. -/
theorem perm_inPhase (hx : x.HasRoster) {w : Worker} (hw : w ∈ x.workers) (phase : Phase) :
    (x.workers.map (Worker.inPhase w.id phase)).Perm
      ({ w with phase := phase } :: x.workers.filter (fun v => v.id != w.id)) := by
  have hothers : (x.workers.filter (fun v => v.id != w.id)).map (Worker.inPhase w.id phase) =
      x.workers.filter (fun v => v.id != w.id) := by
    refine (List.map_congr_left ?_).trans (List.map_id _)
    intro v hv
    exact Worker.inPhase_of_ne (by simpa using (List.mem_filter.mp hv).2) phase
  have hperm := (perm_cons_filter Worker.id hx.nodup_workers hw).map (Worker.inPhase w.id phase)
  rwa [List.map_cons, Worker.inPhase_self, hothers] at hperm

theorem countP_inPhase (hx : x.HasRoster) {w : Worker} (hw : w ∈ x.workers) (phase : Phase)
    (p : Worker → Bool) : (x.workers.map (Worker.inPhase w.id phase)).countP p =
      (x.workers.filter (fun v => v.id != w.id)).countP p +
        if p { w with phase := phase } then 1 else 0 := by
  rw [(hx.perm_inPhase hw phase).countP_eq p, List.countP_cons]

end State.HasRoster

theorem Works.keepsSlots (h : Works s x l y) (hr : x.HasRoster) (hx : x.KeepsSlots s) :
    y.KeepsSlots s := by
  unfold State.KeepsSlots State.taken at hx ⊢
  cases h with
  | begin hw hp | pause hw hp | wake hw hp | giveUp hw hp =>
      rw [hr.countP_workers hw, Worker.holdsSlot, hp] at hx
      rw [hr.countP_inPhase hw]
      exact hx
  | finish hw hp ha =>
      obtain ⟨r, rfl, -⟩ := exit_of_react ha
      rw [hr.countP_workers hw, Worker.holdsSlot, hp] at hx
      rw [hr.countP_inPhase hw]
      exact hx
  | abort hw hp ha =>
      rw [hr.countP_workers hw, Worker.holdsSlot, hp] at hx
      rw [hr.countP_inPhase hw]
      simp only [Worker.holdsSlot, Phase.holdsSlot, Exit.holdsSlot, Bool.false_eq_true, if_true,
        if_false] at hx ⊢
      omega
  | settle hw hp =>
      rw [hr.countP_workers hw, Worker.holdsSlot, hp, Phase.holdsSlot] at hx
      rw [List.countP_append, List.countP_singleton]
      simp only
      omega

/-- In every run each slot is free, with the dispatcher, or with a worker that has not broken off.
-/
theorem Reachable.keepsSlots (h : Reachable s set policy cancelled x) : x.KeepsSlots s := by
  refine Reachable.induction (P := State.KeepsSlots s) ?_ ?_ h
  · rcases State.dispatch_start s set policy cancelled with hd | hd
    all_goals
      rw [State.KeepsSlots, hd]
      rfl
  · intro x l y hx ih hm
    cases hm with
    | cancel hc => exact ih
    | dispatcher hm => exact hm.keepsSlots ih
    | aggregator hm => exact ih
    | worker hm => exact hm.keepsSlots hx.hasRoster ih

end ImageBatch.Engine
