import ImageBatch.Proofs.Engine.Roster

/-!
# The account of the tasks

Every task of a run is in one place at a time: its result is on the stream, or the dispatcher holds
it, or a worker has it, or it waits for its turn. No step loses a task or doubles one, so when the
dispatcher has ended every task has one result.
-/

namespace ImageBatch.Engine

variable {s : Settings} {set : TaskSet} {policy : SkipPolicy} {cancelled : Bool} {x y : State}
  {l : Label}

/-! ## Who holds a task -/

@[simp] theorem task_success (t : Task) (k : Nat) : (Result.success t k).task = t := rfl

@[simp] theorem task_failure (t : Task) (f : Failure) (k : Nat) :
    (Result.failure t f k).task = t := rfl

@[simp] theorem task_skip (t : Task) (reason : Option String) : (Result.skip t reason).task = t :=
  rfl

/-- The task for which the dispatcher wants a slot after a delivery. -/
def Resume.held : Resume → List Task
  | .choose t => [t]
  | _ => []

/-- The tasks that are with the dispatcher. -/
def Dispatch.held : Dispatch → List Task
  | .choosing t _ => [t]
  | .asking t => [t]
  | .waiting t => [t]
  | .delivering r _ k => r.task :: k.held
  | _ => []

@[simp] theorem Resume.held_target (k : Resume) : k.target.held = k.held := by
  cases k <;> rfl

@[simp] theorem Dispatch.held_choosing (t : Task) (look : Look) :
    (Dispatch.choosing t look).held = [t] := rfl

@[simp] theorem Dispatch.held_delivering (r : Result) (b : Bool) (k : Resume) :
    (Dispatch.delivering r b k).held = r.task :: k.held := rfl

theorem LooksForWorkers.held {d : Dispatch} {k : Resume} (h : LooksForWorkers d k) :
    d.held = k.held := by
  cases h <;> rfl

theorem LearnsToProceed.held {t : Task} {reply : Option Reply} (h : LearnsToProceed x t reply) :
    x.dispatch.held = [t] := by
  rcases h.dispatch_eq with hd | hd <;> rw [hd] <;> rfl

/-- Every task of a run, by where it is. -/
def State.account (x : State) : List Task :=
  x.sent.map Result.task ++ x.dispatch.held ++ x.inFlight.map Prod.snd ++ x.pending

/-! ## No step loses a task -/

/-- The task of a worker that is taken back goes to the dispatcher. -/
theorem State.HasRoster.perm_of_lookup (hx : x.HasRoster) {id : Nat} {t : Task}
    (ht : (id, t) ∈ x.inFlight) :
    (x.inFlight.map Prod.snd).Perm
      (t :: (x.inFlight.filter (fun f => f.1 != id)).map Prod.snd) :=
  (perm_cons_filter Prod.fst hx.nodup ht).map Prod.snd

theorem Dispatches.account_perm (h : Dispatches x y) (hx : x.HasRoster) :
    y.account.Perm x.account := by
  rw [List.perm_iff_count]
  intro t
  simp only [State.account, List.count_append]
  cases h with
  | takeUp hd hp | discard hd hp =>
      simp only [hd, hp, Dispatch.held, Resume.held, task_skip, List.count_nil, List.count_cons]
      omega
  | runOut hd hp | giveUp hd hc | goOn hd hc | noneOver hd hf | acquire hd hs | fallAsleep hd hs
  | wake hd hw | ask hd he hr | bypass hd hr | skip hd hr | discarded hd hp | finish hd hf hw =>
      simp [hd, Dispatch.held, Resume.held]
  | close hd ho => rfl
  | forward hd hf =>
      have ht := hx.settled _ (hf ▸ List.mem_cons_self) _ rfl
      have hcount := (hx.perm_of_lookup ht).count_eq t
      simp only [hd.held, Dispatch.held_delivering, List.count_cons] at hcount ⊢
      omega
  | recover hd hf ht =>
      have hcount := (hx.perm_of_lookup (mem_of_lookup_eq_some ht)).count_eq t
      simp only [hd.held, Dispatch.held_delivering, task_failure, List.count_cons] at hcount ⊢
      omega
  -- The roster rules this out: somebody in flight has that number.
  | forget hd hf ht => exact absurd ht (hx.lookup_ne_none hf)
  | spawn hl =>
      rw [hl.held]
      simp only [Dispatch.held, List.map_append, List.map_cons, List.map_nil, List.count_append,
        List.count_nil]
      omega
  | deliver hd he hr | deliverInVain hd he =>
      simp only [hd, Dispatch.held_delivering, Resume.held_target, List.map_cons, List.count_cons]
      omega

theorem Moves.account_perm (h : Moves s x l y) (hx : x.HasRoster) : y.account.Perm x.account := by
  cases h with
  | cancel hc => exact List.Perm.refl _
  | dispatcher h => exact h.account_perm hx
  | aggregator h => exact List.Perm.refl _
  | worker h => cases h <;> exact List.Perm.refl _

theorem Reachable.account_perm (h : Reachable s set policy cancelled x) :
    x.account.Perm set.tasks := by
  refine Reachable.induction (P := fun x => x.account.Perm set.tasks) ?_ ?_ h
  · simp only [State.account, State.start]
    split <;> simp [Dispatch.held]
  · intro x l y hx ih hm
    exact (hm.account_perm hx.hasRoster).trans ih

/-! ## The end of the dispatcher -/

/-- The dispatcher takes up no more tasks. -/
def Dispatch.isLate : Dispatch → Bool
  | .draining => true
  | .ended => true
  | .delivering _ _ .drain => true
  | _ => false

/-- A late dispatcher has taken up every task, and one that has ended has taken back every
worker. -/
structure State.WindsDown (x : State) : Prop where
  pending : x.dispatch.isLate = true → x.pending = []
  workers : x.dispatch = .ended → x.workers = [] ∧ x.finished = []

theorem Resume.target_ne_ended (k : Resume) : k.target ≠ .ended := by
  cases k <;> simp [Resume.target]

theorem LooksForWorkers.isLate {d : Dispatch} {k : Resume} (h : LooksForWorkers d k) {r : Result}
    {b : Bool} (hl : (Dispatch.delivering r b k).isLate = true) : d.isLate = true := by
  cases h with
  | choosing t => cases hl
  | draining => rfl

theorem Resume.isLate_target (k : Resume) (r : Result) (b : Bool) :
    k.target.isLate = (Dispatch.delivering r b k).isLate := by
  cases k <;> rfl

theorem LooksForWorkers.isLate_of_target {d : Dispatch} {k : Resume} (h : LooksForWorkers d k)
    (hl : k.target.isLate = true) : d.isLate = true := by
  cases h with
  | choosing t => cases hl
  | draining => rfl

theorem Dispatches.windsDown (h : Dispatches x y) (hx : x.WindsDown) : y.WindsDown := by
  cases h with
  | takeUp hd hp | giveUp hd hc | goOn hd hc | noneOver hd hf | acquire hd hs | fallAsleep hd hs
  | wake hd hw | ask hd he hr | spawn hl | bypass hd hr | skip hd hr | discard hd hp =>
      constructor <;> simp [Dispatch.isLate]
  | runOut hd hp | discarded hd hp =>
      exact ⟨fun _ => hp, by simp⟩
  | forward hd hf | recover hd hf ht =>
      exact ⟨fun hl => hx.pending (hd.isLate hl), by simp⟩
  | forget hd hf ht =>
      exact ⟨fun hl => hx.pending (hd.isLate_of_target hl),
        fun he => (Resume.target_ne_ended _ he).elim⟩
  | deliver hd he hr | deliverInVain hd he =>
      refine ⟨fun hl => hx.pending ?_, fun he => (Resume.target_ne_ended _ he).elim⟩
      rw [hd]
      rwa [Resume.isLate_target] at hl
  | finish hd hf hw =>
      exact ⟨fun _ => hx.pending (by rw [hd]; rfl), fun _ => ⟨hw, hf⟩⟩
  | close hd ho => exact ⟨hx.pending, hx.workers⟩

theorem Works.windsDown (h : Works s x l y) (hx : x.WindsDown) : y.WindsDown := by
  cases h with
  | begin hw | finish hw | pause hw | abort hw | wake hw | giveUp hw | settle hw =>
      refine ⟨hx.pending, fun he => ?_⟩
      rw [(hx.workers he).1] at hw
      cases hw

theorem Reachable.windsDown (h : Reachable s set policy cancelled x) : x.WindsDown := by
  refine Reachable.induction (P := State.WindsDown) ?_ ?_ h
  · simp only [State.start]
    split <;> constructor <;> simp [Dispatch.isLate]
  · intro x l y hx ih hm
    cases hm with
    | cancel hc => exact ⟨ih.pending, ih.workers⟩
    | dispatcher hm => exact hm.windsDown ih
    | aggregator hm => exact ⟨ih.pending, ih.workers⟩
    | worker hm => exact hm.windsDown ih

end ImageBatch.Engine
