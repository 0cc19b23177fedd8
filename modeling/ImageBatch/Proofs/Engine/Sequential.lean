import ImageBatch.Proofs.Engine.Progress

/-!
# One slot

With one slot the engine does what a plain loop does: it decides about a task from the records of
all tasks before, calls until the task is settled, and counts the result before it looks at the next
task. The proof carries along what the plain loop would make of a state: it completes the task that
holds the slot and goes through the tasks that are left. No step changes that.
-/

namespace ImageBatch.Engine

/-! ## The plain loop -/

/-- The tool, as a function of all calls up to the one that it answers, newest first. -/
abbrev Tool := List Request → Option Failure

def Tool.answer (tool : Tool) (calls : List Request) : Answer :=
  match tool calls with
  | none => .success
  | some f => .failure f

variable (s : Settings) (set : TaskSet) (policy : SkipPolicy) (tool : Tool)

/-- Goes on with a task whose call number `k` has just been made. -/
def persist (t : Task) (k : Nat) (calls : List Request) : Result × List Request :=
  match tool calls with
  | none => (.success t k, calls)
  | some f =>
    if !f.category.isRetryable || s.maxAttempts ≤ k then (.failure t f k, calls)
    else persist t (k + 1) (s.request t :: calls)
termination_by s.maxAttempts - k
decreasing_by
  rename_i h
  simp only [Bool.or_eq_true, decide_eq_true_eq] at h
  omega

/-- Takes one task: decides about it, completes it, and counts its result. -/
def visit (p : Tally × List Request) (t : Task) : Tally × List Request :=
  match policy.decide t (set.linkedBundles t) p.1.errors with
  | .bypass => (p.1.add set (.skip t none), p.2)
  | .skip reason => (p.1.add set (.skip t (some reason)), p.2)
  | .proceed =>
    let (r, calls) := persist s tool t 1 (s.request t :: p.2)
    (p.1.add set r, calls)

def visitAll (p : Tally × List Request) (ts : List Task) : Tally × List Request :=
  ts.foldl (visit s set policy tool) p

/-- What the plain loop comes to: the tally, and the calls, newest first. -/
def sequential : Tally × List Request := visitAll s set policy tool (Tally.start set, []) set.tasks

section Visit

variable {s set policy tool} {p : Tally × List Request} {t : Task}

theorem visit_bypass (h : policy.decide t (set.linkedBundles t) p.1.errors = .bypass) :
    visit s set policy tool p t = (p.1.add set (.skip t none), p.2) := by
  simp only [visit, h]

theorem visit_skip {reason : String}
    (h : policy.decide t (set.linkedBundles t) p.1.errors = .skip reason) :
    visit s set policy tool p t = (p.1.add set (.skip t (some reason)), p.2) := by
  simp only [visit, h]

theorem visit_proceed (h : policy.decide t (set.linkedBundles t) p.1.errors = .proceed) :
    visit s set policy tool p t =
      (p.1.add set (persist s tool t 1 (s.request t :: p.2)).1,
        (persist s tool t 1 (s.request t :: p.2)).2) := by
  simp only [visit, h]

end Visit

/-! ## Runs with a tool -/

/-- The calls that were made, newest first. -/
def State.requests (x : State) : List Request := x.calls.map (fun c => s.request c.task)

/-- Nobody cancels the run, and calls are answered by the tool. -/
def State.allows (x : State) : Label → Bool
  | .cancel => false
  | .answer _ a => a == tool.answer (x.requests s)
  | _ => true

/-- A state that a run can come to, whatever the timing, when nobody cancels it and the tool gives
the answers. -/
inductive Performs : State → Prop where
  | start : Performs (State.start s set policy false)
  | step {x y : State} {l : Label} (hx : Performs x) (hl : x.allows s tool l = true)
      (hs : step? s x l = some y) : Performs y

def perform? (x : State) : List Label → Option State
  | [] => some x
  | l :: ls => if x.allows s tool l then (step? s x l).bind (fun y => perform? y ls) else none

variable {s set policy tool} {x y : State} {l : Label}

theorem Performs.of_perform? {ls : List Label} (hx : Performs s set policy tool x)
    (h : perform? s tool x ls = some y) : Performs s set policy tool y := by
  induction ls generalizing x with
  | nil =>
      cases h
      exact hx
  | cons l ls ih =>
      simp only [perform?, Option.ite_none_right_eq_some, Option.bind_eq_some_iff] at h
      obtain ⟨hl, z, hz, h⟩ := h
      exact ih (hx.step hl hz) h

theorem State.allows_answer {id : Nat} {a : Answer} (h : x.allows s tool (.answer id a) = true) :
    a = tool.answer (x.requests s) := eq_of_beq h

theorem Performs.reachable (h : Performs s set policy tool x) :
    Reachable s set policy false x := by
  induction h with
  | start => exact .start
  | step hx hl hs ih => exact ih.step hs

theorem Performs.not_cancelled (h : Performs s set policy tool x) : x.cancelled = false := by
  induction h with
  | start => rfl
  | step hx hl hs ih =>
      cases moves_of_step? hs with
      | cancel => cases hl
      | dispatcher h => cases h <;> exact ih
      | aggregator h => exact ih
      | worker h => cases h <;> exact ih

/-! ## The worker -/

theorem times?_eq {d : Span} {k n : Nat} (h : (⟨d.nanos * n⟩ : Span).Fits) (hk : k ≤ n) :
    d.times? k = some ⟨d.nanos * k⟩ := by
  unfold Span.times?
  rw [if_pos]
  have hle : d.nanos * k ≤ d.nanos * n := Nat.mul_le_mul_left _ hk
  exact Nat.lt_of_le_of_lt (Nat.div_le_div_right hle) h

/-- The answer of the tool settles a task, or the worker waits and calls again. -/
theorem react_answer (hfits : (⟨s.backoff.nanos * s.attempts⟩ : Span).Fits) (t : Task) (k : Nat)
    (calls : List Request) :
    (∃ h r, react s false t k (tool.answer calls) = .finish h (.done r) ∧
      persist s tool t k calls = (r, calls)) ∨
    (∃ h d f, react s false t k (tool.answer calls) = .pause h d f ∧
      persist s tool t k calls = persist s tool t (k + 1) (s.request t :: calls)) := by
  unfold Tool.answer
  rw [persist]
  cases hcalls : tool calls with
  | none => exact .inl ⟨_, _, rfl, rfl⟩
  | some f =>
      by_cases hlast : (!f.category.isRetryable || decide (s.maxAttempts ≤ k)) = true
      · refine .inl ⟨.taskFailed t.origin k f, .failure t f k, ?_, if_pos hlast⟩
        simp only [react, hlast, Bool.true_or, if_true]
        rfl
      · refine .inr ⟨.taskRetrying t.origin k (toldMillis ⟨s.backoff.nanos * k⟩) f,
          ⟨s.backoff.nanos * k⟩, f, ?_, if_neg hlast⟩
        have hmore : ¬ s.maxAttempts ≤ k := fun hle => hlast (by simp [hle])
        have hk : k ≤ s.attempts := by
          unfold Settings.maxAttempts at hmore
          omega
        simp only [react, Bool.or_false, hlast, times?_eq hfits hk]
        rfl

/-- What a worker in a phase will come to, when so many calls have been made. -/
def Phase.outcome? (s : Settings) (tool : Tool) (t : Task) (calls : List Request) :
    Phase → Option (Result × List Request)
  | .spawned => some (persist s tool t 1 (s.request t :: calls))
  | .calling k => some (persist s tool t k calls)
  | .pausing k _ _ => some (persist s tool t (k + 1) (s.request t :: calls))
  | .over (.done r) => some (r, calls)
  | .over (.aborted _) => none

theorem Works.outcome? (h : Works s x l y)
    (hfits : (⟨s.backoff.nanos * s.attempts⟩ : Span).Fits) (hc : x.cancelled = false)
    (hl : x.allows s tool l = true) {w : Worker}
    (hw : x.workers = [w]) {p : Result × List Request}
    (hp : w.phase.outcome? s tool w.task (x.requests s) = some p) :
    (∃ v, y.workers = [v] ∧ v.id = w.id ∧ v.task = w.task ∧ y.finished = x.finished ∧
      y.free = x.free ∧ v.phase.outcome? s tool v.task (y.requests s) = some p) ∨
    (y.workers = [] ∧ y.finished = x.finished ++ [(w.id, .done p.1)] ∧ y.free = x.free ∧
      y.requests s = p.2) := by
  have hone : ∀ {v}, v ∈ x.workers → v = w := by
    intro v hv
    rw [hw] at hv
    exact List.mem_singleton.mp hv
  have hmap : ∀ phase, x.workers.map (Worker.inPhase w.id phase) = [{ w with phase := phase }] := by
    intro phase
    simp [hw, Worker.inPhase]
  cases h with
  | begin hm hphase | wake hm hphase =>
      cases hone hm
      rw [hphase] at hp
      exact .inl ⟨_, hmap _, rfl, rfl, rfl, rfl, hp⟩
  | finish hm hphase hreact =>
      cases hone hm
      rw [State.allows_answer hl, hc] at hreact
      rw [hphase] at hp
      rcases react_answer hfits w.task _ (x.requests s) with
        ⟨h, r, hfin, hpersist⟩ | ⟨h, d, f, hpause, -⟩
      · cases hfin.symm.trans hreact
        refine .inl ⟨_, hmap _, rfl, rfl, rfl, rfl, ?_⟩
        rw [← hp]
        exact congrArg some hpersist.symm
      · cases hpause.symm.trans hreact
  | pause hm hphase hreact =>
      cases hone hm
      rw [State.allows_answer hl, hc] at hreact
      rw [hphase] at hp
      rcases react_answer hfits w.task _ (x.requests s) with
        ⟨h, r, hfin, -⟩ | ⟨h, d, f, hpause, hpersist⟩
      · cases hfin.symm.trans hreact
      · cases hpause.symm.trans hreact
        refine .inl ⟨_, hmap _, rfl, rfl, rfl, rfl, ?_⟩
        rw [← hp]
        exact congrArg some hpersist.symm
  | abort hm hphase hreact =>
      cases hone hm
      rw [State.allows_answer hl, hc] at hreact
      rcases react_answer hfits w.task _ (x.requests s) with
        ⟨h, r, hfin, -⟩ | ⟨h, d, f, hpause, -⟩
      · cases hfin.symm.trans hreact
      · cases hpause.symm.trans hreact
  | giveUp hm hphase hcancel =>
      rw [hc] at hcancel
      cases hcancel
  | settle hm hphase =>
      cases hone hm
      rw [hphase] at hp
      rename_i e
      cases e with
      | done r =>
          cases hp
          refine .inr ⟨?_, rfl, rfl, rfl⟩
          simp [hw]
      | aborted words => cases hp

/-! ## The simulation -/

/-- The dispatcher does not deal with a slot. -/
def Dispatch.isLooking : Dispatch → Bool
  | .ready => true
  | .choosing _ _ => true
  | .draining => true
  | .ended => true
  | _ => false

def State.known (set : TaskSet) (x : State) : Tally := (Tally.start set).addAll set x.sent.reverse

/-- Who has the slot, and that the plain loop comes to its end from here: it completes the task that
has the slot and goes on with those that are left. -/
inductive State.Agrees (s : Settings) (set : TaskSet) (policy : SkipPolicy) (tool : Tool)
    (x : State) : Prop where
  | free (hd : x.dispatch.isLooking = true) (hfree : x.free = 1) (hw : x.workers = [])
      (hf : x.finished = [])
      (hp : visitAll s set policy tool (x.known set, x.requests s) (x.dispatch.held ++ x.pending) =
        sequential s set policy tool)
  | deciding {t} (hd : x.dispatch = .asking t ∨ x.dispatch = .waiting t) (hfree : x.free = 0)
      (hw : x.workers = []) (hf : x.finished = [])
      (hp : visitAll s set policy tool (x.known set, x.requests s) (t :: x.pending) =
        sequential s set policy tool)
  | passing {r} (hd : x.dispatch = .delivering r false .next) (hfree : x.free = 1)
      (hw : x.workers = []) (hf : x.finished = [])
      (hp : visitAll s set policy tool ((x.known set).add set r, x.requests s) x.pending =
        sequential s set policy tool)
  | working {w p} (hd : x.dispatch.isLooking = true) (hfree : x.free = 0) (hw : x.workers = [w])
      (hf : x.finished = []) (ho : w.phase.outcome? s tool w.task (x.requests s) = some p)
      (hp : visitAll s set policy tool ((x.known set).add set p.1, p.2)
        (x.dispatch.held ++ x.pending) = sequential s set policy tool)
  | settled {id r} (hd : x.dispatch.isLooking = true) (hfree : x.free = 0) (hw : x.workers = [])
      (hf : x.finished = [(id, .done r)])
      (hp : visitAll s set policy tool ((x.known set).add set r, x.requests s)
        (x.dispatch.held ++ x.pending) = sequential s set policy tool)
  | forwarding {r k} (hd : x.dispatch = .delivering r true k) (hk : k.target.isLooking = true)
      (hfree : x.free = 0) (hw : x.workers = []) (hf : x.finished = [])
      (hp : visitAll s set policy tool ((x.known set).add set r, x.requests s)
        (k.held ++ x.pending) = sequential s set policy tool)

namespace State.Agrees

/-- A dispatcher that does not deal with the slot may look elsewhere. -/
theorem look (hx : x.Agrees s set policy tool) (hd : x.dispatch.isLooking = true) {d : Dispatch}
    {ts : List Task} (hd' : d.isLooking = true)
    (hh : d.held ++ ts = x.dispatch.held ++ x.pending) :
    ({ x with pending := ts, dispatch := d } : State).Agrees s set policy tool := by
  cases hx with
  | free _ hfree hw hf hp => exact .free hd' hfree hw hf (hh ▸ hp)
  | working _ hfree hw hf ho hp => exact .working hd' hfree hw hf ho (hh ▸ hp)
  | settled _ hfree hw hf hp => exact .settled hd' hfree hw hf (hh ▸ hp)
  | deciding hd'' => rcases hd'' with he | he <;> simp [he, Dispatch.isLooking] at hd
  | passing hd'' | forwarding hd'' => simp [hd'', Dispatch.isLooking] at hd

theorem acquire (hx : x.Agrees s set policy tool) {t : Task}
    (hd : x.dispatch = .choosing t .slot) (hs : 0 < x.free) :
    ({ x with free := x.free - 1, dispatch := .asking t } : State).Agrees s set policy tool := by
  cases hx with
  | free _ hfree hw hf hp =>
      rw [hd] at hp
      exact .deciding (.inl rfl) (by rw [hfree]) hw hf hp
  | working _ hfree | settled _ hfree => omega
  | deciding hd' => rcases hd' with he | he <;> cases hd.symm.trans he
  | passing hd' | forwarding hd' => cases hd.symm.trans hd'

/-- Only a worker that is over is taken back, and nobody else has the slot then. -/
theorem takeBack (hx : x.Agrees s set policy tool) {id : Nat} {e : Exit} {rest : List (Nat × Exit)}
    {k : Resume} (hd : LooksForWorkers x.dispatch k) (hf : x.finished = (id, e) :: rest) :
    ∃ r, e = .done r ∧ ({ x with
      finished := rest
      inFlight := x.inFlight.filter (fun f => f.1 != id)
      dispatch := .delivering r true k } : State).Agrees s set policy tool := by
  cases hx with
  | settled hl hfree hw hf' hp =>
      cases hf.symm.trans hf'
      refine ⟨_, rfl, .forwarding rfl ?_ hfree hw rfl ?_⟩
      · generalize x.dispatch = d at hd
        cases hd <;> rfl
      · rw [hd.held] at hp
        exact hp
  | free _ _ _ hf' | deciding _ _ _ hf' | passing _ _ _ hf' | working _ _ _ hf'
  | forwarding _ _ _ _ hf' => cases hf.symm.trans hf'

/-- A worker that gets the slot does what the plain loop does with the task. -/
theorem spawn (hx : x.Agrees s set policy tool) {t : Task} (hd : x.dispatch = .waiting t)
    (hruling : x.ruling set policy t = .proceed) (reply : Option Reply) :
    ({ x with
      reply := reply
      dispatch := .ready
      workers := x.workers ++ [⟨x.nextId, t, .spawned⟩]
      inFlight := x.inFlight ++ [(x.nextId, t)]
      nextId := x.nextId + 1 } : State).Agrees s set policy tool := by
  cases hx with
  | deciding hd' hfree hw hf hp =>
      rcases hd' with he | he <;> cases hd.symm.trans he
      rw [visitAll, List.foldl_cons, visit_proceed (p := (x.known set, _)) hruling] at hp
      exact .working rfl hfree (by rw [hw]; rfl) hf rfl hp
  | free hl | working hl | settled hl => simp [hd, Dispatch.isLooking] at hl
  | passing hd' | forwarding hd' => cases hd.symm.trans hd'

theorem pass (hx : x.Agrees s set policy tool) {t : Task} (hd : x.dispatch = .waiting t)
    {reason : Option String} (hvisit : ∀ calls, visit s set policy tool (x.known set, calls) t =
      ((x.known set).add set (.skip t reason), calls)) (h : Happening) :
    ({ x with
      reply := none
      free := x.free + 1
      happenings := h :: x.happenings
      dispatch := .delivering (.skip t reason) false .next } : State).Agrees s set policy
        tool := by
  cases hx with
  | deciding hd' hfree hw hf hp =>
      rcases hd' with he | he <;> cases hd.symm.trans he
      rw [visitAll, List.foldl_cons, hvisit] at hp
      exact .passing rfl (by rw [hfree]) hw hf hp
  | free hl | working hl | settled hl => simp [hd, Dispatch.isLooking] at hl
  | passing hd' | forwarding hd' => cases hd.symm.trans hd'

/-- A result that is sent has been counted by the plain loop, too. -/
theorem deliver (hx : x.Agrees s set policy tool) {r : Result} {freesSlot : Bool} {k : Resume}
    (hd : x.dispatch = .delivering r freesSlot k) (i : Inbox) :
    ({ x with
      inbox := i
      sent := r :: x.sent
      free := if freesSlot then x.free + 1 else x.free
      dispatch := k.target } : State).Agrees s set policy tool := by
  have hknown : (Tally.start set).addAll set (r :: x.sent).reverse = (x.known set).add set r := by
    rw [List.reverse_cons, Tally.addAll_concat]
    rfl
  cases hx with
  | passing hd' hfree hw hf hp =>
      cases hd.symm.trans hd'
      refine .free rfl hfree hw hf ?_
      rw [known, hknown]
      exact hp
  | forwarding hd' hk hfree hw hf hp =>
      cases hd.symm.trans hd'
      refine .free hk (by simp [hfree]) hw hf ?_
      rw [known, hknown, Resume.held_target]
      exact hp
  | free hl | working hl | settled hl => simp [hd, Dispatch.isLooking] at hl
  | deciding hd' => rcases hd' with he | he <;> cases hd.symm.trans he

theorem dispatch_cases (hx : x.Agrees s set policy tool) : x.dispatch.isLooking = true ∨
    (∃ t, x.dispatch = .asking t ∨ x.dispatch = .waiting t) ∨
    ∃ r b k, x.dispatch = .delivering r b k := by
  cases hx with
  | free hd | working hd | settled hd => exact .inl hd
  | deciding hd => exact .inr (.inl ⟨_, hd⟩)
  | passing hd | forwarding hd => exact .inr (.inr ⟨_, _, _, hd⟩)

theorem of_steps (hx : x.Agrees s set policy tool) (a : Aggregator) (i : Inbox)
    (reply : Option Reply) :
    ({ x with aggregator := a, inbox := i, reply := reply } : State).Agrees s set policy tool := by
  cases hx with
  | free hd hfree hw hf hp => exact .free hd hfree hw hf hp
  | deciding hd hfree hw hf hp => exact .deciding hd hfree hw hf hp
  | passing hd hfree hw hf hp => exact .passing hd hfree hw hf hp
  | working hd hfree hw hf ho hp => exact .working hd hfree hw hf ho hp
  | settled hd hfree hw hf hp => exact .settled hd hfree hw hf hp
  | forwarding hd hk hfree hw hf hp => exact .forwarding hd hk hfree hw hf hp

end State.Agrees

theorem Dispatches.agrees (h : Dispatches x y) (hx : x.Agrees s set policy tool)
    (hc : x.cancelled = false) (ht : x.Talks set policy)
    (he : x.dispatch.held ≠ [] → x.aggregator.hasEnded = false) :
    y.Agrees s set policy tool := by
  cases h with
  | takeUp hd hp =>
      exact hx.look (by rw [hd]; rfl) rfl (by rw [hd, hp]; rfl)
  | runOut hd hp | goOn hd hp | noneOver hd hp | fallAsleep hd hp | wake hd hp =>
      exact hx.look (by rw [hd]; rfl) rfl (by rw [hd]; rfl)
  | acquire hd hs => exact hx.acquire hd hs
  | giveUp hd hcancel =>
      rw [hc] at hcancel
      cases hcancel
  | forward hd hf =>
      obtain ⟨r, hr, hy⟩ := hx.takeBack hd hf
      cases hr
      exact hy
  | recover hd hf | forget hd hf =>
      obtain ⟨r, hr, -⟩ := hx.takeBack hd hf
      cases hr
  | ask hd hopen hroom =>
      cases hx with
      | deciding hd' hfree hw hf hp =>
          rcases hd' with hd' | hd' <;> cases hd.symm.trans hd'
          exact .deciding (.inr rfl) hfree hw hf hp
      | free hl | working hl | settled hl => simp [hd, Dispatch.isLooking] at hl
      | passing hd' | forwarding hd' => cases hd.symm.trans hd'
  | spawn hl =>
      obtain ⟨hd, hruling, -⟩ := hl.talks ht (he (by rw [hl.held]; simp))
      exact hx.spawn hd hruling _
  | bypass hd hr =>
      obtain ⟨hruling, -⟩ := ht.answer_eq hd hr
      exact hx.pass hd (fun calls => visit_bypass (Reply.decision.inj hruling).symm) _
  | skip hd hr =>
      obtain ⟨hruling, -⟩ := ht.answer_eq hd hr
      exact hx.pass hd (fun calls => visit_skip (Reply.decision.inj hruling).symm) _
  | deliver hd hopen hroom => exact hx.deliver hd _
  | deliverInVain hd hended => exact hx.deliver hd _
  | discard hd | discarded hd | close hd =>
      rcases hx.dispatch_cases with hl | ⟨t, hl | hl⟩ | ⟨r, b, k, hl⟩ <;>
        simp [hd, Dispatch.isLooking] at hl
  | finish hd hf hw =>
      cases hx with
      | free hl hfree hw' hf' hp =>
          refine .free rfl hfree hw' hf' ?_
          rw [hd] at hp
          exact hp
      | working hl hfree hw' => cases hw.symm.trans hw'
      | settled hl hfree hw' hf' => cases hf.symm.trans hf'
      | deciding hd' => rcases hd' with hd' | hd' <;> cases hd.symm.trans hd'
      | passing hd' | forwarding hd' => cases hd.symm.trans hd'

theorem Works.frame (h : Works s x l y) :
    x.workers ≠ [] ∧ y.dispatch = x.dispatch ∧ y.pending = x.pending ∧ y.sent = x.sent := by
  cases h with
  | begin hw | finish hw | pause hw | abort hw | wake hw | giveUp hw | settle hw =>
      exact ⟨List.ne_nil_of_mem hw, rfl, rfl, rfl⟩

theorem Works.agrees (h : Works s x l y) (hx : x.Agrees s set policy tool)
    (hfits : (⟨s.backoff.nanos * s.attempts⟩ : Span).Fits) (hc : x.cancelled = false)
    (hl : x.allows s tool l = true) : y.Agrees s set policy tool := by
  obtain ⟨hne, hdispatch, hpending, hsent⟩ := h.frame
  have hknown : y.known set = x.known set := by rw [State.known, State.known, hsent]
  cases hx with
  | working hd hfree hw hf ho hp =>
      rw [← hdispatch, ← hpending, ← hknown] at hp
      rw [← hdispatch] at hd
      rcases h.outcome? hfits hc hl hw ho with
        ⟨v, hv, -, -, hfin, hfree', hv'⟩ | ⟨hnone, hfin, hfree', hcalls⟩
      · exact .working hd (hfree'.trans hfree) hv (hfin.trans hf) hv' hp
      · rw [hf, List.nil_append] at hfin
        rw [← hcalls] at hp
        exact .settled hd (hfree'.trans hfree) hnone hfin hp
  | free _ _ hw | deciding _ _ hw | passing _ _ hw | settled _ _ hw | forwarding _ _ _ hw =>
      exact (hne hw).elim

theorem Performs.state_agrees (h : Performs s set policy tool x) (hslots : s.limit ≤ 1)
    (hfits : (⟨s.backoff.nanos * s.attempts⟩ : Span).Fits) : x.Agrees s set policy tool := by
  induction h with
  | start =>
      have hone : s.slots = 1 := by
        unfold Settings.slots
        omega
      have hready : (State.start s set policy false).dispatch = .ready := by
        have hbound : ¬ slotBound < s.slots := by
          rw [hone]
          decide
        exact if_neg hbound
      refine .free ?_ hone rfl rfl ?_
      · rw [hready]
        rfl
      · rw [hready]
        rfl
  | step hx hl hs ih =>
      cases moves_of_step? hs with
      | cancel => cases hl
      | dispatcher h =>
          exact h.agrees ih hx.not_cancelled hx.reachable.talks hx.reachable.hasEnded_eq_false
      | aggregator h => exact ih.of_steps _ _ _
      | worker h => exact h.agrees ih hfits hx.not_cancelled hl

/-- When the aggregator returns, it has the tally of the plain loop. -/
theorem Performs.eq_sequential_of_hasEnded (h : Performs s set policy tool x)
    (hslots : s.limit ≤ 1) (hfits : (⟨s.backoff.nanos * s.attempts⟩ : Span).Fits)
    (he : x.aggregator.hasEnded = true) : x.aggregator.phase = .finished ∧
      (x.aggregator.tally, x.requests s) = sequential s set policy tool := by
  have hx := h.state_agrees hslots hfits
  have hfin : x.aggregator.phase = .finished := by
    simp only [Aggregator.hasEnded, Bool.or_eq_true, beq_iff_eq] at he
    refine he.resolve_right fun hi => ?_
    have hd := h.reachable.broken_of_incomplete hi
    rcases hx.dispatch_cases with hl | ⟨t, hl | hl⟩ | ⟨r, b, k, hl⟩ <;>
      simp [hd, Dispatch.isLooking] at hl
  refine ⟨hfin, ?_⟩
  obtain ⟨-, hheld, hflight, hpending, htally⟩ := h.reachable.tally_of_finished hfin
  have hroster := h.reachable.hasRoster
  cases hx with
  | free hd hfree hw hf hp =>
      rw [hheld, hpending] at hp
      rw [htally]
      exact hp
  | deciding hd => rcases hd with hd | hd <;> simp [hd, Dispatch.held] at hheld
  | passing hd | forwarding hd => simp [hd, Dispatch.held] at hheld
  | working hd hfree hw =>
      have hin := hroster.working _ (hw ▸ List.mem_cons_self)
      simp [hflight] at hin
  | settled hd hfree hw hf =>
      have hin := hroster.settled _ (hf ▸ List.mem_cons_self) _ rfl
      simp [hflight] at hin

/-! ## Runs with a tool come to their end -/

theorem Label.Follows.allows (h : l.Follows fun _ => tool.answer (x.requests s)) :
    x.allows s tool l = true := by
  cases l with
  | cancel => exact h.elim
  | answer id a => exact beq_iff_eq.mpr h
  | _ => rfl

theorem Performs.exists_end (h : Performs s set policy tool x) :
    ∃ ls y, perform? s tool x ls = some y ∧ y.aggregator.hasEnded = true := by
  induction hn : x.effort s using Nat.strongRecOn generalizing x with
  | ind n ih =>
      have hx := h.reachable
      cases he : x.aggregator.hasEnded with
      | true => exact ⟨[], x, rfl, he⟩
      | false =>
          obtain ⟨l, hl, hsome⟩ := hx.exists_step he fun _ => tool.answer (x.requests s)
          obtain ⟨y, hy⟩ := Option.isSome_iff_exists.mp hsome
          have hlt := (moves_of_step? hy).effort_lt hx.hasRoster hx.keepsTries
          obtain ⟨ls, z, hz, hend⟩ := ih _ (hn ▸ hlt) (h.step hl.allows hy) rfl
          refine ⟨l :: ls, z, ?_, hend⟩
          rw [perform?, if_pos hl.allows, hy]
          exact hz

theorem steps?_of_perform? {ls : List Label} (h : perform? s tool x ls = some y) :
    steps? s x ls = some y := by
  induction ls generalizing x with
  | nil => exact h
  | cons l ls ih =>
      simp only [perform?, Option.ite_none_right_eq_some, Option.bind_eq_some_iff] at h
      obtain ⟨-, z, hz, h⟩ := h
      rw [steps?, hz]
      exact ih h

/-- With one slot, and when nobody cancels the run, the engine is the plain loop, whatever the
timing: the aggregator never breaks off, and when it returns, it has the tally of the plain loop,
and the calls that were made are the calls of the plain loop. It does return, since no run with the
tool goes on for ever and each can be brought to its end. -/
theorem Performs.eq_sequential (h : Performs s set policy tool x) (hslots : s.limit ≤ 1)
    (hfits : (⟨s.backoff.nanos * s.attempts⟩ : Span).Fits) :
    (x.aggregator.hasEnded = true → x.aggregator.phase = .finished ∧
      (x.aggregator.tally, x.requests s) = sequential s set policy tool) ∧
    (∃ ls y, perform? s tool x ls = some y ∧ y.aggregator.phase = .finished ∧
      (y.aggregator.tally, y.requests s) = sequential s set policy tool) ∧
    ∀ ls y, perform? s tool x ls = some y → ls.length ≤ x.effort s := by
  refine ⟨h.eq_sequential_of_hasEnded hslots hfits, ?_, ?_⟩
  · obtain ⟨ls, y, hy, he⟩ := h.exists_end
    exact ⟨ls, y, hy, (h.of_perform? hy).eq_sequential_of_hasEnded hslots hfits he⟩
  · intro ls y hy
    exact Nat.le_trans (Nat.le_add_right _ _)
      (h.reachable.length_add_effort_le (steps?_of_perform? hy))

/-- A tool that loses its connection twice. -/
def shaky : Tool := fun calls =>
  if calls.length ≤ 2 then some ⟨.network, "connection reset"⟩ else none

/-- The image fails twice, its bundle is given up, and the other image is copied. -/
theorem eq_sequential_of_shaky :
    ∃ x, Performs { frugal with attempts := 2 } bundleBehind ⟨.mirrorToMirror, false⟩ shaky x ∧
      x.aggregator.hasEnded = true ∧
      (x.aggregator.tally, x.requests { frugal with attempts := 2 }) =
        sequential { frugal with attempts := 2 } bundleBehind ⟨.mirrorToMirror, false⟩ shaky := by
  have hrun : ((perform? { frugal with attempts := 2 } shaky
      (State.start { frugal with attempts := 2 } bundleBehind ⟨.mirrorToMirror, false⟩ false)
      (timing [(2, .aggregator), (5, .dispatcher), (6, .aggregator), (1, .dispatcher),
        (1, .begin 0), (1, .answer 0 (.failure ⟨.network, "connection reset"⟩)), (1, .wake 0),
        (1, .answer 0 (.failure ⟨.network, "connection reset"⟩)), (1, .settle 0),
        (4, .dispatcher), (4, .aggregator), (4, .dispatcher), (6, .aggregator), (2, .dispatcher),
        (4, .aggregator), (5, .dispatcher), (6, .aggregator), (1, .dispatcher), (1, .begin 1),
        (1, .answer 1 .success), (1, .settle 1), (3, .dispatcher), (2, .aggregator)])).map
      (fun x => x.aggregator.hasEnded)) = some true := by
    decide +kernel
  obtain ⟨x, hx, he⟩ := Option.map_eq_some_iff.mp hrun
  have hperforms := Performs.start.of_perform? hx
  exact ⟨x, hperforms, he, ((hperforms.eq_sequential (by decide) (by decide)).1 he).2⟩

end ImageBatch.Engine
