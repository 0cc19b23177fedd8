import ImageBatch.Proofs.Engine.Course
import ImageBatch.Proofs.Engine.Overtaking
import ImageBatch.Proofs.Engine.Story

/-!
# The ledger of calls

A ledger posts every result of a run together with the worker from which the dispatcher took it
back. So the calls that are counted in a result can be compared with the calls that this worker
made. They agree unless the worker broke off: then the result tells of no call, though there was at
least one.
-/

namespace ImageBatch.Engine

variable {s : Settings} {set : TaskSet} {policy : SkipPolicy} {cancelled : Bool} {x y z : State}
  {l : Label} {ls seen : List Label} {id n : Nat}

/-! ## Keeping a ledger -/

/-- A result of a run. -/
structure Posting where
  result : Result
  /-- The worker that came with it and how that worker ended, if the task was given to one. -/
  source : Option (Nat × Exit)
deriving DecidableEq

namespace Posting

def worker? (p : Posting) : Option Nat := p.source.map Prod.fst

/-- The worker broke off. -/
def brokeOff (p : Posting) : Bool := p.source.any (fun f => !f.2.holdsSlot)

/-- The worker, with its task. -/
def hand? (p : Posting) : Option (Nat × Task) := p.source.map (fun f => (f.1, p.result.task))

end Posting

/-- The dispatcher takes back a worker now, if one is over. -/
def Dispatch.takesBack : Dispatch → Bool
  | .choosing _ .join => true
  | .draining => true
  | _ => false

/-- Posts the result that comes up in a step from `x` to `y`. The newest posting stands first. -/
def State.post (x y : State) (ps : List Posting) : Label → List Posting
  | .dispatcher =>
    match y.dispatch with
    | .delivering r _ _ => ⟨r, if x.dispatch.takesBack then x.finished.head? else none⟩ :: ps
    | _ => ps
  | _ => ps

/-- Takes the steps and keeps the ledger. -/
def ledger? (s : Settings) (x : State) (ps : List Posting) :
    List Label → Option (State × List Posting)
  | [] => some (x, ps)
  | l :: ls => (step? s x l).bind fun y => ledger? s y (x.post y ps l) ls

theorem map_fst_ledger? (s : Settings) (x : State) (ps : List Posting) (ls : List Label) :
    (ledger? s x ps ls).map Prod.fst = steps? s x ls := by
  induction ls generalizing x ps with
  | nil => rfl
  | cons l ls ih =>
      rw [ledger?, steps?, Option.map_bind]
      cases step? s x l with
      | none => rfl
      | some y => exact ih y (x.post y ps l)

/-! ## Calls and workers -/

/-- How many calls a worker has made. -/
def State.callsBy (x : State) (id : Nat) : Nat := x.calls.countP (fun c => c.worker == id)

/-- How many calls were made for a task. -/
def State.callsFor (x : State) (t : Task) : Nat := x.calls.countP (fun c => c.task == t)

/-- How many calls the worker of a result has made. -/
def Posting.callsIn (p : Posting) (x : State) : Nat :=
  x.calls.countP (fun c => some c.worker == p.worker?)

/-- A call of the worker was answered with a panic. -/
def Panicked (ls : List Label) (id : Nat) : Prop := ∃ words, Label.answer id (.panic words) ∈ ls

/-- The calls that a worker in a phase has made. A result that it comes with tells of all of
them. -/
def Phase.Made (n : Nat) : Phase → Prop
  | .spawned => n = 0
  | .calling k => n = k ∧ 0 < k
  | .pausing k _ _ => n = k ∧ 0 < k
  | .over (.done r) => r.attempts = n ∧ 0 < n ∧ r.isSkip = false
  | .over (.aborted _) => 0 < n

/-- A worker in a phase after so many calls and these steps of the run. It breaks off when a call
panics, and else only if the wait behind its last call does not fit a clock. -/
structure Phase.Accounts (s : Settings) (ls : List Label) (id n : Nat) (p : Phase) : Prop where
  made : p.Made n
  panicked : Panicked ls id → p.holdsSlot = false
  broken : p.holdsSlot = false → Panicked ls id ∨ s.backoff.times? n = none

theorem panicked_cons : Panicked (l :: ls) id ↔
    (∃ words, l = .answer id (.panic words)) ∨ Panicked ls id := by
  simp only [Panicked, List.mem_cons, exists_or, eq_comm]

theorem panicked_cons_of_ne (h : ∀ words, l ≠ .answer id (.panic words)) :
    Panicked (l :: ls) id ↔ Panicked ls id := by
  rw [panicked_cons, or_iff_right]
  rintro ⟨words, hl⟩
  exact h words hl

theorem Phase.Accounts.of_iff {p : Phase} (h : p.Accounts s ls id n)
    (hls : Panicked seen id ↔ Panicked ls id) : p.Accounts s seen id n :=
  ⟨h.made, fun hp => h.panicked (hls.mp hp), fun hp => (h.broken hp).imp_left hls.mpr⟩

theorem Phase.Accounts.go_on {p q : Phase} {m : Nat} (h : p.Accounts s ls id n)
    (hp : p.holdsSlot = true) (hl : ∀ words, l ≠ .answer id (.panic words)) (hm : q.Made m)
    (hq : q.holdsSlot = true) : q.Accounts s (l :: ls) id m := by
  refine ⟨hm, fun hpanicked => ?_, fun hlost => ?_⟩
  · rw [panicked_cons_of_ne hl] at hpanicked
    exact absurd hp (by simp [h.panicked hpanicked])
  · exact absurd hq (by simp [hlost])

/-- A worker whose call is answered ends with a result that tells of all its calls, or waits, or
breaks off. -/
theorem Phase.Accounts.react {c : Bool} {t : Task} {k : Nat} {a : Answer} {p : Phase}
    (h : (Phase.calling k).Accounts s ls id n) (hp : (react s c t k a).phase k = p) :
    p.Accounts s (.answer id a :: ls) id n := by
  subst hp
  obtain ⟨rfl, hk⟩ := h.made
  cases a with
  | success => exact h.go_on rfl (by simp) ⟨rfl, hk, rfl⟩ rfl
  | panic words => exact ⟨hk, fun _ => rfl, fun _ => .inl ⟨words, List.mem_cons_self⟩⟩
  | failure f =>
      by_cases hlast : (!f.category.isRetryable || decide (s.maxAttempts ≤ n) || c) = true
      · rw [Engine.react, if_pos hlast]
        exact h.go_on rfl (by simp) ⟨rfl, hk, rfl⟩ rfl
      · rw [Engine.react, if_neg hlast]
        cases hwait : s.backoff.times? n with
        | some d => exact h.go_on rfl (by simp) ⟨rfl, hk⟩ rfl
        | none =>
            refine ⟨hk, fun hpanicked => ?_, fun _ => .inr hwait⟩
            rw [panicked_cons_of_ne (by simp)] at hpanicked
            exact Bool.noConfusion (h.panicked hpanicked)

/-! ## The books of a run -/

/-- Everybody who was ever hired, with the task. -/
def State.hands (x : State) (ps : List Posting) : List (Nat × Task) :=
  x.inFlight ++ ps.filterMap Posting.hand?

/-- A posting tells how its worker ended. -/
inductive Posting.Tells (s : Settings) (seen : List Label) (x : State) : Posting → Prop where
  | skipped (t : Task) (reason : Option String) : Tells s seen x ⟨.skip t reason, none⟩
  | done {id : Nat} {r : Result} (h : (Phase.over (.done r)).Accounts s seen id (x.callsBy id)) :
    Tells s seen x ⟨r, some (id, .done r)⟩
  | aborted {id : Nat} {words : String} (t : Task)
      (h : (Phase.over (.aborted words)).Accounts s seen id (x.callsBy id)) :
    Tells s seen x ⟨.failure t (abortFailure words) 0, some (id, .aborted words)⟩

/-- The ledger has all results, every call was made by somebody who was hired for its task, and the
calls of each worker are accounted for, whether it is still there or not. -/
structure State.Books (s : Settings) (seen : List Label) (x : State) (ps : List Posting) :
    Prop where
  results : ps.map Posting.result = x.results
  nodup : ((x.hands ps).map Prod.fst).Nodup
  fresh : ∀ f ∈ x.hands ps, f.1 < x.nextId
  calls : ∀ c ∈ x.calls, (c.worker, c.task) ∈ x.hands ps
  heard : ∀ id, Panicked seen id → id < x.nextId
  jobs : ∀ j ∈ x.jobs, j.2.Accounts s seen j.1 (x.callsBy j.1)
  posted : ∀ p ∈ ps, p.Tells s seen x

variable {ps qs : List Posting} {p : Posting}

theorem Posting.Tells.of_iff (h : p.Tells s ls x)
    (hcalls : ∀ f ∈ p.hand?, y.callsBy f.1 = x.callsBy f.1)
    (hls : ∀ f ∈ p.hand?, Panicked seen f.1 ↔ Panicked ls f.1) : p.Tells s seen y := by
  cases h with
  | skipped t reason => exact .skipped t reason
  | done h =>
      have hsame := hcalls _ rfl
      exact .done (hsame ▸ h.of_iff (hls _ rfl))
  | aborted t h =>
      have hsame := hcalls _ rfl
      exact .aborted t (hsame ▸ h.of_iff (hls _ rfl))

/-- After a step that leaves the calls alone and answers none, the books are kept if nobody gets
lost. -/
theorem State.Books.go_on (hx : x.Books s seen ps) (hl : ∀ id words, l ≠ .answer id (.panic words))
    (hcalls : y.calls = x.calls) (hid : y.nextId = x.nextId) (hjobs : y.jobs ⊆ x.jobs)
    (hresults : qs.map Posting.result = y.results) (hhands : (y.hands qs).Perm (x.hands ps))
    (hnew : ∀ p ∈ qs, p ∈ ps ∨ p.Tells s seen x) : y.Books s (l :: seen) qs := by
  have hsame : ∀ id, y.callsBy id = x.callsBy id := fun id => by rw [callsBy, callsBy, hcalls]
  refine ⟨hresults, ?_, ?_, ?_, ?_, ?_, ?_⟩
  · exact (hhands.map Prod.fst).nodup_iff.mpr hx.nodup
  · intro f hf
    rw [hid]
    exact hx.fresh f (hhands.mem_iff.mp hf)
  · intro c hc
    exact hhands.mem_iff.mpr (hx.calls c (hcalls ▸ hc))
  · intro id hpanicked
    rw [hid]
    exact hx.heard id ((panicked_cons_of_ne (hl id)).mp hpanicked)
  · intro j hj
    rw [hsame]
    exact (hx.jobs j (hjobs hj)).of_iff (panicked_cons_of_ne (hl j.1))
  · intro p hp
    have htells : p.Tells s seen x := (hnew p hp).elim (hx.posted p) id
    exact htells.of_iff (fun f _ => hsame f.1) fun f _ => panicked_cons_of_ne (hl f.1)

theorem State.Books.disjoint (hx : x.Books s seen ps) {f : Nat × Task} (hf : f ∈ x.inFlight)
    (hp : p ∈ ps) : ∀ g ∈ p.hand?, g.1 ≠ f.1 := by
  intro g hg he
  have hn := hx.nodup
  rw [hands, List.map_append] at hn
  refine (List.nodup_append.mp hn).2.2 f.1 (List.mem_map_of_mem hf) g.1 ?_ he.symm
  exact List.mem_map_of_mem (List.mem_filterMap.mpr ⟨p, hp, hg⟩)

/-- The jobs of the others stay as they are while one worker gets into a new phase. -/
theorem State.HasRoster.mem_jobs_inPhase (hr : x.HasRoster) {w : Worker} (hw : w ∈ x.workers)
    {q : Phase} (hworkers : y.workers = x.workers.map (Worker.inPhase w.id q))
    (hfinished : y.finished = x.finished) {j : Nat × Phase} (hj : j ∈ y.jobs) :
    j = (w.id, q) ∨ j ∈ x.jobs ∧ j.1 ≠ w.id := by
  rw [State.jobs, hworkers, hfinished, List.mem_append, List.map_map, List.mem_map] at hj
  rcases hj with ⟨v, hv, rfl⟩ | hj
  · by_cases hid : v.id = w.id
    · exact .inl (by simp [Worker.inPhase, hid])
    · right
      simp only [Function.comp_apply, Worker.inPhase_of_ne hid]
      exact ⟨List.mem_append_left _ (List.mem_map.mpr ⟨v, hv, rfl⟩), hid⟩
  · refine .inr ⟨List.mem_append_right _ hj, fun hid => ?_⟩
    have hn := hr.nodup_jobs
    rw [State.jobs, List.map_append] at hn
    refine (List.nodup_append.mp hn).2.2 w.id ?_ j.1 (List.mem_map_of_mem hj) hid.symm
    rw [List.map_map]
    exact List.mem_map_of_mem (f := Worker.id) hw

theorem State.Books.work (hx : x.Books s seen ps) (hr : x.HasRoster) {w : Worker}
    (hw : w ∈ x.workers) {q : Phase} (new : List Invocation)
    (hl : ∀ id words, l = .answer id (.panic words) → id = w.id)
    (hcalls : y.calls = new ++ x.calls) (hnew : ∀ c ∈ new, c.worker = w.id ∧ c.task = w.task)
    (hworkers : y.workers = x.workers.map (Worker.inPhase w.id q))
    (hfinished : y.finished = x.finished) (hflight : y.inFlight = x.inFlight)
    (hid : y.nextId = x.nextId) (hresults : y.results = x.results)
    (hq : w.phase.Accounts s seen w.id (x.callsBy w.id) →
      q.Accounts s (l :: seen) w.id (new.length + x.callsBy w.id)) :
    y.Books s (l :: seen) ps := by
  have hin := hr.working w hw
  have hjob : (w.id, w.phase) ∈ x.jobs :=
    List.mem_append_left _ (List.mem_map_of_mem (f := fun v => (v.id, v.phase)) hw)
  have hhands : y.hands ps = x.hands ps := by rw [hands, hands, hflight]
  have hself : y.callsBy w.id = new.length + x.callsBy w.id := by
    rw [callsBy, hcalls, List.countP_append, List.countP_eq_length.mpr]
    · rfl
    · intro c hc
      simpa using (hnew c hc).1
  have hother : ∀ {id}, id ≠ w.id → y.callsBy id = x.callsBy id := by
    intro id hne
    rw [callsBy, hcalls, List.countP_append, List.countP_eq_zero.mpr, Nat.zero_add]
    · rfl
    · intro c hc
      rw [(hnew c hc).1]
      simpa using Ne.symm hne
  have hquiet : ∀ {id}, id ≠ w.id → (Panicked (l :: seen) id ↔ Panicked seen id) := by
    intro id hne
    exact panicked_cons_of_ne fun words he => hne (hl id words he)
  refine ⟨hx.results.trans hresults.symm, ?_, ?_, ?_, ?_, ?_, ?_⟩
  · rw [hhands]
    exact hx.nodup
  · rw [hhands, hid]
    exact hx.fresh
  · intro c hc
    rw [hhands]
    rcases List.mem_append.mp (hcalls ▸ hc) with hc | hc
    · obtain ⟨hworker, htask⟩ := hnew c hc
      exact List.mem_append_left _ (hworker ▸ htask ▸ hin)
    · exact hx.calls c hc
  · intro i hpanicked
    rw [hid]
    by_cases hi : i = w.id
    · exact hi ▸ hr.id_lt hw
    · exact hx.heard i ((hquiet hi).mp hpanicked)
  · intro j hj
    rcases hr.mem_jobs_inPhase hw hworkers hfinished hj with rfl | ⟨hj, hne⟩
    · rw [hself]
      exact hq (hx.jobs _ hjob)
    · rw [hother hne]
      exact (hx.jobs j hj).of_iff (hquiet hne)
  · intro p hp
    have hne := hx.disjoint hin hp
    exact (hx.posted p hp).of_iff (fun f hf => hother (hne f hf)) fun f hf => hquiet (hne f hf)

theorem Works.books (h : Works s x l y) (hr : x.HasRoster) (hx : x.Books s seen ps) :
    y.Books s (l :: seen) ps := by
  cases h with
  | @begin w hw hp =>
      refine hx.work hr hw [⟨w.id, w.task, 1⟩] (by simp) rfl (by simp) rfl rfl rfl rfl rfl ?_
      intro hw'
      rw [hp] at hw'
      have hnone : x.callsBy w.id = 0 := hw'.made
      exact hw'.go_on rfl (by simp) ⟨by rw [hnone]; rfl, Nat.zero_lt_one⟩ rfl
  | @wake w k wait f hw hp =>
      refine hx.work hr hw [⟨w.id, w.task, k + 1⟩] (by simp) rfl (by simp) rfl rfl rfl rfl
        rfl ?_
      intro hw'
      rw [hp] at hw'
      exact hw'.go_on rfl (by simp) ⟨by rw [hw'.made.1, Nat.add_comm]; rfl, Nat.succ_pos k⟩ rfl
  | @finish w k a h e hw hp ha | @pause w k a h wait f hw hp ha | @abort w k a words hw hp ha =>
      refine hx.work hr hw [] (fun _ _ he => (Label.answer.inj he).1.symm) rfl (by simp) rfl
        rfl rfl rfl rfl ?_
      intro hw'
      rw [hp] at hw'
      rw [List.length_nil, Nat.zero_add]
      exact hw'.react (by rw [ha]; rfl)
  | @giveUp w k wait f hw hp hc =>
      refine hx.work hr hw [] (by simp) rfl (by simp) rfl rfl rfl rfl rfl ?_
      intro hw'
      rw [hp] at hw'
      rw [List.length_nil, Nat.zero_add]
      obtain ⟨hmade, hk⟩ := hw'.made
      exact hw'.go_on rfl (by simp) ⟨hmade.symm, hmade ▸ hk, rfl⟩ rfl
  | @settle w e hw hp =>
      refine hx.go_on (by simp) rfl rfl ?_ hx.results (List.Perm.refl _) fun p hp => .inl hp
      intro j hj
      simp only [State.jobs, List.map_append, List.mem_append, List.map_cons, List.map_nil,
        List.mem_singleton] at hj
      rcases hj with hj | hj | rfl
      · exact List.mem_append_left _ (List.map_subset _ (List.filter_subset_self _) hj)
      · exact List.mem_append_right _ hj
      · exact List.mem_append_left _ (List.mem_map.mpr ⟨w, hw, by rw [hp]⟩)

theorem State.post_of_not_delivering (hd : y.dispatch.outgoing = []) : x.post y ps l = ps := by
  unfold post
  split
  · split
    · rename_i h
      rw [h] at hd
      cases hd
    · rfl
  · rfl

theorem LooksForWorkers.takesBack {d : Dispatch} {k : Resume} (h : LooksForWorkers d k) :
    d.takesBack = true := by
  cases h <;> rfl

theorem State.Books.pass (hx : x.Books s seen ps) {t : Task} {reason : Option String} {k : Resume}
    (hd : y.dispatch = .delivering (.skip t reason) false k) (hd' : x.dispatch.takesBack = false)
    (hnone : x.dispatch.outgoing = []) (hsent : y.sent = x.sent) (hcalls : y.calls = x.calls)
    (hid : y.nextId = x.nextId) (hjobs : y.jobs = x.jobs) (hflight : y.inFlight = x.inFlight) :
    y.Books s (.dispatcher :: seen) (x.post y ps .dispatcher) := by
  have hpost : x.post y ps .dispatcher = ⟨.skip t reason, none⟩ :: ps := by
    rw [post, hd, hd']
    rfl
  rw [hpost]
  refine hx.go_on (by simp) hcalls hid (fun _ hj => hjobs ▸ hj) ?_ ?_ ?_
  · rw [List.map_cons, hx.results, State.results, State.results, hd, hnone, hsent]
    rfl
  · rw [hands, hands, hflight]
    exact List.Perm.refl _
  · intro p hp
    rcases List.mem_cons.mp hp with rfl | hp
    · exact .inr (.skipped t reason)
    · exact .inl hp

/-- The dispatcher takes back a worker, and a result for its task comes up. -/
theorem State.Books.takeBack (hx : x.Books s seen ps) (hr : x.HasRoster) {r : Result} {e : Exit}
    {rest : List (Nat × Exit)} {k : Resume} {freesSlot : Bool}
    (hlooks : LooksForWorkers x.dispatch k) (hf : x.finished = (id, e) :: rest)
    (hin : (id, r.task) ∈ x.inFlight)
    (hd : y.dispatch = .delivering r freesSlot k) (hsent : y.sent = x.sent)
    (hcalls : y.calls = x.calls) (hid : y.nextId = x.nextId) (hworkers : y.workers = x.workers)
    (hrest : y.finished = rest) (hflight : y.inFlight = x.inFlight.filter (fun f => f.1 != id))
    (htells : (Phase.over e).Accounts s seen id (x.callsBy id) →
      (⟨r, some (id, e)⟩ : Posting).Tells s seen x) :
    y.Books s (.dispatcher :: seen) (x.post y ps .dispatcher) := by
  have hpost : x.post y ps .dispatcher = ⟨r, some (id, e)⟩ :: ps := by
    rw [post, hd, hlooks.takesBack, hf]
    rfl
  rw [hpost]
  refine hx.go_on (by simp) hcalls hid ?_ ?_ ?_ ?_
  · exact State.jobs_subset hworkers (by rw [hrest, hf]; exact List.subset_cons_self _ _)
  · rw [List.map_cons, hx.results, State.results, State.results, hd, hlooks.outgoing, hsent]
    rfl
  · rw [hands, hands, hflight]
    exact List.perm_middle.trans ((perm_cons_filter Prod.fst hr.nodup hin).symm.append_right _)
  · intro p hp
    rcases List.mem_cons.mp hp with rfl | hp
    · exact .inr (htells (hx.jobs _ (State.mem_jobs_of_finished (hf ▸ List.mem_cons_self))))
    · exact .inl hp

/-- A dispatcher that has no new result keeps the ledger as it is. -/
theorem State.Books.stay (hx : x.Books s seen ps) (hd : y.dispatch.outgoing = [])
    (hresults : y.results = x.results) (hcalls : y.calls = x.calls) (hid : y.nextId = x.nextId)
    (hjobs : y.jobs = x.jobs) (hflight : y.inFlight = x.inFlight) :
    y.Books s (.dispatcher :: seen) (x.post y ps .dispatcher) := by
  rw [post_of_not_delivering hd]
  refine hx.go_on (by simp) hcalls hid (fun _ hj => hjobs ▸ hj) (hx.results.trans hresults.symm) ?_
    fun p hp => .inl hp
  rw [hands, hands, hflight]

theorem LearnsToProceed.outgoing {t : Task} {reply : Option Reply} (h : LearnsToProceed x t reply) :
    x.dispatch.outgoing = [] := by
  rcases h.dispatch_eq with hd | hd <;> rw [hd] <;> rfl

theorem State.Books.hire (hx : x.Books s seen ps) (t : Task)
    (hworkers : y.workers = x.workers ++ [⟨x.nextId, t, .spawned⟩])
    (hfinished : y.finished = x.finished) (hflight : y.inFlight = x.inFlight ++ [(x.nextId, t)])
    (hid : y.nextId = x.nextId + 1) (hcalls : y.calls = x.calls)
    (hresults : y.results = x.results) :
    y.Books s (.dispatcher :: seen) ps := by
  have hsame : ∀ id, y.callsBy id = x.callsBy id := fun id => by rw [callsBy, callsBy, hcalls]
  have hquiet : ∀ id, Panicked (.dispatcher :: seen) id ↔ Panicked seen id :=
    fun id => panicked_cons_of_ne (by simp)
  have hhands : (y.hands ps).Perm ((x.nextId, t) :: x.hands ps) := by
    rw [hands, hands, hflight, List.append_assoc, List.singleton_append]
    exact List.perm_middle
  refine ⟨hx.results.trans hresults.symm, ?_, ?_, ?_, ?_, ?_, ?_⟩
  · refine (hhands.map Prod.fst).nodup_iff.mpr (List.nodup_cons.mpr ⟨fun hin => ?_, hx.nodup⟩)
    obtain ⟨f, hf, he⟩ := List.mem_map.mp hin
    exact Nat.lt_irrefl _ (he ▸ hx.fresh f hf)
  · intro f hf
    rw [hid]
    rcases List.mem_cons.mp (hhands.mem_iff.mp hf) with rfl | hf
    · exact Nat.lt_succ_self _
    · exact Nat.lt_succ_of_lt (hx.fresh f hf)
  · intro c hc
    exact hhands.mem_iff.mpr (List.mem_cons_of_mem _ (hx.calls c (hcalls ▸ hc)))
  · intro i hpanicked
    rw [hid]
    exact Nat.lt_succ_of_lt (hx.heard i ((hquiet i).mp hpanicked))
  · intro j hj
    rw [hsame]
    simp only [State.jobs, hworkers, hfinished, List.map_append, List.map_cons, List.map_nil,
      List.mem_append, List.mem_singleton] at hj
    rcases hj with (hj | rfl) | hj
    · exact (hx.jobs j (List.mem_append_left _ hj)).of_iff (hquiet _)
    · have hnone : x.callsBy x.nextId = 0 := by
        refine List.countP_eq_zero.mpr fun c hc he => ?_
        have hlt := hx.fresh _ (hx.calls c hc)
        rw [eq_of_beq he] at hlt
        exact Nat.lt_irrefl _ hlt
      refine ⟨hnone, fun hpanicked => ?_, fun hfree => by cases hfree⟩
      exact absurd (hx.heard _ ((hquiet _).mp hpanicked)) (Nat.lt_irrefl _)
    · exact (hx.jobs j (List.mem_append_right _ hj)).of_iff (hquiet _)
  · intro p hp
    exact (hx.posted p hp).of_iff (fun f _ => hsame f.1) fun f _ => hquiet f.1

theorem Dispatches.books (h : Dispatches x y) (hr : x.HasRoster) (hx : x.Books s seen ps) :
    y.Books s (.dispatcher :: seen) (x.post y ps .dispatcher) := by
  cases h with
  | takeUp hd | runOut hd | goOn hd | noneOver hd | acquire hd | fallAsleep hd | wake hd | ask hd
  | discarded hd | finish hd =>
      refine hx.stay rfl ?_ rfl rfl rfl rfl
      rw [State.results, State.results, hd]
      rfl
  | close hd => exact hx.stay (by rw [hd]; rfl) rfl rfl rfl rfl rfl
  | deliver hd | deliverInVain hd =>
      refine hx.stay (Resume.outgoing_target _) ?_ rfl rfl rfl rfl
      rw [State.results, State.results, hd, Resume.outgoing_target]
      rfl
  | giveUp hd | bypass hd | skip hd | discard hd =>
      exact hx.pass rfl (by rw [hd]; rfl) (by rw [hd]; rfl) rfl rfl rfl rfl rfl
  | forward hd hf =>
      exact hx.takeBack hr hd hf (hr.settled _ (hf ▸ List.mem_cons_self) _ rfl) rfl rfl rfl rfl rfl
        rfl rfl .done
  | recover hd hf hlookup =>
      exact hx.takeBack hr hd hf (mem_of_lookup_eq_some hlookup) rfl rfl rfl rfl rfl rfl rfl
        (.aborted _)
  | forget hd hf hlookup => exact absurd hlookup (hr.lookup_ne_none hf)
  | @spawn t reply hl =>
      rw [State.post_of_not_delivering rfl]
      exact hx.hire _ rfl rfl rfl rfl rfl (by rw [State.results, State.results, hl.outgoing]; rfl)

/-! ## The ledger of a run -/

theorem Moves.books (h : Moves s x l y) (hr : x.HasRoster) (hx : x.Books s seen ps) :
    y.Books s (l :: seen) (x.post y ps l) := by
  cases h with
  | cancel hc | aggregator h =>
      exact hx.go_on (by simp) rfl rfl (List.Subset.refl _) hx.results (List.Perm.refl _)
        fun p hp => .inl hp
  | dispatcher h => exact h.books hr hx
  | worker h =>
      have hpost : x.post y ps l = ps := by
        cases h <;> rfl
      rw [hpost]
      exact h.books hr hx

theorem State.books_start (s : Settings) (set : TaskSet) (policy : SkipPolicy) (cancelled : Bool) :
    (State.start s set policy cancelled).Books s [] [] := by
  have hnone : (State.start s set policy cancelled).results = [] := by
    rcases State.dispatch_start s set policy cancelled with hd | hd <;> rw [results, hd] <;> rfl
  refine ⟨hnone.symm, List.nodup_nil, ?_, ?_, ?_, ?_, ?_⟩
  · exact List.forall_mem_nil _
  · exact List.forall_mem_nil _
  · rintro id ⟨words, hin⟩
    cases hin
  · exact List.forall_mem_nil _
  · exact List.forall_mem_nil _

theorem State.Books.of_ledger? (hx : x.Books s seen ps)
    (hreach : Reachable s set policy cancelled x) (h : ledger? s x ps ls = some (y, qs)) :
    y.Books s (ls.reverse ++ seen) qs := by
  induction ls generalizing x ps seen with
  | nil =>
      cases h
      exact hx
  | cons l ls ih =>
      obtain ⟨z, hz, h⟩ := Option.bind_eq_some_iff.mp h
      rw [List.reverse_cons, List.append_assoc]
      exact ih ((moves_of_step? hz).books hreach.hasRoster hx) (hreach.step hz) h

theorem books_of_ledger? (h : ledger? s (State.start s set policy cancelled) [] ls = some (x, ps)) :
    Reachable s set policy cancelled x ∧ x.Books s ls.reverse ps := by
  have hsteps : steps? s (State.start s set policy cancelled) ls = some x := by
    rw [← map_fst_ledger? s _ [] ls, h]
    rfl
  have hbooks := (State.books_start s set policy cancelled).of_ledger? .start h
  rw [List.append_nil] at hbooks
  exact ⟨Reachable.start.of_steps? hsteps, hbooks⟩

/-! ## Calls and results -/

/-- The result of a posting goes with the calls of a run: it tells of all calls of its worker,
unless the worker broke off. -/
structure Posting.Agrees (s : Settings) (ls : List Label) (x : State) (p : Posting) : Prop where
  attempts : p.result.attempts = if p.brokeOff then 0 else p.callsIn x
  untouched : p.callsIn x = 0 ↔ p.result.isSkip = true
  own : ∀ c ∈ x.calls, some c.worker = p.worker? → c.task = p.result.task
  panicked : ∀ id, p.worker? = some id → Panicked ls id → p.brokeOff = true
  broken : p.brokeOff = true → ∃ id, p.worker? = some id ∧
    (Panicked ls id ∨ s.backoff.times? (x.callsBy id) = none)

theorem Posting.callsIn_eq (h : p.worker? = some id) : p.callsIn x = x.callsBy id := by
  rw [callsIn, State.callsBy, h]
  refine List.countP_congr fun c _ => ?_
  rw [beq_iff_eq, beq_iff_eq, Option.some_inj]

theorem Posting.callsIn_of_none (h : p.worker? = none) : p.callsIn x = 0 := by
  rw [callsIn, h]
  exact List.countP_eq_zero.mpr fun c _ => by simp

theorem Posting.hand?_of_worker? (h : p.worker? = some id) :
    p.hand? = some (id, p.result.task) := by
  obtain ⟨f, hf, rfl⟩ := Option.map_eq_some_iff.mp h
  rw [hand?, hf]
  rfl

theorem State.Books.own (hx : x.Books s seen ps) (hp : p ∈ ps) :
    ∀ c ∈ x.calls, some c.worker = p.worker? → c.task = p.result.task := by
  intro c hc hworker
  have hmine : (c.worker, p.result.task) ∈ x.hands ps :=
    List.mem_append_right _
      (List.mem_filterMap.mpr ⟨p, hp, Posting.hand?_of_worker? hworker.symm⟩)
  have heq := List.inj_on_of_nodup_map hx.nodup (hx.calls c hc) hmine rfl
  exact (Prod.mk.inj heq).2

theorem State.Books.agrees (hx : x.Books s seen.reverse ps) (hp : p ∈ ps) : p.Agrees s seen x := by
  have hown := hx.own hp
  have hheard : ∀ id, Panicked seen.reverse id ↔ Panicked seen id := by simp [Panicked]
  cases hx.posted p hp with
  | skipped t reason =>
      have hnone := Posting.callsIn_of_none (p := ⟨.skip t reason, none⟩) (x := x) rfl
      refine ⟨hnone.symm, ⟨fun _ => rfl, fun _ => hnone⟩, hown, ?_, ?_⟩
      · rintro id ⟨⟩
      · rintro ⟨⟩
  | @done id r h =>
      obtain ⟨hattempts, hpos, hskip⟩ := h.made
      have hcalls := Posting.callsIn_eq (p := ⟨r, some (id, .done r)⟩) (x := x) rfl
      refine ⟨hattempts.trans hcalls.symm, ?_, hown, ?_, fun h => by cases h⟩
      · rw [hcalls, hskip]
        simpa using Nat.ne_of_gt hpos
      · rintro i ⟨⟩ hpanicked
        exact Bool.noConfusion (h.panicked ((hheard id).mpr hpanicked))
  | @aborted id words t h =>
      have hpos : 0 < x.callsBy id := h.made
      have hcalls := Posting.callsIn_eq
        (p := ⟨.failure t (abortFailure words) 0, some (id, .aborted words)⟩) (x := x) rfl
      refine ⟨rfl, ?_, hown, fun _ _ _ => rfl, fun _ => ⟨id, rfl, ?_⟩⟩
      · rw [hcalls]
        simpa [Result.failure, Result.isSkip] using Nat.ne_of_gt hpos
      · exact (h.broken rfl).imp_left (hheard id).mp

/-- Who has, or had, each task that was taken up. -/
def State.holders (x : State) (ps : List Posting) : List (Task × Option Nat) :=
  ps.map (fun p => (p.result.task, p.worker?)) ++ x.inFlight.map (fun f => (f.2, some f.1))

theorem State.mem_holders {c : Nat × Task} (hc : c ∈ x.hands ps) :
    (c.2, some c.1) ∈ x.holders ps := by
  rcases List.mem_append.mp hc with hc | hc
  · exact List.mem_append_right _ (List.mem_map_of_mem (f := fun f => (f.2, some f.1)) hc)
  · obtain ⟨p, hp, hhand⟩ := List.mem_filterMap.mp hc
    obtain ⟨f, hf, rfl⟩ := Option.map_eq_some_iff.mp hhand
    refine List.mem_append_left _ (List.mem_map.mpr ⟨p, hp, ?_⟩)
    rw [Posting.worker?, hf]
    rfl

theorem State.Books.nodup_holders (hx : x.Books s seen ps) (haccount : x.account.Nodup) :
    ((x.holders ps).map Prod.fst).Nodup := by
  have htasks : (x.holders ps).map Prod.fst =
      x.results.map Result.task ++ x.inFlight.map Prod.snd := by
    rw [holders, List.map_append, List.map_map, List.map_map, ← hx.results, List.map_map]
    rfl
  rw [htasks]
  refine (x.account_perm_stages.nodup_iff.mp haccount).sublist ?_
  exact (List.sublist_append_left _ _).append_right _

/-- The calls for a task are the calls of the worker that it was given to. -/
theorem State.Books.callsIn_eq_callsFor (hx : x.Books s seen ps) (haccount : x.account.Nodup)
    (hp : p ∈ ps) : p.callsIn x = x.callsFor p.result.task := by
  refine List.countP_congr fun c hc => ?_
  rw [beq_iff_eq, beq_iff_eq]
  refine ⟨hx.own hp c hc, fun htask => ?_⟩
  have hmine : (p.result.task, p.worker?) ∈ x.holders ps :=
    List.mem_append_left _ (List.mem_map_of_mem (f := fun p => (p.result.task, p.worker?)) hp)
  have heq := List.inj_on_of_nodup_map (hx.nodup_holders haccount)
    (State.mem_holders (hx.calls c hc)) hmine htask
  exact (Prod.mk.inj heq).2

/-- A result tells of the calls that were made for its task, whatever the timing, the answers and
the moment of a cancellation, and a result of a task that nobody was given tells of none. The result
of a worker that broke off tells of none as well, though it has made at least one. -/
theorem attempts_of_ledger
    (h : ledger? s (State.start s set policy cancelled) [] ls = some (x, ps)) :
    Reachable s set policy cancelled x ∧ ps.map Posting.result = x.results ∧
      (ps.filterMap Posting.worker?).Nodup ∧ (∀ p ∈ ps, p.Agrees s ls x) ∧
      (set.tasks.Nodup → ∀ p ∈ ps, p.callsIn x = x.callsFor p.result.task) := by
  obtain ⟨hreach, hbooks⟩ := books_of_ledger? h
  refine ⟨hreach, hbooks.results, ?_, fun p hp => hbooks.agrees hp, fun hn p hp => ?_⟩
  · have hn := hbooks.nodup
    rw [State.hands, List.map_append] at hn
    have hworkers : (ps.filterMap Posting.hand?).map Prod.fst = ps.filterMap Posting.worker? := by
      rw [List.map_filterMap]
      refine List.filterMap_congr fun p _ => ?_
      rw [Posting.hand?, Option.map_map]
      rfl
    exact hworkers ▸ (List.nodup_append.mp hn).2.1
  · exact hbooks.callsIn_eq_callsFor (hreach.account_perm.nodup_iff.mpr hn) hp

/-- The second call of the first worker panics, and its successor calls once. -/
def lateBreak : List Label :=
  timing [(2, .aggregator), (5, .dispatcher), (6, .aggregator), (1, .dispatcher), (1, .begin 0),
    (1, .answer 0 (.failure ⟨.network, "connection reset"⟩)), (1, .wake 0),
    (1, .answer 0 (.panic "broken")), (1, .settle 0), (4, .dispatcher), (4, .aggregator),
    (4, .dispatcher), (6, .aggregator), (1, .dispatcher), (1, .begin 1), (1, .answer 1 .success),
    (1, .settle 1), (3, .dispatcher)]

theorem attempts_of_lateBreak :
    ∃ x ps, ledger? persistent (State.start persistent threeImages ⟨.mirrorToMirror, false⟩ false)
        [] lateBreak = some (x, ps) ∧
      ps.map (fun p => (p.result.attempts, p.brokeOff, x.callsFor p.result.task)) =
        [(1, false, 1), (0, true, 2)] ∧
      (∀ p ∈ ps, p.Agrees persistent lateBreak x) ∧ threeImages.tasks.Nodup ∧
      ∀ p ∈ ps, p.callsIn x = x.callsFor p.result.task := by
  have hrun : (ledger? persistent
      (State.start persistent threeImages ⟨.mirrorToMirror, false⟩ false) [] lateBreak).map
        (fun b => b.2.map fun p => (p.result.attempts, p.brokeOff, b.1.callsFor p.result.task)) =
      some [(1, false, 1), (0, true, 2)] := by
    decide +kernel
  obtain ⟨⟨x, ps⟩, hledger, hcalls⟩ := Option.map_eq_some_iff.mp hrun
  obtain ⟨-, -, -, hagrees, hfor⟩ := attempts_of_ledger hledger
  have hn : threeImages.tasks.Nodup := by decide
  exact ⟨x, ps, hledger, hcalls, hagrees, hn, hfor hn⟩

end ImageBatch.Engine
