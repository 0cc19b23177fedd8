import ImageBatch.Proofs.Engine.Dependents

/-!
# Tasks that overtake a lost worker

The slot of a worker comes free when its result is on the stream, or when the worker breaks off. In
the second case the dispatcher has to notice first, and until then the worker is lost: its slot may
be taken for another task while its result is not on the stream. Such a task overtakes it.

So the workers without a result on the stream are fewer than the slots at just those moments at which
a slot is taken and nobody is overtaken. With one slot, and if no task ever overtakes a lost worker,
the results are in the order of the tasks, and a bundle is given up whatever became of the worker of
an image that it needs.
-/

namespace ImageBatch.Engine

variable {s : Settings} {set : TaskSet} {policy : SkipPolicy} {cancelled : Bool} {x y : State}
  {l : Label} {ts : List Task}

/-! ## Workers and their results -/

/-- A result that a worker comes with is no skip. -/
structure State.IsEarnest (x : State) : Prop where
  unseen : ∀ w ∈ x.workers, ∀ r, w.phase = .over (.done r) → r.isSkip = false
  seen : ∀ f ∈ x.finished, ∀ r, f.2 = .done r → r.isSkip = false

theorem isSkip_of_react {c : Bool} {t : Task} {k : Nat} {a : Answer} {h : Happening} {r : Result}
    (hr : react s c t k a = .finish h (.done r)) : r.isSkip = false := by
  cases a with
  | success =>
      simp only [react, Reaction.finish.injEq, Exit.done.injEq] at hr
      exact hr.2 ▸ rfl
  | panic words => simp [react] at hr
  | failure f =>
      simp only [react] at hr
      split at hr
      · simp only [giveUp, Reaction.finish.injEq, Exit.done.injEq] at hr
        exact hr.2 ▸ rfl
      · split at hr <;> cases hr

theorem State.IsEarnest.inPhase (hx : x.IsEarnest) {w : Worker} {p : Phase}
    (hp : ∀ r, p = .over (.done r) → r.isSkip = false) :
    ∀ v ∈ x.workers.map (Worker.inPhase w.id p), ∀ r, v.phase = .over (.done r) →
      r.isSkip = false := by
  intro v hv r hr
  obtain ⟨u, hu, rfl⟩ := List.mem_map.mp hv
  by_cases hid : u.id = w.id
  · exact hp r (by simpa [Worker.inPhase, hid] using hr)
  · exact hx.unseen u hu r (by simpa [Worker.inPhase, hid] using hr)

theorem Dispatches.isEarnest (h : Dispatches x y) (hx : x.IsEarnest) : y.IsEarnest := by
  cases h with
  | forward hd hf | recover hd hf | forget hd hf =>
      refine ⟨hx.unseen, fun f hmem => hx.seen f ?_⟩
      rw [hf]
      exact List.mem_cons_of_mem _ hmem
  | spawn hl =>
      refine ⟨?_, hx.seen⟩
      intro w hw r hr
      rcases List.mem_append.mp hw with hw | hw
      · exact hx.unseen w hw r hr
      · cases List.mem_singleton.mp hw
        cases hr
  | _ => exact ⟨hx.unseen, hx.seen⟩

theorem Works.isEarnest (h : Works s x l y) (hx : x.IsEarnest) : y.IsEarnest := by
  cases h with
  | begin hw hp | pause hw hp ha | abort hw hp ha | wake hw hp =>
      exact ⟨hx.inPhase (by simp), hx.seen⟩
  | finish hw hp ha =>
      refine ⟨hx.inPhase ?_, hx.seen⟩
      rintro r hr
      cases hr
      exact isSkip_of_react ha
  | giveUp hw hp hc =>
      refine ⟨hx.inPhase ?_, hx.seen⟩
      rintro r hr
      cases hr
      rfl
  | settle hw hp =>
      refine ⟨fun v hv => hx.unseen v (List.mem_filter.mp hv).1, ?_⟩
      intro f hf r hr
      rcases List.mem_append.mp hf with hf | hf
      · exact hx.seen f hf r hr
      · cases List.mem_singleton.mp hf
        exact hx.unseen _ hw r (hp.trans (congrArg _ hr))

theorem Reachable.isEarnest (h : Reachable s set policy cancelled x) : x.IsEarnest := by
  refine Reachable.induction (P := State.IsEarnest) ?_ ?_ h
  · constructor <;> simp [State.start]
  · intro x l y hx ih hm
    cases hm with
    | cancel hc => exact ⟨ih.unseen, ih.seen⟩
    | dispatcher hm => exact hm.isEarnest ih
    | aggregator hm => exact ⟨ih.unseen, ih.seen⟩
    | worker hm => exact hm.isEarnest ih

/-- How many of the results are from workers. -/
def workersResults (rs : List Result) : Nat := rs.countP (fun r => !r.isSkip)

/-- Every worker that was hired is in flight, or its result is there. -/
def State.KeepsCount (x : State) : Prop := x.nextId = x.inFlight.length + workersResults x.results

theorem State.HasRoster.length_takeBack (hx : x.HasRoster) {id : Nat} {t : Task}
    (ht : (id, t) ∈ x.inFlight) :
    x.inFlight.length = (x.inFlight.filter (fun f => f.1 != id)).length + 1 :=
  (perm_cons_filter Prod.fst hx.nodup ht).length_eq

theorem Dispatches.keepsCount (h : Dispatches x y) (hr : x.HasRoster) (he : x.IsEarnest)
    (hx : x.KeepsCount) : y.KeepsCount := by
  unfold State.KeepsCount State.results workersResults at hx ⊢
  cases h with
  | takeUp hd | runOut hd | goOn hd | noneOver hd | acquire hd | fallAsleep hd | wake hd | ask hd
  | discarded hd | finish hd =>
      rw [hd] at hx
      exact hx
  | close hd ho => exact hx
  | giveUp hd | bypass hd | skip hd | discard hd =>
      rw [hd] at hx
      exact hx
  | @forward k id r rest hd hf =>
      have hin : (id, r.task) ∈ x.inFlight := hr.settled _ (hf ▸ List.mem_cons_self) r rfl
      have hskip : r.isSkip = false := he.seen _ (hf ▸ List.mem_cons_self) r rfl
      have hlen := hr.length_takeBack hin
      rw [hd.outgoing] at hx
      simp only [Dispatch.outgoing, List.singleton_append, List.nil_append, List.countP_cons,
        hskip] at hx ⊢
      simp only [Bool.not_false, if_true]
      omega
  | recover hd hf hlookup =>
      have hlen := hr.length_takeBack (mem_of_lookup_eq_some hlookup)
      rw [hd.outgoing] at hx
      simp only [Dispatch.outgoing, List.singleton_append, List.nil_append, List.countP_cons,
        Result.isSkip, Result.failure] at hx ⊢
      simp only [Bool.not_false, if_true]
      omega
  | forget hd hf hlookup => exact absurd hlookup (hr.lookup_ne_none hf)
  | spawn hl =>
      have hout : x.dispatch.outgoing = [] := by
        rcases hl.dispatch_eq with hd | hd <;> rw [hd] <;> rfl
      rw [hout] at hx
      simp only [Dispatch.outgoing, List.length_append, List.length_singleton]
      omega
  | deliver hd | deliverInVain hd =>
      rw [hd] at hx
      rw [Resume.outgoing_target]
      exact hx

theorem Reachable.keepsCount (h : Reachable s set policy cancelled x) : x.KeepsCount := by
  refine Reachable.induction (P := State.KeepsCount) ?_ ?_ h
  · rcases State.dispatch_start s set policy cancelled with hd | hd
    all_goals
      rw [State.KeepsCount, State.results, hd]
      rfl
  · intro x l y hx ih hm
    cases hm with
    | cancel hc => exact ih
    | dispatcher hm => exact hm.keepsCount hx.hasRoster hx.isEarnest ih
    | aggregator hm => exact ih
    | worker hm => cases hm <;> exact ih

/-! ## Who is behind -/

/-- The workers that gave their slot back without a result. -/
def State.lost (x : State) : Nat :=
  x.workers.countP (fun w => !w.holdsSlot) + x.finished.countP (fun f => !f.2.holdsSlot)

theorem State.HasRoster.length_inFlight (hx : x.HasRoster) :
    x.inFlight.length = x.taken + x.lost := by
  have hids := hx.ids.length_eq
  simp only [List.length_append, List.length_map] at hids
  have hworkers := List.length_eq_countP_add_countP Worker.holdsSlot (l := x.workers)
  have hfinished :=
    List.length_eq_countP_add_countP (fun f : Nat × Exit => f.2.holdsSlot) (l := x.finished)
  simp only [Bool.not_eq_true, Bool.decide_eq_false] at hworkers hfinished
  rw [State.taken, State.lost]
  omega

/-- In every run: when the dispatcher looks for a slot, the workers that were hired are those whose
result is on the stream, those that hold a slot, and those that broke off since. -/
theorem Reachable.nextId_eq (h : Reachable s set policy cancelled x) {t : Task}
    (hd : x.dispatch = .choosing t .slot) :
    x.nextId + x.free = workersResults x.sent + s.slots + x.lost := by
  have hcount := h.keepsCount
  have hkeeps := h.keepsSlots
  have hlen := h.hasRoster.length_inFlight
  rw [State.KeepsCount, State.results, hd] at hcount
  rw [State.KeepsSlots, hd] at hkeeps
  simp only [Dispatch.outgoing, Dispatch.slots, List.nil_append] at hcount hkeeps
  omega

/-! ## Tasks that overtake -/

/-- The task for which a slot is about to be taken that is free only because a worker is lost. -/
def State.overtaking (x : State) : List Task :=
  match x.dispatch with
  | .choosing t .slot => if 0 < x.free ∧ x.free ≤ x.lost then [t] else []
  | _ => []

/-- Writes down who overtakes in a step. -/
def State.overtaken (x : State) (ts : List Task) (l : Label) : List Task :=
  if l = .dispatcher then x.overtaking ++ ts else ts

/-- A state that a run can come to, whatever the timing, and the tasks that have overtaken a lost
worker, newest first. -/
inductive Overtaken (s : Settings) (set : TaskSet) (policy : SkipPolicy) (cancelled : Bool) :
    State → List Task → Prop where
  | start : Overtaken s set policy cancelled (State.start s set policy cancelled) []
  | step {x y : State} {ts : List Task} {l : Label} (h : Overtaken s set policy cancelled x ts)
      (hs : step? s x l = some y) : Overtaken s set policy cancelled y (x.overtaken ts l)

def overtaken? (s : Settings) (x : State) (ts : List Task) :
    List Label → Option (State × List Task)
  | [] => some (x, ts)
  | l :: ls => (step? s x l).bind fun y => overtaken? s y (x.overtaken ts l) ls

theorem Overtaken.reachable (h : Overtaken s set policy cancelled x ts) :
    Reachable s set policy cancelled x := by
  induction h with
  | start => exact .start
  | step h hs ih => exact ih.step hs

theorem Reachable.exists_overtaken (h : Reachable s set policy cancelled x) :
    ∃ ts, Overtaken s set policy cancelled x ts := by
  induction h with
  | start => exact ⟨[], .start⟩
  | step h hs ih =>
      obtain ⟨ts, hx⟩ := ih
      exact ⟨_, hx.step hs⟩

theorem Overtaken.of_overtaken? {ls : List Label} {p : State × List Task}
    (hx : Overtaken s set policy cancelled x ts) (h : overtaken? s x ts ls = some p) :
    Overtaken s set policy cancelled p.1 p.2 := by
  induction ls generalizing x ts with
  | nil =>
      cases h
      exact hx
  | cons l ls ih =>
      obtain ⟨y, hy, h⟩ := Option.bind_eq_some_iff.mp h
      exact ih (hx.step hy) h

theorem State.overtaking_eq_nil_iff {t : Task} (hd : x.dispatch = .choosing t .slot)
    (hs : 0 < x.free) : x.overtaking = [] ↔ x.lost < x.free := by
  simp [overtaking, hd, hs]

/-- A dispatcher that looks for a slot takes one just if one is free. -/
theorem free_pos_of_step {t : Task} (hd : x.dispatch = .choosing t .slot)
    (hs : step? s x .dispatcher = some y) (hy : y.dispatch = .asking t) : 0 < x.free := by
  by_contra hnone
  simp only [step?, State.dispatchStep?, hd, if_neg hnone, Option.some.injEq] at hs
  subst hs
  cases hy

/-- When a slot is taken, the workers without a result on the stream are fewer than the slots just if
nobody is overtaken. -/
theorem Reachable.nextId_lt_iff (h : Reachable s set policy cancelled x) {t : Task}
    (hd : x.dispatch = .choosing t .slot) :
    x.nextId < workersResults x.sent + s.slots ↔ x.lost < x.free := by
  have hid := h.nextId_eq hd
  omega

theorem Reachable.free_le (h : Reachable s set policy cancelled x) {t : Task}
    (hd : x.dispatch = .choosing t .slot) : x.free ≤ s.slots := by
  have hkeeps := h.keepsSlots
  rw [State.KeepsSlots, hd] at hkeeps
  simp only [Dispatch.slots] at hkeeps
  omega

/-! ## One slot -/

/-- The dispatcher deals with the answer to a question. -/
def Dispatch.decides : Dispatch → Bool
  | .asking _ => true
  | .waiting _ => true
  | _ => false

/-- The dispatcher passes over all that is left. -/
def Dispatch.discards : Dispatch → Bool
  | .discarding => true
  | .delivering _ _ .discard => true
  | _ => false

/-- A result that comes after some others is a skip if the policy says so. -/
def Heeds (set : TaskSet) (policy : SkipPolicy) (front : List Result) (r : Result) : Prop :=
  ∀ reason, policy.decide r.task (set.linkedBundles r.task)
    (front.filterMap (Tally.record? set)) = .skip reason → r = .skip r.task (some reason)

/-- The results are in the order of the tasks, with at most one task between those that are settled
and those that are ahead, and each was decided about after all before it. -/
structure State.InOrder (set : TaskSet) (policy : SkipPolicy) (x : State) : Prop where
  order : x.sent.reverse.map Result.task ++ (x.dispatch.outgoing.map Result.task ++
    (x.inFlight.map Prod.snd ++ x.ahead)) = set.tasks
  alone : x.dispatch.outgoing.length + x.inFlight.length ≤ 1
  deciding : x.dispatch.decides = true → x.inFlight = []
  keepsOn : x.dispatch.discards = false
  granted : ∀ f ∈ x.inFlight, x.ruling set policy f.2 = .proceed
  leaving : ∀ r ∈ x.dispatch.outgoing, Heeds set policy x.sent.reverse r
  heeded : ∀ front r later, x.sent.reverse = front ++ r :: later → Heeds set policy front r

theorem eq_singleton_of_mem {α : Type} {a : α} {l : List α} (hlen : l.length ≤ 1) (ha : a ∈ l) :
    l = [a] := by
  obtain ⟨b, hb⟩ := List.length_eq_one_iff.mp (Nat.le_antisymm hlen (List.length_pos_of_mem ha))
  rw [hb] at ha ⊢
  rw [List.mem_singleton.mp ha]

theorem heeds_of_ruling {r : Result} {d : Decision} (hd : x.ruling set policy r.task = d)
    (h : ∀ reason, d = .skip reason → r = .skip r.task (some reason)) :
    Heeds set policy x.sent.reverse r := by
  intro reason hskip
  rw [← State.ruling_eq, hd] at hskip
  exact h reason hskip

theorem LooksForWorkers.discards_delivering {d : Dispatch} {k : Resume} (h : LooksForWorkers d k)
    (r : Result) (b : Bool) : (Dispatch.delivering r b k).discards = false := by
  cases h <;> rfl

theorem Resume.discards_target (k : Resume) (r : Result) (b : Bool) :
    k.target.discards = (Dispatch.delivering r b k).discards := by
  cases k <;> rfl

namespace State.InOrder

/-- A dispatcher that goes on to something else with the same tasks ahead. -/
theorem go_on (hx : x.InOrder set policy) {d : Dispatch} {ts : List Task}
    (hahead : d.turn ++ ts = x.ahead) (hout : x.dispatch.outgoing = []) (hd : d.outgoing = [])
    (hdecides : d.decides = true → x.inFlight = []) (hdiscards : d.discards = false)
    (free : Nat) (inbox : Inbox) :
    ({ x with pending := ts, dispatch := d, free := free, inbox := inbox } : State).InOrder
      set policy := by
  have horder := hx.order
  have halone := hx.alone
  rw [hout, ← hahead] at horder
  rw [hout] at halone
  refine ⟨?_, ?_, hdecides, hdiscards, hx.granted, ?_, hx.heeded⟩
  · rw [← horder, ← hd]
    rfl
  · simpa [hd] using halone
  · simp [hd]

theorem takeBack (hx : x.InOrder set policy) {k : Resume} (hd : LooksForWorkers x.dispatch k)
    {id : Nat} {r : Result} (hf : (id, r.task) ∈ x.inFlight) (freesSlot : Bool)
    (finished : List (Nat × Exit)) (happenings : List Happening) :
    ({ x with
      finished := finished
      inFlight := x.inFlight.filter (fun f => f.1 != id)
      happenings := happenings
      dispatch := .delivering r freesSlot k } : State).InOrder set policy := by
  have horder := hx.order
  have halone := hx.alone
  rw [hd.outgoing] at halone
  have hone : x.inFlight = [(id, r.task)] := eq_singleton_of_mem (by simpa using halone) hf
  have hnone : x.inFlight.filter (fun f => f.1 != id) = [] := by simp [hone]
  have hgranted := hx.granted _ hf
  rw [hone, hd.outgoing, State.ahead, hd.turn] at horder
  rw [hnone]
  refine ⟨?_, ?_, ?_, ?_, ?_, ?_, hx.heeded⟩
  · exact horder
  · exact Nat.le_refl 1
  · simp [Dispatch.decides]
  · exact hd.discards_delivering r freesSlot
  · simp
  · intro r' hr'
    cases List.mem_singleton.mp hr'
    exact heeds_of_ruling hgranted (by simp)

theorem pass (hx : x.InOrder set policy) {t : Task} (hd : x.dispatch = .waiting t)
    {reason : Option String}
    (hruling : ∀ words, x.ruling set policy t = .skip words → reason = some words)
    (reply : Option Reply) (free : Nat) (happenings : List Happening) :
    ({ x with
      reply := reply
      free := free
      happenings := happenings
      dispatch := .delivering (.skip t reason) false .next } : State).InOrder set policy := by
  have horder := hx.order
  have hnone : x.inFlight = [] := hx.deciding (by rw [hd]; rfl)
  rw [State.ahead, hd, hnone] at horder
  refine ⟨?_, ?_, ?_, rfl, hx.granted, ?_, hx.heeded⟩
  · simp only [hnone]
    exact horder
  · simp only [hnone]
    exact Nat.le_refl 1
  · simp [Dispatch.decides]
  · intro r hr
    cases List.mem_singleton.mp hr
    refine heeds_of_ruling rfl ?_
    intro words hwords
    rw [hruling words hwords]
    rfl

theorem spawn (hx : x.InOrder set policy) {t : Task} (hd : x.dispatch = .waiting t)
    (hruling : x.ruling set policy t = .proceed) (reply : Option Reply) :
    ({ x with
      reply := reply
      dispatch := .ready
      workers := x.workers ++ [⟨x.nextId, t, .spawned⟩]
      inFlight := x.inFlight ++ [(x.nextId, t)]
      nextId := x.nextId + 1 } : State).InOrder set policy := by
  have horder := hx.order
  have hnone : x.inFlight = [] := hx.deciding (by rw [hd]; rfl)
  rw [State.ahead, hd, hnone] at horder
  refine ⟨?_, ?_, ?_, rfl, ?_, ?_, hx.heeded⟩
  · simp only [hnone]
    exact horder
  · simp only [hnone]
    exact Nat.le_refl 1
  · simp [Dispatch.decides]
  · intro f hf
    simp only [hnone, List.nil_append, List.mem_singleton] at hf
    subst f
    exact hruling
  · simp [Dispatch.outgoing]

theorem deliver (hx : x.InOrder set policy) {r : Result} {freesSlot : Bool} {k : Resume}
    (hd : x.dispatch = .delivering r freesSlot k) (inbox : Inbox) (free : Nat) :
    ({ x with
      inbox := inbox
      sent := r :: x.sent
      free := free
      dispatch := k.target } : State).InOrder set policy := by
  have horder := hx.order
  have halone := hx.alone
  have hkeeps := hx.keepsOn
  have hleaving : Heeds set policy x.sent.reverse r := by
    apply hx.leaving
    rw [hd]
    exact List.mem_singleton_self r
  have hnone : x.inFlight = [] := by
    rw [hd] at halone
    simp only [Dispatch.outgoing, List.length_singleton] at halone
    exact List.length_eq_zero_iff.mp (by omega)
  rw [State.ahead, hd, hnone] at horder
  rw [hd] at hkeeps
  refine ⟨?_, ?_, fun _ => hnone, ?_, ?_, ?_, ?_⟩
  · simp only [State.ahead, hnone, Resume.outgoing_target, Resume.turn_target, List.reverse_cons,
      List.map_append]
    simpa [Dispatch.outgoing, Dispatch.turn] using horder
  · simp [hnone]
  · rw [Resume.discards_target, hkeeps]
  · simp [hnone]
  · simp
  · intro front r' later hsplit
    rcases List.eq_nil_or_concat later with rfl | ⟨later, last, rfl⟩
    · rw [List.reverse_cons] at hsplit
      obtain ⟨rfl, hlast⟩ := List.append_inj' hsplit rfl
      cases hlast
      exact hleaving
    · rw [List.reverse_cons, List.concat_eq_append, ← List.cons_append,
        ← List.append_assoc] at hsplit
      obtain ⟨hsplit, -⟩ := List.append_inj' hsplit rfl
      exact hx.heeded front r' later hsplit

end State.InOrder

theorem Dispatches.inOrder (h : Dispatches x y) (hx : x.InOrder set policy) (hr : x.HasRoster)
    (ht : x.Talks set policy) (he : x.dispatch.held ≠ [] → x.aggregator.hasEnded = false)
    (hc : x.cancelled = false)
    (hfree : ∀ t, x.dispatch = .choosing t .slot → 0 < x.free → x.inFlight = []) :
    y.InOrder set policy := by
  cases h with
  | takeUp hd hp =>
      refine hx.go_on ?_ (by rw [hd]; rfl) rfl (by simp [Dispatch.decides]) rfl _ _
      rw [State.ahead, hd, hp]
      rfl
  | runOut hd | goOn hd | noneOver hd | fallAsleep hd | wake hd | finish hd =>
      refine hx.go_on ?_ (by rw [hd]; rfl) rfl (by simp [Dispatch.decides]) rfl _ _
      rw [State.ahead, hd]
      rfl
  | acquire hd hs =>
      refine hx.go_on ?_ (by rw [hd]; rfl) rfl (fun _ => hfree _ hd hs) rfl _ _
      rw [State.ahead, hd]
      rfl
  | ask hd =>
      refine hx.go_on ?_ (by rw [hd]; rfl) rfl (fun _ => hx.deciding (by rw [hd]; rfl)) rfl _ _
      rw [State.ahead, hd]
      rfl
  | close hd ho =>
      exact ⟨hx.order, hx.alone, hx.deciding, hx.keepsOn, hx.granted, hx.leaving, hx.heeded⟩
  | giveUp hd hcancel =>
      rw [hc] at hcancel
      cases hcancel
  | discard hd | discarded hd =>
      have hkeeps := hx.keepsOn
      rw [hd] at hkeeps
      cases hkeeps
  | forward hd hf =>
      exact hx.takeBack hd (hr.settled _ (hf ▸ List.mem_cons_self) _ rfl) true _ _
  | recover hd hf hlookup =>
      exact hx.takeBack hd (mem_of_lookup_eq_some hlookup) false _ _
  | forget hd hf hlookup => exact absurd hlookup (hr.lookup_ne_none hf)
  | spawn hl =>
      obtain ⟨hd, hruling, -⟩ := hl.talks ht (he (by rw [hl.held]; simp))
      exact hx.spawn hd hruling _
  | bypass hd hreply =>
      obtain ⟨hruling, -⟩ := ht.answer_eq hd hreply
      refine hx.pass hd ?_ _ _ _
      intro words hwords
      rw [hwords] at hruling
      cases hruling
  | skip hd hreply =>
      obtain ⟨hruling, -⟩ := ht.answer_eq hd hreply
      refine hx.pass hd ?_ _ _ _
      intro words hwords
      rw [hwords] at hruling
      cases hruling
      rfl
  | deliver hd | deliverInVain hd => exact hx.deliver hd _ _

theorem State.inOrder_start (hslots : s.slots = 1) :
    (State.start s set policy cancelled).InOrder set policy := by
  have hready : (State.start s set policy cancelled).dispatch = .ready := by
    refine if_neg ?_
    rw [hslots]
    decide
  refine ⟨?_, ?_, fun _ => rfl, ?_, ?_, ?_, ?_⟩
  · rw [State.ahead, hready]
    rfl
  · rw [hready]
    exact Nat.zero_le 1
  · rw [hready]
    rfl
  · simp [State.start]
  · simp [hready, Dispatch.outgoing]
  · simp [State.start]

/-- With one slot nobody is in flight when the slot is taken, unless somebody is overtaken. -/
theorem Reachable.inFlight_eq_nil (h : Reachable s set policy cancelled x) (hslots : s.slots = 1)
    {t : Task} (hd : x.dispatch = .choosing t .slot) (hless : x.lost < x.free) :
    x.inFlight = [] := by
  have hcount := h.keepsCount
  have hid := (h.nextId_lt_iff hd).mpr hless
  rw [State.KeepsCount, State.results, hd] at hcount
  simp only [Dispatch.outgoing, List.nil_append] at hcount
  exact List.length_eq_zero_iff.mp (by omega)

namespace Overtaken

theorem inOrder (h : Overtaken s set policy cancelled x ts) (hslots : s.slots = 1) :
    ts = [] → x.cancelled = false → x.InOrder set policy := by
  induction h with
  | start => exact fun _ _ => State.inOrder_start hslots
  | @step x y ts l hx hs ih =>
      intro hnone hc
      cases moves_of_step? hs with
      | cancel hc' => cases hc
      | aggregator hm =>
          obtain ⟨order, alone, deciding, keepsOn, granted, leaving, heeded⟩ := ih hnone hc
          exact ⟨order, alone, deciding, keepsOn, granted, leaving, heeded⟩
      | dispatcher hm =>
          obtain ⟨hnow, hbefore⟩ : x.overtaking = [] ∧ ts = [] := List.append_eq_nil_iff.mp hnone
          have hreach := hx.reachable
          have hc' : x.cancelled = false := by cases hm <;> exact hc
          exact hm.inOrder (ih hbefore hc') hreach.hasRoster hreach.talks hreach.hasEnded_eq_false
            hc' fun t hd hfree => hreach.inFlight_eq_nil hslots hd
              ((State.overtaking_eq_nil_iff hd hfree).mp hnow)
      | worker hm =>
          cases hm
          all_goals
            obtain ⟨order, alone, deciding, keepsOn, granted, leaving, heeded⟩ := ih hnone hc
            exact ⟨order, alone, deciding, keepsOn, granted, leaving, heeded⟩

theorem results_in_order (h : Overtaken s set policy cancelled x []) (hslots : s.slots = 1)
    (hc : x.cancelled = false) :
    x.sent.reverse.map Result.task <+: set.tasks ∧
      (x.dispatch = .ended → x.sent.reverse.map Result.task = set.tasks) := by
  have horder := (h.inOrder hslots rfl hc).order
  refine ⟨⟨_, horder⟩, ?_⟩
  intro hd
  have hwinds := h.reachable.windsDown
  have hids := h.reachable.hasRoster.length_inFlight
  have hnone : x.inFlight = [] := by
    rw [State.taken, State.lost, (hwinds.workers hd).1, (hwinds.workers hd).2] at hids
    exact List.length_eq_zero_iff.mp hids
  have hpending : x.pending = [] := hwinds.pending (by rw [hd]; rfl)
  rw [State.ahead, hd, hnone, hpending] at horder
  simpa [Dispatch.outgoing, Dispatch.turn] using horder

theorem eq_skip_of_failed (h : Overtaken s set policy cancelled x []) (hslots : s.slots = 1)
    (hc : x.cancelled = false) {front later : List Result} {b r : Result}
    (hsent : x.sent.reverse = front ++ b :: later) (hb : b.task.kind = .operatorBundle)
    (hr : r ∈ front) {f : Failure} (hf : r.ending = .failed f) {n : String}
    (hn : n ∈ set.linkedBundles r.task)
    (hit : n = b.task.origin ∨ n ∈ set.linkedBundles b.task) :
    ∃ reason, b = .skip b.task (some reason) := by
  have hrecord : Tally.record? set r = some (Tally.recordOf set r.task .failed f) := by
    simp [Tally.record?, hf]
  have hprior : Tally.recordOf set r.task .failed f ∈ front.filterMap (Tally.record? set) :=
    List.mem_filterMap.mpr ⟨r, hr, hrecord⟩
  obtain ⟨reason, hskip⟩ := SkipPolicy.exists_decide_eq_skip_iff.mpr ⟨hb, _, hprior, n, hn, hit⟩
  exact ⟨reason, (h.inOrder hslots rfl hc).heeded front b later hsent reason hskip⟩

/-- In every run, whatever the timing and whoever breaks off: when the dispatcher takes a slot, the
workers without a result on the stream are fewer than the slots just if more slots are free than
workers are lost; with one slot, just if nobody is lost. So with one slot, while nobody cancels the
run and no task has overtaken a lost worker, the results are in the order of the tasks, and a bundle
behind a task that is linked to it and failed, be it because the worker broke off, is skipped. -/
theorem queues_first_unless (h : Overtaken s set policy cancelled x ts) :
    (∀ t y, x.dispatch = .choosing t .slot → step? s x .dispatcher = some y →
      y.dispatch = .asking t →
        (x.nextId < workersResults x.sent + max s.limit 1 ↔ x.lost < x.free) ∧
        (s.limit ≤ 1 → (x.lost < x.free ↔ x.lost = 0)) ∧
        (x.overtaking = [] ↔ x.lost < x.free)) ∧
    (s.limit ≤ 1 → x.cancelled = false → ts = [] →
      x.sent.reverse.map Result.task <+: set.tasks ∧
      (x.dispatch = .ended → x.sent.reverse.map Result.task = set.tasks) ∧
      ∀ front b later, x.sent.reverse = front ++ b :: later → b.task.kind = .operatorBundle →
        ∀ r ∈ front, ∀ f, r.ending = .failed f →
          (∃ n ∈ set.linkedBundles r.task, n = b.task.origin ∨ n ∈ set.linkedBundles b.task) →
            ∃ reason, b = .skip b.task (some reason)) := by
  refine ⟨?_, ?_⟩
  · intro t y hd hs hy
    have hfree := free_pos_of_step hd hs hy
    refine ⟨h.reachable.nextId_lt_iff hd, fun hlimit => ?_, State.overtaking_eq_nil_iff hd hfree⟩
    have hslots : s.slots = 1 := Nat.max_eq_right hlimit
    have hle := h.reachable.free_le hd
    omega
  · rintro hlimit hc rfl
    have hslots : s.slots = 1 := Nat.max_eq_right hlimit
    obtain ⟨hfirst, hended⟩ := h.results_in_order hslots hc
    refine ⟨hfirst, hended, ?_⟩
    rintro front b later hsent hb r hr f hf ⟨n, hn, hit⟩
    exact h.eq_skip_of_failed hslots hc hsent hb hr hf hn hit

end Overtaken

def broken : Result := .failure neededImage (abortFailure "broken") 0

/-- The worker of the image breaks off, and that is noticed before the slot is taken for the bundle.
The failure is on the stream then, and the bundle is skipped. -/
theorem queues_first_of_brokenOff :
    (∃ x y, Overtaken frugal bundleBehind ⟨.mirrorToMirror, false⟩ false x [] ∧
      x.dispatch = .choosing needyBundle .slot ∧ step? frugal x .dispatcher = some y ∧
      y.dispatch = .asking needyBundle ∧ x.nextId = 1 ∧ x.sent = [broken] ∧ x.lost < x.free) ∧
    ∃ x b later reason, Overtaken frugal bundleBehind ⟨.mirrorToMirror, false⟩ false x [] ∧
      x.dispatch = .ended ∧ frugal.limit ≤ 1 ∧ x.cancelled = false ∧
      x.sent.reverse = [broken] ++ b :: later ∧ b.task = needyBundle ∧
      b = .skip b.task (some reason) := by
  refine ⟨?_, ?_⟩
  · have hrun : ((overtaken? frugal
        (State.start frugal bundleBehind ⟨.mirrorToMirror, false⟩ false) []
        (timing [(5, .dispatcher), (5, .aggregator), (5, .dispatcher), (1, .begin 0),
          (1, .answer 0 (.panic "broken")), (1, .settle 0), (6, .dispatcher)])).map
            (fun p => (p.1.dispatch, (step? frugal p.1 .dispatcher).map State.dispatch,
              decide (p.1.nextId = 1 ∧ p.1.sent = [broken]), p.2))) =
        some (.choosing needyBundle .slot, some (.asking needyBundle), true, []) := by
      decide +kernel
    obtain ⟨⟨x, ts⟩, hx, hmoment⟩ := Option.map_eq_some_iff.mp hrun
    simp only [Prod.mk.injEq, Option.map_eq_some_iff, decide_eq_true_eq] at hmoment
    obtain ⟨hslot, ⟨y, hstep, hasking⟩, ⟨hid, hsent⟩, rfl⟩ := hmoment
    have hovertaken := Overtaken.start.of_overtaken? hx
    have hqueues := (hovertaken.queues_first_unless.1 needyBundle y hslot hstep hasking).1
    refine ⟨x, y, hovertaken, hslot, hstep, hasking, hid, hsent, hqueues.mp ?_⟩
    rw [hid, hsent]
    decide
  · have hrun : ((overtaken? frugal
        (State.start frugal bundleBehind ⟨.mirrorToMirror, false⟩ false) []
        (timing [(5, .dispatcher), (5, .aggregator), (5, .dispatcher), (1, .begin 0),
          (1, .answer 0 (.panic "broken")), (1, .settle 0), (8, .dispatcher), (7, .aggregator),
          (7, .dispatcher), (7, .aggregator), (2, .dispatcher), (1, .begin 1),
          (1, .answer 1 .success), (1, .settle 1), (3, .dispatcher), (2, .aggregator)])).map
            (fun p => (p.1.dispatch, p.1.cancelled, p.1.sent.reverse.head?,
              p.1.sent.reverse.tail.map Result.task, p.2))) =
        some (.ended, false, some broken, [needyBundle, plainImage "c"], []) := by
      decide +kernel
    obtain ⟨⟨x, ts⟩, hx, hends⟩ := Option.map_eq_some_iff.mp hrun
    simp only [Prod.mk.injEq] at hends
    obtain ⟨hended, hc, hhead, htail, rfl⟩ := hends
    obtain ⟨b, later, hrest, hb, -⟩ := List.map_eq_cons_iff.mp htail
    have hsent : x.sent.reverse = [broken] ++ b :: later := by
      rw [← hrest]
      exact (List.cons_head?_tail hhead).symm
    have hlimit : frugal.limit ≤ 1 := by decide
    have hovertaken := Overtaken.start.of_overtaken? hx
    obtain ⟨reason, hskip⟩ := (hovertaken.queues_first_unless.2 hlimit hc rfl).2.2 [broken] b later
      hsent (hb ▸ rfl) broken (List.mem_singleton_self _) _ rfl
      ⟨"b", (by decide : "b" ∈ bundleBehind.linkedBundles neededImage), .inl (hb ▸ rfl)⟩
    exact ⟨x, b, later, reason, hovertaken, hended, hlimit, hc, hsent, hb, hskip⟩

/-- The worker of the image breaks off, and the slot is taken for the bundle before that is noticed.
Then the bundle is copied behind the failure of the image, even with one slot. -/
theorem copies_bundle_of_overtaking :
    (∃ x y, Reachable frugal bundleBehind ⟨.mirrorToMirror, false⟩ false x ∧
      x.dispatch = .choosing needyBundle .slot ∧ step? frugal x .dispatcher = some y ∧
      y.dispatch = .asking needyBundle ∧
      ¬ x.nextId < workersResults x.sent + max frugal.limit 1) ∧
    ∃ x, Reachable frugal bundleBehind ⟨.mirrorToMirror, false⟩ false x ∧ frugal.limit ≤ 1 ∧
      bundleBehind.Blocks neededImage needyBundle ∧ x.dispatch = .ended ∧ x.cancelled = false ∧
      broken ∈ x.sent ∧ (∃ i ∈ x.calls, i.task = needyBundle) ∧
      needyBundle ∈ x.aggregator.tally.succeeded := by
  refine ⟨?_, ?_⟩
  · have hrun : ((steps? frugal (State.start frugal bundleBehind ⟨.mirrorToMirror, false⟩ false)
        (timing [(5, .dispatcher), (5, .aggregator), (4, .dispatcher), (1, .begin 0),
          (1, .answer 0 (.panic "broken"))])).map fun x =>
            (x.dispatch, (step? frugal x .dispatcher).map State.dispatch, x.nextId, x.sent)) =
        some (.choosing needyBundle .slot, some (.asking needyBundle), 1, []) := by
      decide +kernel
    obtain ⟨x, hx, hmoment⟩ := Option.map_eq_some_iff.mp hrun
    simp only [Prod.mk.injEq, Option.map_eq_some_iff] at hmoment
    obtain ⟨hslot, ⟨y, hstep, hasking⟩, hid, hsent⟩ := hmoment
    refine ⟨x, y, Reachable.start.of_steps? hx, hslot, hstep, hasking, ?_⟩
    rw [hid, hsent]
    decide
  · have hrun : ((steps? frugal (State.start frugal bundleBehind ⟨.mirrorToMirror, false⟩ false)
        (timing [(5, .dispatcher), (5, .aggregator), (4, .dispatcher), (1, .begin 0),
          (1, .answer 0 (.panic "broken")), (2, .dispatcher), (4, .aggregator), (1, .dispatcher),
          (1, .begin 1), (1, .answer 1 .success), (1, .settle 0), (1, .settle 1),
          (11, .dispatcher), (5, .aggregator), (2, .dispatcher), (2, .aggregator), (1, .begin 2),
          (1, .answer 2 .success), (1, .settle 2), (3, .dispatcher), (2, .aggregator)])).map
            fun x => (x.dispatch, x.cancelled, decide (broken ∈ x.sent ∧
              (∃ i ∈ x.calls, i.task = needyBundle) ∧
              needyBundle ∈ x.aggregator.tally.succeeded))) = some (.ended, false, true) := by
      decide +kernel
    obtain ⟨x, hx, hends⟩ := Option.map_eq_some_iff.mp hrun
    simp only [Prod.mk.injEq] at hends
    obtain ⟨hended, hc, hcopied⟩ := hends
    exact ⟨x, Reachable.start.of_steps? hx, by decide, bundleBehind_blocks, hended, hc,
      of_decide_eq_true hcopied⟩

end ImageBatch.Engine
