import ImageBatch.Proofs.Engine.Progress
import ImageBatch.Proofs.Engine.Sequential

/-!
# The course of a worker

One worker of a run is watched: which calls it makes, for which spans it sets a timer, and how it
leaves. Its calls are answered by a script. Whatever the others do meanwhile, it calls until a call
settles the task or is the last that it may make, and before each further call it sets a timer for a
little longer. Only if the run is cancelled it may leave before, and then with the failure of its
last call.
-/

namespace ImageBatch.Engine

/-! ## Scripts -/

/-- The answers to the calls for a task, by the number of the call: a failure, or none. -/
abbrev Script := Nat → Option Failure

namespace Script

def answer (q : Script) (k : Nat) : Answer :=
  match q k with
  | none => .success
  | some f => .failure f

/-- There is no use in another call after this one. -/
def settles (q : Script) (k : Nat) : Bool :=
  match q k with
  | none => true
  | some f => !f.category.isRetryable

/-- What comes of the task if this call is the last. -/
def result (q : Script) (t : Task) (k : Nat) : Result :=
  match q k with
  | none => .success t k
  | some f => .failure t f k

end Script

/-- The first call that settles the task, or the last that may be made. -/
def Settings.lastCall (s : Settings) (q : Script) : Nat :=
  ((List.range' 1 s.maxAttempts).find? q.settles).getD s.maxAttempts

/-- The span for which the timer is set behind a call. -/
def Settings.delay (s : Settings) (k : Nat) : Span := ⟨s.backoff.nanos * k⟩

variable {s : Settings} {q : Script} {t : Task}

theorem lastCall_le (s : Settings) (q : Script) : s.lastCall q ≤ s.maxAttempts := by
  rw [Settings.lastCall]
  cases hfind : (List.range' 1 s.maxAttempts).find? q.settles with
  | none => exact Nat.le_refl _
  | some n =>
      have hin := List.mem_range'_1.mp (List.find?_range'_eq_some.mp hfind).2.1
      simp only [Option.getD_some]
      omega

theorem lastCall_pos (s : Settings) (q : Script) : 0 < s.lastCall q := by
  rw [Settings.lastCall]
  cases hfind : (List.range' 1 s.maxAttempts).find? q.settles with
  | none => exact Nat.lt_of_lt_of_le Nat.zero_lt_one (Nat.le_max_right _ _)
  | some n => exact (List.mem_range'_1.mp (List.find?_range'_eq_some.mp hfind).2.1).1

theorem settles_of_lt {k : Nat} (hk : 0 < k) (hlt : k < s.lastCall q) : q.settles k = false := by
  rw [Settings.lastCall] at hlt
  cases hfind : (List.range' 1 s.maxAttempts).find? q.settles with
  | none =>
      rw [hfind, Option.getD_none] at hlt
      simpa using List.find?_range'_eq_none.mp hfind k hk (by omega)
  | some n =>
      rw [hfind, Option.getD_some] at hlt
      simpa using (List.find?_range'_eq_some.mp hfind).2.2 k hk hlt

/-- The last call settles the task, or there may be no further one. -/
theorem settles_lastCall (s : Settings) (q : Script) :
    q.settles (s.lastCall q) = true ∨ s.maxAttempts ≤ s.lastCall q := by
  rw [Settings.lastCall]
  cases hfind : (List.range' 1 s.maxAttempts).find? q.settles with
  | none => exact .inr (Nat.le_refl _)
  | some n => exact .inl (List.find?_some hfind)

/-! ## The deeds of a worker -/

/-- What a worker is seen to do. -/
inductive Deed where
  | call (r : Request)
  /-- Sets a timer for a span, to go on when it rings. -/
  | sleep (d : Span)
  | leave (e : Exit)
deriving DecidableEq

/-- So many calls for a task, each with all that the task and the settings say, and before each but
the first a timer for the delay behind the one before. -/
def Settings.deeds (s : Settings) (t : Task) : Nat → List Deed
  | 0 => []
  | 1 => [.call ⟨t.source, t.destination, s.mode, s.options⟩]
  | k + 2 => s.deeds t (k + 1) ++
    [.sleep (s.delay (k + 1)), .call ⟨t.source, t.destination, s.mode, s.options⟩]

theorem deeds_succ {k : Nat} (hk : 0 < k) : s.deeds t (k + 1) =
    s.deeds t k ++ [.sleep (s.delay k)] ++
      [.call ⟨t.source, t.destination, s.mode, s.options⟩] := by
  cases k with
  | zero => cases hk
  | succ k => rw [Settings.deeds, List.append_assoc, List.singleton_append]

/-- What a worker in a phase has done so far. It may leave before the last call only if the run is
cancelled, and the timer may have been set then. -/
inductive Course (s : Settings) (t : Task) (q : Script) (cancelled : Bool) :
    Phase → List Deed → Prop where
  | spawned : Course s t q cancelled .spawned []
  | calling {k} (hk : 0 < k) (hle : k ≤ s.lastCall q) :
    Course s t q cancelled (.calling k) (s.deeds t k)
  | pausing {k f} (hk : 0 < k) (hlt : k < s.lastCall q) (hf : q k = some f) :
    Course s t q cancelled (.pausing k (s.delay k) f) (s.deeds t k ++ [.sleep (s.delay k)])
  | settled :
    Course s t q cancelled (.over (.done (q.result t (s.lastCall q))))
      (s.deeds t (s.lastCall q) ++ [.leave (.done (q.result t (s.lastCall q)))])
  | cut {k f ds} (hk : 0 < k) (hlt : k < s.lastCall q) (hf : q k = some f)
      (hc : cancelled = true) (hds : ds = s.deeds t k ∨ ds = s.deeds t k ++ [.sleep (s.delay k)]) :
    Course s t q cancelled (.over (.done (.failure t f k)))
      (ds ++ [.leave (.done (.failure t f k))])

theorem react_script {k : Nat} (hfits : (s.delay s.maxAttempts).Fits) (hk : 0 < k)
    (hle : k ≤ s.lastCall q) (c : Bool) (t : Task) :
    (∃ h, k = s.lastCall q ∧ react s c t k (q.answer k) = .finish h (.done (q.result t k))) ∨
    (∃ f h, k < s.lastCall q ∧ q k = some f ∧ react s c t k (q.answer k) =
      if c = true then .finish h (.done (.failure t f k)) else .pause h (s.delay k) f) := by
  rcases Nat.lt_or_eq_of_le hle with hlt | rfl
  · have hsettles := settles_of_lt hk hlt
    have hmore : k < s.maxAttempts := Nat.lt_of_lt_of_le hlt (lastCall_le s q)
    have hdelay : s.backoff.times? k = some (s.delay k) :=
      times?_eq hfits (Nat.le_of_lt hmore)
    cases hq : q k with
    | none =>
        rw [Script.settles, hq] at hsettles
        cases hsettles
    | some f =>
        have hretry : f.category.isRetryable = true := by simpa [Script.settles, hq] using hsettles
        refine .inr ⟨f, if c = true then .taskFailed t.origin k f
          else .taskRetrying t.origin k (toldMillis (s.delay k)) f, hlt, rfl, ?_⟩
        cases c <;>
          simp [Script.answer, hq, react, giveUp, hretry, hdelay, Nat.not_le.mpr hmore]
  · cases hq : q (s.lastCall q) with
    | none => exact .inl ⟨_, rfl, by rw [Script.answer, Script.result, hq]; rfl⟩
    | some f =>
        have hlast : (!f.category.isRetryable || decide (s.maxAttempts ≤ s.lastCall q)) = true := by
          simpa [Script.settles, hq] using settles_lastCall s q
        refine .inl ⟨.taskFailed t.origin (s.lastCall q) f, rfl, ?_⟩
        simp only [Script.answer, Script.result, hq, react, hlast, Bool.true_or, if_true]
        rfl

/-! ## Watching -/

/-- The step is one of this worker, up to its end. -/
def Label.isStepOf (id : Nat) : Label → Bool
  | .begin i => i == id
  | .answer i _ => i == id
  | .wake i => i == id
  | .giveUp i => i == id
  | _ => false

/-- The calls of the worker are answered by the script. -/
def State.heeds (x : State) (id : Nat) (q : Script) : Label → Bool
  | .answer i a =>
    i != id || (x.worker? id).all fun w =>
      match w.phase with
      | .calling k => a == q.answer k
      | _ => true
  | _ => true

/-- What a worker has just done that is in its phase now. The tool is asked by the request that the
settings make of the task. -/
def Worker.deed? (s : Settings) (w : Worker) : Option Deed :=
  match w.phase with
  | .spawned => none
  | .calling _ => some (.call (s.request w.task))
  | .pausing _ d _ => some (.sleep d)
  | .over e => some (.leave e)

/-- Writes down a step that leads to a state, if it is one of the worker. -/
def State.watch (s : Settings) (id : Nat) (y : State) (ds : List Deed) (l : Label) : List Deed :=
  if l.isStepOf id then ds ++ ((y.worker? id).bind (Worker.deed? s)).toList else ds

/-- A state that a run can come to, whatever the timing, when the calls of one worker are answered
by the script, and what this worker has done up to then. -/
inductive Watched (s : Settings) (set : TaskSet) (policy : SkipPolicy) (cancelled : Bool)
    (id : Nat) (q : Script) : State → List Deed → Prop where
  | start : Watched s set policy cancelled id q (State.start s set policy cancelled) []
  | step {x y : State} {ds : List Deed} {l : Label}
      (h : Watched s set policy cancelled id q x ds) (hq : x.heeds id q l = true)
      (hs : step? s x l = some y) :
    Watched s set policy cancelled id q y (y.watch s id ds l)

def watch? (s : Settings) (id : Nat) (q : Script) (x : State) (ds : List Deed) :
    List Label → Option (State × List Deed)
  | [] => some (x, ds)
  | l :: ls =>
    if x.heeds id q l then (step? s x l).bind fun y => watch? s id q y (y.watch s id ds l) ls
    else none

variable {set : TaskSet} {policy : SkipPolicy} {cancelled : Bool} {id : Nat} {x y : State}
  {ds : List Deed} {l : Label}

theorem Watched.reachable (h : Watched s set policy cancelled id q x ds) :
    Reachable s set policy cancelled x := by
  induction h with
  | start => exact .start
  | step h hq hs ih => exact ih.step hs

theorem Watched.of_watch? {ls : List Label} {p : State × List Deed}
    (hx : Watched s set policy cancelled id q x ds) (h : watch? s id q x ds ls = some p) :
    Watched s set policy cancelled id q p.1 p.2 := by
  induction ls generalizing x ds with
  | nil =>
      cases h
      exact hx
  | cons l ls ih =>
      simp only [watch?, Option.ite_none_right_eq_some, Option.bind_eq_some_iff] at h
      obtain ⟨hl, z, hz, h⟩ := h
      exact ih (hx.step hl hz) h

/-- A worker with this task is in this phase, or was when it was over, and has done what goes with
the phase. -/
structure State.Shows (x : State) (s : Settings) (q : Script) (id : Nat) (t : Task) (p : Phase)
    (ds : List Deed) : Prop where
  course : Course s t q x.cancelled p ds
  phase : ∀ w ∈ x.workers, w.id = id → w.task = t ∧ w.phase = p
  there : (∃ w ∈ x.workers, w.id = id) ∨ ∃ e, p = .over e

/-- A run that is cancelled stays so, and what has been done remains. -/
theorem Course.of_imp {c c' : Bool} {p : Phase} (h : Course s t q c p ds)
    (hc : c = true → c' = true) : Course s t q c' p ds := by
  cases h with
  | spawned => exact .spawned
  | calling hk hle => exact .calling hk hle
  | pausing hk hlt hf => exact .pausing hk hlt hf
  | settled => exact .settled
  | cut hk hlt hf hcut hds => exact .cut hk hlt hf (hc hcut) hds

/-! ## What a step changes -/

/-- The dispatcher leaves the workers alone, or it hires one for the task that it holds. -/
theorem Dispatches.workers_cases (h : Dispatches x y) : y.cancelled = x.cancelled ∧
    (y.workers = x.workers ∧ y.nextId = x.nextId ∨
      ∃ t, x.dispatch.held = [t] ∧ y.workers = x.workers ++ [⟨x.nextId, t, .spawned⟩] ∧
        y.nextId = x.nextId + 1) := by
  cases h with
  | spawn hl => exact ⟨rfl, .inr ⟨_, hl.held, rfl, rfl⟩⟩
  | _ => exact ⟨rfl, .inl ⟨rfl, rfl⟩⟩

theorem State.worker?_of_mem {w : Worker} (hids : (x.workers.map Worker.id).Nodup)
    (hw : w ∈ x.workers) : x.worker? w.id = some w := by
  obtain ⟨v, hv⟩ := State.exists_worker? hw
  obtain ⟨hmem, hid⟩ := State.mem_of_worker? hv
  rw [hv, List.inj_on_of_nodup_map hids hmem hw hid]

theorem State.Shows.turn {p p' : Phase} {w : Worker} (hx : x.Shows s q w.id t p ds)
    (hids : (x.workers.map Worker.id).Nodup) (hw : w ∈ x.workers)
    (hl : l.isStepOf w.id = true)
    (hy : y.workers = x.workers.map (Worker.inPhase w.id p'))
    (hcourse : Course s t q y.cancelled p' (ds ++ (Worker.deed? s ⟨w.id, t, p'⟩).toList)) :
    y.Shows s q w.id t p' (y.watch s w.id ds l) := by
  have hself : w.inPhase w.id p' = ⟨w.id, t, p'⟩ := by
    rw [Worker.inPhase_self, (hx.phase w hw rfl).1]
  have hin : ⟨w.id, t, p'⟩ ∈ y.workers := by
    rw [hy]
    exact List.mem_map.mpr ⟨w, hw, hself⟩
  have hids' : (y.workers.map Worker.id).Nodup := by
    rwa [hy, Worker.map_id_inPhase]
  have hfound : y.worker? w.id = some ⟨w.id, t, p'⟩ := State.worker?_of_mem hids' hin
  refine ⟨?_, ?_, .inl ⟨_, hin, rfl⟩⟩
  · rw [State.watch, if_pos hl, hfound]
    exact hcourse
  · intro v hv hid
    cases List.inj_on_of_nodup_map hids' hv hin hid
    exact ⟨rfl, rfl⟩

/-- A step after which the same workers of its number are there is no step of the worker. -/
theorem State.Shows.stay {p : Phase} (hx : x.Shows s q id t p ds)
    (hl : l.isStepOf id = false) (hc : x.cancelled = true → y.cancelled = true)
    (hsame : ∀ v, v.id = id → (v ∈ y.workers ↔ v ∈ x.workers)) :
    y.Shows s q id t p (y.watch s id ds l) := by
  rw [State.watch, if_neg (by simp [hl])]
  refine ⟨hx.course.of_imp hc, ?_, ?_⟩
  · intro v hv hid
    exact hx.phase v ((hsame v hid).mp hv) hid
  · refine hx.there.imp_left ?_
    rintro ⟨v, hv, hid⟩
    exact ⟨v, (hsame v hid).mpr hv, hid⟩

/-- The new phase of any worker: if it is the one that is watched, it must go on in its course. -/
theorem State.Shows.of_turn {p p' : Phase} {w : Worker} (hx : x.Shows s q id t p ds)
    (hids : (x.workers.map Worker.id).Nodup) (hw : w ∈ x.workers)
    (hl : ∀ i, l.isStepOf i = (w.id == i)) (hc : y.cancelled = x.cancelled)
    (hy : y.workers = x.workers.map (Worker.inPhase w.id p'))
    (hcourse : w.id = id → w.task = t → p = w.phase →
      Course s t q x.cancelled p' (ds ++ (Worker.deed? s ⟨w.id, t, p'⟩).toList) ∧
        p'.effort s < p.effort s) :
    ∃ p', y.Shows s q id t p' (y.watch s id ds l) ∧
      (l.isStepOf id = true → p'.effort s < p.effort s) := by
  by_cases hid : w.id = id
  · subst hid
    obtain ⟨htask, hphase⟩ := hx.phase w hw rfl
    obtain ⟨hgoes, hless⟩ := hcourse rfl htask hphase.symm
    have hown : l.isStepOf w.id = true := by rw [hl, beq_self_eq_true]
    exact ⟨p', hx.turn hids hw hown hy (hc ▸ hgoes), fun _ => hless⟩
  · have hother : l.isStepOf id = false := by rw [hl, beq_eq_false_iff_ne.mpr hid]
    refine ⟨p, hx.stay hother (fun h => hc.trans h) fun v hv => ?_, ?_⟩
    · rw [hy]
      exact Worker.mem_map_inPhase_iff (fun he => hid (he.symm.trans hv)) p'
    · rw [hother]
      exact nofun

/-- The phase of a worker behind its reaction to the answer to call number `k`. -/
def Reaction.phase (k : Nat) : Reaction → Phase
  | .finish _ e => .over e
  | .pause _ wait f => .pausing k wait f
  | .abort words => .over (.aborted words)

theorem Course.answer {c : Bool} {k : Nat} (hfits : (s.delay s.maxAttempts).Fits)
    (h : Course s t q c (.calling k) ds) {a : Answer} (ha : a = q.answer k) {p : Phase}
    (hp : (react s c t k a).phase k = p) :
    Course s t q c p (ds ++ (Worker.deed? s ⟨id, t, p⟩).toList) ∧
      p.effort s < (Phase.calling k).effort s := by
  subst ha hp
  cases h with
  | calling hk hle =>
      rcases react_script hfits hk hle c t with ⟨_, rfl, hreact⟩ | ⟨f, _, hlt, hf, hreact⟩
      · rw [hreact]
        refine ⟨.settled, ?_⟩
        simp only [Reaction.phase, Phase.effort]
        omega
      · cases c with
        | true =>
            rw [hreact, if_pos rfl]
            refine ⟨.cut hk hlt hf rfl (.inl rfl), ?_⟩
            simp only [Reaction.phase, Phase.effort]
            omega
        | false =>
            rw [hreact, if_neg (by decide)]
            refine ⟨.pausing hk hlt hf, ?_⟩
            simp only [Reaction.phase, Phase.effort]
            omega

theorem State.heeds_answer {w : Worker} {k : Nat} {a : Answer}
    (hids : (x.workers.map Worker.id).Nodup) (hw : w ∈ x.workers) (hp : w.phase = .calling k)
    (h : x.heeds w.id q (.answer w.id a) = true) : a = q.answer k := by
  simpa [State.heeds, State.worker?_of_mem hids hw, hp] using h

/-- A step of a worker leads on in its course, and brings it closer to its end. -/
theorem Works.shows {p : Phase} (h : Works s x l y) (hfits : (s.delay s.maxAttempts).Fits)
    (hids : (x.workers.map Worker.id).Nodup) (hq : x.heeds id q l = true)
    (hx : x.Shows s q id t p ds) :
    ∃ p', y.Shows s q id t p' (y.watch s id ds l) ∧
      (l.isStepOf id = true → p'.effort s < p.effort s) := by
  have hds := hx.course
  cases h with
  | begin hw hp =>
      refine hx.of_turn hids hw (fun _ => rfl) rfl rfl fun hid htask hphase => ?_
      rw [hp] at hphase
      subst hphase
      cases hds
      refine ⟨.calling Nat.zero_lt_one (lastCall_pos s q), ?_⟩
      simp only [Phase.effort]
      omega
  | finish hw hp ha | pause hw hp ha | abort hw hp ha =>
      refine hx.of_turn hids hw (fun _ => rfl) rfl rfl fun hid htask hphase => ?_
      rw [hp] at hphase
      subst hphase hid htask
      exact hds.answer hfits (State.heeds_answer hids hw hp hq) (by rw [ha]; rfl)
  | wake hw hp =>
      refine hx.of_turn hids hw (fun _ => rfl) rfl rfl fun hid htask hphase => ?_
      rw [hp] at hphase
      subst hphase
      cases hds with
      | pausing hk hlt hf =>
          have hmore := Nat.lt_of_lt_of_le hlt (lastCall_le s q)
          refine ⟨?_, ?_⟩
          · exact deeds_succ hk ▸ .calling (Nat.succ_pos _) hlt
          · simp only [Phase.effort]
            omega
  | giveUp hw hp hc =>
      refine hx.of_turn hids hw (fun _ => rfl) rfl rfl fun hid htask hphase => ?_
      rw [hp] at hphase
      subst hphase htask
      cases hds with
      | pausing hk hlt hf =>
          refine ⟨.cut hk hlt hf hc (.inr rfl), ?_⟩
          simp only [Phase.effort]
          omega
  | @settle w e hw hp =>
      have hnone : ¬ Label.isStepOf id (.settle w.id) = true := Bool.false_ne_true
      by_cases hid : w.id = id
      · obtain ⟨-, hphase⟩ := hx.phase w hw hid
        refine ⟨p, ⟨hds, ?_, .inr ⟨e, hphase.symm.trans hp⟩⟩, fun hown => absurd hown hnone⟩
        intro v hv hvid
        exact absurd (hvid.trans hid.symm) (by simpa using (List.mem_filter.mp hv).2)
      · refine ⟨p, hx.stay rfl (fun hc => hc) fun v hv => ?_, fun hown => absurd hown hnone⟩
        have hne : v.id ≠ w.id := fun he => hid (he.symm.trans hv)
        simp [hne]

theorem Works.frame_course (h : Works s x l y) (id : Nat) : y.cancelled = x.cancelled ∧
    y.nextId = x.nextId ∧ (l.isStepOf id = true → ∃ w ∈ x.workers, w.id = id) := by
  cases h with
  | begin hw | finish hw | pause hw | abort hw | wake hw | giveUp hw =>
      exact ⟨rfl, rfl, fun hid => ⟨_, hw, eq_of_beq hid⟩⟩
  | settle hw => exact ⟨rfl, rfl, nofun⟩

/-! ## The course of a watched worker -/

theorem State.HasRoster.id_lt (h : x.HasRoster) {w : Worker} (hw : w ∈ x.workers) :
    w.id < x.nextId :=
  h.fresh _ (h.working w hw)

theorem Watched.eq_nil (h : Watched s set policy cancelled id q x ds) (hid : x.nextId ≤ id) :
    ds = [] := by
  induction h with
  | start => rfl
  | @step x y ds l h hq hs ih =>
      have hnext : x.nextId ≤ y.nextId ∧ l.isStepOf id = false := by
        cases moves_of_step? hs with
        | cancel hc | aggregator h => exact ⟨Nat.le_refl _, rfl⟩
        | dispatcher hm =>
            rcases hm.workers_cases.2 with ⟨-, hnext⟩ | ⟨t, -, -, hnext⟩
            · exact ⟨Nat.le_of_eq hnext.symm, rfl⟩
            · exact ⟨hnext ▸ Nat.le_succ _, rfl⟩
        | worker hm =>
            obtain ⟨-, hnext, hown⟩ := hm.frame_course id
            refine ⟨Nat.le_of_eq hnext.symm, Bool.eq_false_iff.mpr fun hstep => ?_⟩
            obtain ⟨w, hw, rfl⟩ := hown hstep
            exact absurd (h.reachable.hasRoster.id_lt hw) (Nat.not_lt.mpr (hnext ▸ hid))
      rw [State.watch, hnext.2, if_neg (by decide)]
      exact ih (Nat.le_trans hnext.1 hid)

theorem Watched.shows (h : Watched s set policy cancelled id q x ds)
    (hfits : (s.delay s.maxAttempts).Fits) (hid : id < x.nextId) :
    ∃ t ∈ set.tasks, ∃ p, x.Shows s q id t p ds := by
  induction h with
  | start => cases hid
  | @step x y ds l h hq hs ih =>
      have hroster := h.reachable.hasRoster
      cases moves_of_step? hs with
      | cancel hc =>
          obtain ⟨t, ht, p, hp⟩ := ih hid
          exact ⟨t, ht, p, hp.stay rfl (fun _ => rfl) fun _ _ => Iff.rfl⟩
      | aggregator hm =>
          obtain ⟨t, ht, p, hp⟩ := ih hid
          exact ⟨t, ht, p, hp.stay rfl (fun hc => hc) fun _ _ => Iff.rfl⟩
      | dispatcher hm =>
          obtain ⟨hc, ⟨hworkers, hnext⟩ | ⟨t, hheld, hworkers, hnext⟩⟩ := hm.workers_cases
          · obtain ⟨t, ht, p, hp⟩ := ih (hnext ▸ hid)
            exact ⟨t, ht, p, hp.stay rfl (fun h => hc.trans h) fun _ _ => by rw [hworkers]⟩
          · by_cases hnew : id = x.nextId
            · subst hnew
              have hin : t ∈ x.account := by simp [State.account, hheld]
              have hstart := h.eq_nil (Nat.le_refl _)
              subst hstart
              refine ⟨t, h.reachable.account_perm.mem_iff.mp hin, .spawned, .spawned, ?_,
                .inl ⟨⟨x.nextId, t, .spawned⟩, by simp [hworkers], rfl⟩⟩
              intro w hw hwid
              rcases List.mem_append.mp (hworkers ▸ hw) with hw | hw
              · exact absurd (hroster.id_lt hw) (by simp [hwid])
              · cases List.mem_singleton.mp hw
                exact ⟨rfl, rfl⟩
            · obtain ⟨t', ht', p, hp⟩ := ih (by omega)
              refine ⟨t', ht', p, hp.stay rfl (fun h => hc.trans h) fun v hv => ?_⟩
              have hne : v ≠ ⟨x.nextId, t, .spawned⟩ := by
                rintro rfl
                exact hnew hv.symm
              simp [hworkers, hne]
      | worker hm =>
          obtain ⟨t, ht, p, hp⟩ := ih ((hm.frame_course id).2.1 ▸ hid)
          obtain ⟨p', hp', -⟩ := hm.shows hfits hroster.nodup_workers hq hp
          exact ⟨t, ht, p', hp'⟩

theorem State.Shows.exists_step {p : Phase} (hx : x.Shows s q id t p ds)
    (hids : (x.workers.map Worker.id).Nodup) (hp : ∀ e, p ≠ .over e) :
    ∃ l y, l.isStepOf id = true ∧ x.heeds id q l = true ∧ Works s x l y ∧ step? s x l = some y := by
  rcases hx.there with ⟨w, hw, rfl⟩ | ⟨e, he⟩
  · have hfound := State.worker?_of_mem hids hw
    obtain ⟨-, hphase⟩ := hx.phase w hw rfl
    have hself : (w.id == w.id) = true := beq_self_eq_true _
    cases p with
    | spawned =>
        exact ⟨.begin w.id, x.call w 1, hself, rfl, .begin hw hphase,
          by simp [step?, hfound, hphase]⟩
    | calling k =>
        exact ⟨.answer w.id (q.answer k), x.answer s w k (q.answer k), hself,
          by simp [State.heeds, hfound, hphase], works_answer _ hw hphase,
          by simp [step?, hfound, hphase]⟩
    | pausing k wait f =>
        exact ⟨.wake w.id, x.call w (k + 1), hself, rfl, .wake hw hphase,
          by simp [step?, hfound, hphase]⟩
    | «over» e => exact absurd rfl (hp e)
  · exact absurd he (hp e)

theorem Watched.exists_end {p : Phase} (h : Watched s set policy cancelled id q x ds)
    (hfits : (s.delay s.maxAttempts).Fits) (hx : x.Shows s q id t p ds) :
    ∃ ls y es e, (∀ l ∈ ls, l.isStepOf id = true) ∧ watch? s id q x ds ls = some (y, es) ∧
      Course s t q x.cancelled (.over e) es := by
  induction heffort : p.effort s using Nat.strongRecOn generalizing x ds p with
  | ind n ih =>
      by_cases hp : ∃ e, p = .over e
      · obtain ⟨e, rfl⟩ := hp
        exact ⟨[], x, ds, e, nofun, rfl, hx.course⟩
      · have hids := h.reachable.hasRoster.nodup_workers
        obtain ⟨l, y, hown, hq, hm, hs⟩ := hx.exists_step hids (not_exists.mp hp)
        obtain ⟨p', hy, hless⟩ := hm.shows hfits hids hq hx
        obtain ⟨ls, z, es, e, hall, hrun, hcourse⟩ :=
          ih _ (heffort ▸ hless hown) (h.step hq hs) hy rfl
        refine ⟨l :: ls, z, es, e, List.forall_mem_cons.mpr ⟨hown, hall⟩, ?_, ?_⟩
        · rw [watch?, if_pos hq, hs]
          exact hrun
        · exact (hm.frame_course id).1 ▸ hcourse

def persistent : Settings := { frugal with attempts := 3, backoff := ⟨5⟩ }

/-- Two calls lose the connection, and the third is made well. -/
def lostTwice : Script := fun k => if k ≤ 2 then some ⟨.network, "connection reset"⟩ else none

end ImageBatch.Engine
