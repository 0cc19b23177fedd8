import ImageBatch.Config.Basic
import ImageBatch.Proofs.Engine.Course

/-!
# Delays between calls

Behind call number `k` a worker sets its timer for `k` times a unit. A configuration bounds neither
the unit nor the number of calls: this delay is told as it is while it is below two to the power 64
milliseconds, told without its highest digits from there on, and once it fits no clock any more the
worker breaks off instead of setting a timer.
-/

namespace ImageBatch

/-! ## Spans of milliseconds -/

namespace Span

theorem fits_ofMillis_iff (n : Nat) : (ofMillis n).Fits ↔ n < 1000 * Nat.pow 2 64 := by
  have hseconds : (ofMillis n).seconds = n * 1000000 / 1000000000 := rfl
  rw [Fits, hseconds]
  omega

theorem times?_ofMillis (n k : Nat) :
    (ofMillis n).times? k =
      if n * k < 1000 * Nat.pow 2 64 then some (ofMillis (n * k)) else none := by
  have hnanos : (⟨(ofMillis n).nanos * k⟩ : Span) = ofMillis (n * k) :=
    congrArg Span.mk (Nat.mul_right_comm n 1000000 k)
  simp only [times?, hnanos, fits_ofMillis_iff]

theorem millis_ofMillis (n : Nat) : (ofMillis n).millis = n :=
  Nat.mul_div_cancel n (by decide)

end Span

/-- A delay that is told is one before a further call, and all of it is told that has a place. -/
def Happening.TellsWaitBy (attempts unit : Nat) : Happening → Prop
  | .taskRetrying _ k millis _ =>
    0 < k ∧ k < attempts ∧ unit * k < 1000 * Nat.pow 2 64 ∧ millis = unit * k % Nat.pow 2 64
  | _ => True

namespace Engine

variable {s : Settings} {set : TaskSet} {policy : SkipPolicy} {cancelled : Bool} {x y : State}
  {l : Label} {w : Worker} {unit k n : Nat}

/-- A call that failed in passing and was not the last is followed by a delay, if that fits a
clock. -/
theorem react_of_retry (hs : s.backoff = .ofMillis unit) (hk : k < s.maxAttempts) {c : Bool}
    (hc : c = false) (t : Task) {f : Failure} (hf : f.category.isRetryable = true) :
    react s c t k (.failure f) =
      if unit * k < 1000 * Nat.pow 2 64 then
        .pause (.taskRetrying t.origin k (unit * k % Nat.pow 2 64) f) (.ofMillis (unit * k)) f
      else .abort overflowWords := by
  subst hc
  have hmore : ¬ s.maxAttempts ≤ k := Nat.not_le.mpr hk
  by_cases hfits : unit * k < 1000 * Nat.pow 2 64
  · simp only [react, hf, hmore, hs, Span.times?_ofMillis, if_pos hfits, toldMillis,
      Span.millis_ofMillis, Bool.not_true, decide_false, Bool.or_self, Bool.false_eq_true, if_false]
  · simp only [react, hf, hmore, hs, Span.times?_ofMillis, if_neg hfits, Bool.not_true,
      decide_false, Bool.or_self, Bool.false_eq_true, if_false]

theorem react_eq_pause {c : Bool} {t : Task} {a : Answer} {h : Happening} {d : Span} {f : Failure}
    (hs : s.backoff = .ofMillis unit) (hr : react s c t k a = .pause h d f) :
    k < s.maxAttempts ∧ unit * k < 1000 * Nat.pow 2 64 ∧ d = .ofMillis (unit * k) ∧
      h = .taskRetrying t.origin k (unit * k % Nat.pow 2 64) f := by
  cases a with
  | success | panic words => simp [react] at hr
  | failure f' =>
      have hk := lt_of_react hr
      simp only [react] at hr
      split at hr
      · cases hr
      · rename_i hgoes
        simp only [hs, Span.times?_ofMillis] at hr
        split at hr
        · cases hr
        · rename_i d' hsome
          obtain ⟨hfits, hd⟩ := Option.ite_none_right_eq_some.mp hsome
          cases hd
          cases hr
          exact ⟨hk, hfits, rfl, by rw [toldMillis, Span.millis_ofMillis]⟩

/-! ## What is told of delays -/

/-- A worker that calls or waits has made a call, and its timer is set for the unit times the calls
made. -/
def Phase.WaitsBy (unit : Nat) : Phase → Prop
  | .calling k => 0 < k
  | .pausing k d _ => 0 < k ∧ d = .ofMillis (unit * k)
  | _ => True

/-- Whoever waits has set its timer by the unit, and told of it. -/
structure State.WaitsBy (s : Settings) (unit : Nat) (x : State) : Prop where
  phases : ∀ w ∈ x.workers, w.phase.WaitsBy unit
  told : ∀ h ∈ x.happenings, h.TellsWaitBy s.maxAttempts unit

/-- What holds of the new phase of a worker and of all old ones holds of all workers. -/
theorem Worker.forall_inPhase {ws : List Worker} {p : Phase} {id : Nat} {P : Phase → Prop}
    (h : ∀ w ∈ ws, P w.phase) (hp : P p) : ∀ w ∈ ws.map (Worker.inPhase id p), P w.phase := by
  intro v hv
  rcases Worker.mem_or_phase_eq hv with hv | he
  · exact h v hv
  · exact he ▸ hp

theorem tellsWaitBy_of_finish (unit : Nat) {c : Bool} {t : Task} {a : Answer} {h : Happening}
    {e : Exit} (hr : react s c t k a = .finish h e) :
    h.TellsWaitBy s.maxAttempts unit ∧ (Phase.over e).WaitsBy unit := by
  refine ⟨?_, trivial⟩
  cases a with
  | panic words => cases hr
  | success =>
      cases hr
      trivial
  | failure f =>
      simp only [react] at hr
      split at hr
      · cases hr
        trivial
      · split at hr <;> cases hr

theorem Works.waitsBy (h : Works s x l y) (hs : s.backoff = .ofMillis unit)
    (hx : x.WaitsBy s unit) : y.WaitsBy s unit := by
  cases h with
  | begin hw hp =>
      exact ⟨Worker.forall_inPhase hx.phases Nat.zero_lt_one,
        List.forall_mem_cons.mpr ⟨trivial, hx.told⟩⟩
  | finish hw hp ha =>
      obtain ⟨htold, hover⟩ := tellsWaitBy_of_finish unit ha
      exact ⟨Worker.forall_inPhase hx.phases hover, List.forall_mem_cons.mpr ⟨htold, hx.told⟩⟩
  | @pause w k a h d f hw hp ha =>
      obtain ⟨hk, hfits, rfl, rfl⟩ := react_eq_pause hs ha
      have hpos : 0 < k := by
        have hphase := hx.phases w hw
        rwa [hp] at hphase
      exact ⟨Worker.forall_inPhase hx.phases ⟨hpos, rfl⟩,
        List.forall_mem_cons.mpr ⟨⟨hpos, hk, hfits, rfl⟩, hx.told⟩⟩
  | abort hw hp ha => exact ⟨Worker.forall_inPhase hx.phases trivial, hx.told⟩
  | wake hw hp =>
      exact ⟨Worker.forall_inPhase hx.phases (Nat.succ_pos _),
        List.forall_mem_cons.mpr ⟨trivial, hx.told⟩⟩
  | giveUp hw hp hc =>
      exact ⟨Worker.forall_inPhase hx.phases trivial,
        List.forall_mem_cons.mpr ⟨trivial, hx.told⟩⟩
  | settle hw hp =>
      exact ⟨fun v hv => hx.phases v (List.mem_filter.mp hv).1, hx.told⟩

theorem Dispatches.waitsBy (h : Dispatches x y) (hx : x.WaitsBy s unit) : y.WaitsBy s unit := by
  cases h with
  | giveUp | recover | bypass | skip | discard =>
      exact ⟨hx.phases, List.forall_mem_cons.mpr ⟨trivial, hx.told⟩⟩
  | spawn hl =>
      refine ⟨fun w hw => ?_, hx.told⟩
      rcases List.mem_append.mp hw with hw | hw
      · exact hx.phases w hw
      · cases List.mem_singleton.mp hw
        trivial
  | _ => exact ⟨hx.phases, hx.told⟩

theorem Reachable.waitsBy (h : Reachable s set policy cancelled x)
    (hs : s.backoff = .ofMillis unit) : x.WaitsBy s unit := by
  refine Reachable.induction (P := State.WaitsBy s unit)
    ⟨List.forall_mem_nil _, List.forall_mem_nil _⟩ ?_ h
  intro x l y hx ih hm
  cases hm with
  | cancel hc | aggregator hm => exact ⟨ih.phases, ih.told⟩
  | dispatcher hm => exact hm.waitsBy ih
  | worker hm => exact hm.waitsBy hs ih

/-! ## Calls that are made again -/

/-- Call number `k` of a worker is under way in a run that goes on, and it is not the last that may
be made. -/
structure State.MayRetry (x : State) (s : Settings) (w : Worker) (k : Nat) : Prop where
  mem : w ∈ x.workers
  calling : w.phase = .calling k
  left : k < s.maxAttempts
  goesOn : x.cancelled = false

/-- A worker tells of a delay before its next call, and sets its timer for a delay. -/
def State.putOff (x : State) (w : Worker) (k told wait : Nat) (f : Failure) : State :=
  (x.tell (.taskRetrying w.task.origin k told f)).setPhase w.id (.pausing k (.ofMillis wait) f)

/-- A worker breaks off without a word to the others, and its slot is free. -/
def State.breakOff (x : State) (w : Worker) (words : String) : State :=
  { x with free := x.free + 1 }.setPhase w.id (.over (.aborted words))

theorem State.putOff_inj {told told' wait wait' : Nat} {f f' : Failure}
    (h : x.putOff w k told wait f = x.putOff w k told' wait' f') : told = told' := by
  have hhead := congrArg (fun y => y.happenings.head?) h
  simp only [putOff, tell, setPhase, List.head?_cons, Option.some.injEq,
    Happening.taskRetrying.injEq] at hhead
  exact hhead.2.2.1

theorem State.putOff_ne_breakOff {told wait : Nat} {f : Failure} {words : String} :
    x.putOff w k told wait f ≠ x.breakOff w words := by
  intro h
  have hlength := congrArg (fun y => y.happenings.length) h
  simp [putOff, breakOff, tell, setPhase] at hlength

/-- What becomes of a call that failed in passing and may be made again. -/
theorem Reachable.step_of_retry (h : Reachable s set policy cancelled x)
    (hs : s.backoff = .ofMillis unit) (hw : x.MayRetry s w k) {f : Failure}
    (hf : f.category.isRetryable = true) :
    step? s x (.answer w.id (.failure f)) = some
      (if unit * k < 1000 * Nat.pow 2 64 then
        x.putOff w k (unit * k % Nat.pow 2 64) (unit * k) f
      else x.breakOff w overflowWords) := by
  have hfound := State.worker?_of_mem h.hasRoster.nodup_workers hw.mem
  have hstep : step? s x (.answer w.id (.failure f)) = some (x.answer s w k (.failure f)) := by
    simp only [step?, hfound, hw.calling]
  have hreact := react_of_retry hs hw.left hw.goesOn w.task hf
  rw [hstep, State.answer]
  by_cases hfits : unit * k < 1000 * Nat.pow 2 64
  · rw [if_pos hfits] at hreact ⊢
    rw [hreact]
    rfl
  · rw [if_neg hfits] at hreact ⊢
    rw [hreact]
    rfl

/-! ## How far the calls of a task go -/

/-- The first task of a run is called for, if it is to be copied and the slots can be counted. -/
theorem exists_first_call {t : Task} {ts : List Task} (hs : s.slots ≤ slotBound)
    (hset : set.tasks = t :: ts) (hd : policy.decide t (set.linkedBundles t) [] = .proceed) :
    ∃ x w, Reachable s set policy false x ∧ x.cancelled = false ∧ w ∈ x.workers ∧
      w.phase = .calling 1 := by
  have hslot : 0 < s.slots := Nat.lt_of_lt_of_le Nat.zero_lt_one (Nat.le_max_right _ _)
  have hrecords : (Tally.start set).errors = [] := rfl
  have hrun : ((steps? s (State.start s set policy false) (timing [(5, .dispatcher),
      (3, .aggregator), (1, .dispatcher), (1, .begin 0)])).map fun x => (x.cancelled, x.workers)) =
      some (false, [⟨0, t, .calling 1⟩]) := by
    simp [timing, steps?, step?, State.start, Nat.not_lt.mpr hs, hset, State.dispatchStep?, hslot,
      Inbox.room, State.aggregatorStep?, Aggregator.start, Aggregator.settledPhase,
      Aggregator.hasEnded, Aggregator.step?, Aggregator.expected, Aggregator.answer, hrecords, hd,
      State.carryOut, State.spawn, State.worker?, State.call, State.tell, State.setPhase]
  obtain ⟨x, hx, he⟩ := Option.map_eq_some_iff.mp hrun
  obtain ⟨hc, hw⟩ := Prod.mk.inj he
  exact ⟨x, ⟨0, t, .calling 1⟩, Reachable.start.of_steps? hx, hc, hw ▸ List.mem_singleton_self _,
    rfl⟩

/-- A failure that may pass. -/
def lostConnection : Failure := ⟨.network, "connection reset"⟩

/-- A call that fails in passing is followed by the next one, if the delay fits a clock. -/
theorem Reachable.exists_next_call (h : Reachable s set policy cancelled x)
    (hs : s.backoff = .ofMillis unit) (hw : x.MayRetry s w k)
    (hfits : unit * k < 1000 * Nat.pow 2 64) :
    ∃ y v, Reachable s set policy cancelled y ∧ y.cancelled = false ∧ v ∈ y.workers ∧
      v.phase = .calling (k + 1) := by
  have hput := h.step_of_retry hs hw (f := lostConnection) rfl
  rw [if_pos hfits] at hput
  let y := x.putOff w k (unit * k % Nat.pow 2 64) (unit * k) lostConnection
  let v : Worker := { w with phase := .pausing k (.ofMillis (unit * k)) lostConnection }
  have hy : Reachable s set policy cancelled y := h.step hput
  have hv : v ∈ y.workers := List.mem_map.mpr ⟨w, hw.mem, Worker.inPhase_self w _⟩
  have hfound := State.worker?_of_mem hy.hasRoster.nodup_workers hv
  have hwake : step? s y (.wake v.id) = some (y.call v (k + 1)) := by
    simp only [step?, hfound, v]
  exact ⟨y.call v (k + 1), { v with phase := .calling (k + 1) }, hy.step hwake, hw.goesOn,
    List.mem_map.mpr ⟨v, hv, Worker.inPhase_self v _⟩, rfl⟩

/-- A task is called for again and again, as long as the delays fit a clock. -/
theorem exists_call {t : Task} {ts : List Task} (hs : s.slots ≤ slotBound)
    (hset : set.tasks = t :: ts) (hd : policy.decide t (set.linkedBundles t) [] = .proceed)
    (hunit : s.backoff = .ofMillis unit) (hk : k < s.maxAttempts)
    (hfits : unit * k < 1000 * Nat.pow 2 64) :
    ∃ x w, Reachable s set policy false x ∧ x.cancelled = false ∧ w ∈ x.workers ∧
      w.phase = .calling (k + 1) := by
  induction k with
  | zero => exact exists_first_call hs hset hd
  | succ k ih =>
      obtain ⟨x, w, hx, hc, hw, hp⟩ := ih (Nat.lt_of_succ_lt hk)
        (Nat.lt_of_le_of_lt (Nat.mul_le_mul_left unit (Nat.le_succ k)) hfits)
      exact hx.exists_next_call hunit ⟨hw, hp, hk, hc⟩ hfits

/-- The delays before the last call exceed whatever the last of them exceeds, if the shorter ones fit
a clock. -/
theorem exists_retry {t : Task} {ts : List Task} (hs : s.slots ≤ slotBound)
    (hset : set.tasks = t :: ts) (hd : policy.decide t (set.linkedBundles t) [] = .proceed)
    (hunit : s.backoff = .ofMillis unit) (hpos : 0 < n) (hbound : n ≤ 1000 * Nat.pow 2 64)
    (hn : n ≤ unit * (s.maxAttempts - 1)) :
    ∃ x w k, Reachable s set policy false x ∧ x.MayRetry s w k ∧ n ≤ unit * k := by
  have hpred : n - 1 < n := Nat.sub_one_lt_of_lt hpos
  obtain ⟨k, hshorter, hlonger, hleft⟩ :
      ∃ k, unit * k < n ∧ n ≤ unit * (k + 1) ∧ k < s.maxAttempts - 1 := by
    refine ⟨(n - 1) / unit, ?_, ?_, ?_⟩
    · exact Nat.lt_of_le_of_lt (Nat.mul_div_le _ _) hpred
    · have hunits : 0 < unit := Nat.pos_of_mul_pos_right (Nat.lt_of_lt_of_le hpos hn)
      exact Nat.le_of_pred_lt (Nat.lt_mul_div_succ _ hunits)
    · exact Nat.div_lt_of_lt_mul (Nat.lt_of_lt_of_le hpred hn)
  obtain ⟨x, w, hx, hc, hw, hp⟩ := exists_call hs hset hd hunit (Nat.lt_of_lt_pred hleft)
    (Nat.lt_of_lt_of_le hshorter hbound)
  exact ⟨x, w, k + 1, hx, ⟨hw, hp, Nat.add_lt_of_lt_sub hleft, hc⟩, hlonger⟩

end Engine

/-! ## Delays that a configuration may ask for -/

open Engine (Reachable State Worker step? slotBound overflowWords)

namespace Config

variable {c : Config} {mode : Mode} {x : State} {w : Worker} {k n : Nat} {f : Failure}

/-- A run by the configuration comes to the state, whatever is to be copied and whatever the
timing. -/
def Reaches (c : Config) (mode : Mode) (x : State) : Prop :=
  ∃ set cancelled, Reachable (c.engineSettings mode) set (c.plan mode).skipPolicy cancelled x

/-- A run by the configuration comes to a call that fails in passing and may be made again. -/
structure Retry (c : Config) (mode : Mode) (x : State) (w : Worker) (k : Nat) (f : Failure) :
    Prop where
  reached : c.Reaches mode x
  may : x.MayRetry (c.engineSettings mode) w k
  passes : f.category.isRetryable = true

namespace Retry

theorem step_eq (h : c.Retry mode x w k f) :
    step? (c.engineSettings mode) x (.answer w.id (.failure f)) = some
      (if c.batch.backoffMillis * k < 1000 * Nat.pow 2 64 then
        x.putOff w k (c.batch.backoffMillis * k % Nat.pow 2 64) (c.batch.backoffMillis * k) f
      else x.breakOff w overflowWords) := by
  obtain ⟨set, cancelled, hx⟩ := h.reached
  exact hx.step_of_retry rfl h.may h.passes

theorem exact_iff (h : c.Retry mode x w k f) :
    step? (c.engineSettings mode) x (.answer w.id (.failure f)) =
        some (x.putOff w k (c.batch.backoffMillis * k) (c.batch.backoffMillis * k) f) ↔
      c.batch.backoffMillis * k < Nat.pow 2 64 := by
  rw [h.step_eq, Option.some_inj]
  split
  · refine ⟨fun he => ?_, fun hlt => by rw [Nat.mod_eq_of_lt hlt]⟩
    exact Nat.mod_eq_iff_lt (by decide) |>.mp (State.putOff_inj he)
  · rename_i hlong
    exact ⟨fun he => absurd he.symm State.putOff_ne_breakOff, fun hlt => by omega⟩

theorem breakOff_iff (h : c.Retry mode x w k f) :
    step? (c.engineSettings mode) x (.answer w.id (.failure f)) =
        some (x.breakOff w overflowWords) ↔
      ¬ c.batch.backoffMillis * k < 1000 * Nat.pow 2 64 := by
  rw [h.step_eq, Option.some_inj]
  split
  · rename_i hfits
    exact ⟨fun he => absurd he State.putOff_ne_breakOff, fun hlong => absurd hfits hlong⟩
  · rename_i hlong
    exact ⟨fun _ => hlong, fun _ => rfl⟩

end Retry

/-- Whether all delays stay below a bound is a matter of the last one, unless nothing is ever
started. -/
theorem forall_retry_lt_iff (c : Config) (mode : Mode) (hpos : 0 < n)
    (hbound : n ≤ 1000 * Nat.pow 2 64) :
    (∀ x w k f, c.Retry mode x w k f → c.batch.backoffMillis * k < n) ↔
      slotBound < c.batch.limit ∨ c.batch.backoffMillis * (c.batch.attempts - 1) < n := by
  have hmax : (c.engineSettings mode).maxAttempts - 1 = c.batch.attempts - 1 :=
    Nat.sub_max_sub_right _ _ _ |>.symm.trans (Nat.max_zero _)
  constructor
  · intro hall
    by_contra hlong
    obtain ⟨hlimit, hlast⟩ := not_or.mp hlong
    have hslots := (c.engineSettings mode).slots_le_iff.mpr (Nat.le_of_not_lt hlimit)
    let image := Engine.plainImage "a"
    have hset : (TaskSet.ofTasks [image]).tasks = [image] := rfl
    have hgoes : (c.plan mode).skipPolicy.decide image
      ((TaskSet.ofTasks [image]).linkedBundles image) [] = .proceed := rfl
    have hunit : (c.engineSettings mode).backoff = .ofMillis c.batch.backoffMillis := rfl
    obtain ⟨x, w, k, hx, hmay, hn⟩ := Engine.exists_retry hslots hset hgoes hunit hpos hbound
      (hmax.symm ▸ Nat.le_of_not_lt hlast)
    have hless := hall x w k Engine.lostConnection ⟨⟨_, _, hx⟩, hmay, rfl⟩
    omega
  · rintro hshort x w k f ⟨⟨set, cancelled, hx⟩, hmay, -⟩
    rcases hshort with hlimit | hlast
    · have hnone := (hx.neverStarts (Nat.lt_of_not_le fun hle =>
        Nat.not_le_of_lt hlimit ((c.engineSettings mode).slots_le_iff.mp hle))).workers
      exact absurd hmay.mem (hnone ▸ List.not_mem_nil)
    · have hk : k ≤ c.batch.attempts - 1 := hmax ▸ Nat.le_sub_one_of_lt hmay.left
      exact Nat.lt_of_le_of_lt (Nat.mul_le_mul_left _ hk) hlast

/-- Behind call number `k` the timer is set for `k` times the unit, and this delay is told modulo two
to the power 64. So all delays are told as they are just if the last one is below that many
milliseconds, and no worker breaks off instead of setting its timer just if the last one is below a
thousand times as many, unless there are too many slots for anything to start. -/
theorem waits_exactly_iff (c : Config) (mode : Mode) :
    (∀ x, c.Reaches mode x → x.WaitsBy (c.engineSettings mode) c.batch.backoffMillis) ∧
    (∀ x w k f, c.Retry mode x w k f →
      step? (c.engineSettings mode) x (.answer w.id (.failure f)) = some
        (if c.batch.backoffMillis * k < 1000 * Nat.pow 2 64 then
          x.putOff w k (c.batch.backoffMillis * k % Nat.pow 2 64) (c.batch.backoffMillis * k) f
        else x.breakOff w overflowWords)) ∧
    ((∀ x w k f, c.Retry mode x w k f →
        step? (c.engineSettings mode) x (.answer w.id (.failure f)) =
          some (x.putOff w k (c.batch.backoffMillis * k) (c.batch.backoffMillis * k) f)) ↔
      slotBound < c.batch.limit ∨
        c.batch.backoffMillis * (c.batch.attempts - 1) < Nat.pow 2 64) ∧
    ((∀ x w k f, c.Retry mode x w k f →
        step? (c.engineSettings mode) x (.answer w.id (.failure f)) ≠
          some (x.breakOff w overflowWords)) ↔
      slotBound < c.batch.limit ∨
        c.batch.backoffMillis * (c.batch.attempts - 1) < 1000 * Nat.pow 2 64) := by
  refine ⟨?_, fun x w k f h => h.step_eq, ?_, ?_⟩
  · rintro x ⟨set, cancelled, hx⟩
    exact hx.waitsBy rfl
  · rw [← forall_retry_lt_iff c mode (by decide) (by decide)]
    exact forall₅_congr fun x w k f h => h.exact_iff
  · rw [← forall_retry_lt_iff c mode (by decide) (Nat.le_refl _)]
    exact forall₅_congr fun x w k f h => h.breakOff_iff.not_left

/-- The second delay of a configuration that is accepted is told as none at all. -/
theorem waits_exactly_iff_of_halfRange :
    ∃ c : Config, c.fault? = none ∧ c.batch.backoffMillis = Nat.pow 2 63 ∧ c.batch.attempts = 3 ∧
      ∃ x w f, c.Retry .mirrorToMirror x w 2 f ∧
        step? (c.engineSettings .mirrorToMirror) x (.answer w.id (.failure f)) =
          some (x.putOff w 2 0 (Nat.pow 2 64) f) := by
  let c : Config := { standard ⟨none, none⟩ with
    batch := { BatchSettings.standard with backoffMillis := Nat.pow 2 63 } }
  have hc : c.fault? = none := by decide +kernel
  obtain ⟨-, hstep, hexact, -⟩ := waits_exactly_iff c .mirrorToMirror
  have hlong : ¬ (slotBound < c.batch.limit ∨
      c.batch.backoffMillis * (c.batch.attempts - 1) < Nat.pow 2 64) := by decide
  obtain ⟨x, w, k, f, h, hne⟩ : ∃ x w k f, c.Retry .mirrorToMirror x w k f ∧
      step? (c.engineSettings .mirrorToMirror) x (.answer w.id (.failure f)) ≠
        some (x.putOff w k (c.batch.backoffMillis * k) (c.batch.backoffMillis * k) f) := by
    simpa using (not_congr hexact).mpr hlong
  have hk : k < 3 := h.may.left
  have htold := (not_congr h.exact_iff).mp hne
  obtain rfl | rfl | rfl : k = 0 ∨ k = 1 ∨ k = 2 := by omega
  · exact absurd (by decide) htold
  · exact absurd (by decide) htold
  · have hsecond := hstep x w 2 f h
    have hwait : c.batch.backoffMillis * 2 = Nat.pow 2 64 := by decide
    rw [if_pos (by decide), hwait, Nat.mod_self] at hsecond
    exact ⟨c, hc, rfl, rfl, x, w, f, h, hsecond⟩

end Config

end ImageBatch
