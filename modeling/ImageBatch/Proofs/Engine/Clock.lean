import ImageBatch.Proofs.Engine.Course
import ImageBatch.Proofs.Engine.Timeline
import Mathlib.Algebra.Order.BigOperators.Group.List
import Mathlib.Algebra.Order.Group.Nat
import Mathlib.Tactic.Ring

/-!
# The clock brings runs to their end

A clocked run is driven for a bounded number of steps, and the bound is never reached. Whoever waits
for the clock is awaited by an alarm, so time goes on while somebody works, and every step of the
clock either takes effort from the run or uses up an alarm.
-/

namespace ImageBatch.Engine

variable {s : Settings} {set : TaskSet} {policy : SkipPolicy} {cancelled : Bool} {x y : State}
  {t u : Timeline} {w : Worker} {id : Nat} {l : Label}

/-! ## What is awaited -/

/-- What a worker awaits from the clock. -/
inductive Due where
  | answer
  | wake
deriving DecidableEq

def Phase.due? : Phase → Option Due
  | .calling _ => some .answer
  | .pausing _ _ _ => some .wake
  | _ => none

def Worker.due? (w : Worker) : Option (Nat × Due) := w.phase.due?.map (Prod.mk w.id)

def Bell.due? : Bell → Option (Nat × Due)
  | .answer id _ _ => some (id, .answer)
  | .wake id => some (id, .wake)
  | .cancel => none

/-- What the workers await. -/
def State.dues (x : State) : List (Nat × Due) := x.workers.filterMap Worker.due?

/-- What the clock has in store: the alarms that are set, and the answer to the call that has just
started. -/
def Timeline.promises (t : Timeline) : List (Nat × Due) :=
  t.calling.toList.map (·, Due.answer) ++ t.alarms.filterMap (fun a => a.bell.due?)

theorem State.exists_of_mem_dues {d : Due} (h : (id, d) ∈ x.dues) :
    ∃ w ∈ x.workers, w.id = id ∧ w.phase.due? = some d := by
  obtain ⟨w, hw, hdue⟩ := List.mem_filterMap.mp h
  obtain ⟨d', hd', he⟩ := Option.map_eq_some_iff.mp hdue
  cases he
  exact ⟨w, hw, rfl, hd'⟩

theorem State.HasRoster.perm_dues (hr : x.HasRoster) (hw : w ∈ x.workers) {p : Phase}
    (hy : y.workers = x.workers.map (Worker.inPhase w.id p)) :
    ((Worker.due? { w with phase := p }).toList ++ x.dues).Perm (w.due?.toList ++ y.dues) := by
  have hbefore : x.dues.Perm (w.due?.toList ++
      (x.workers.filter (fun v => v.id != w.id)).filterMap Worker.due?) := by
    refine ((perm_cons_filter Worker.id hr.nodup_workers hw).filterMap _).trans ?_
    rw [List.filterMap_cons]
    cases w.due? <;> exact List.Perm.refl _
  have hafter : y.dues.Perm ((Worker.due? { w with phase := p }).toList ++
      (x.workers.filter (fun v => v.id != w.id)).filterMap Worker.due?) := by
    refine (((hy ▸ hr.perm_inPhase hw p : y.workers.Perm _)).filterMap _).trans ?_
    rw [List.filterMap_cons]
    cases Worker.due? { w with phase := p } <;> exact List.Perm.refl _
  exact ((hbefore.append_left _).trans (List.perm_append_comm_assoc _ _ _)).trans
    (hafter.symm.append_left _)

theorem State.HasRoster.nodup_dues (hr : x.HasRoster) : x.dues.Nodup := by
  have hids : x.workers.Pairwise (fun v w => v.id ≠ w.id) := List.pairwise_map.mp hr.nodup_workers
  refine hids.filterMap _ fun v w hne d hv d' hw he => hne ?_
  obtain ⟨_, _, rfl⟩ := Option.map_eq_some_iff.mp hv
  obtain ⟨_, _, rfl⟩ := Option.map_eq_some_iff.mp hw
  exact congrArg Prod.fst he

/-! ## Clocks that keep their promises -/

/-- What an alarm costs: a worker that is answered may have to wait. -/
def Bell.cost : Bell → Nat
  | .answer _ _ _ => 2
  | .wake _ => 1
  | .cancel => 1

theorem Bell.cost_pos (b : Bell) : 0 < b.cost := by
  cases b <;> simp [cost]

/-- The phase of a worker behind an answer is not the one of a call. -/
theorem Reaction.due?_phase_ne (r : Reaction) (k : Nat) : (r.phase k).due? ≠ some .answer := by
  cases r <;> simp [Reaction.phase, Phase.due?]

theorem State.workers_answer (s : Settings) (x : State) (w : Worker) (k : Nat) (a : Answer) :
    (x.answer s w k a).workers =
      x.workers.map (Worker.inPhase w.id ((react s x.cancelled w.task k a).phase k)) := by
  unfold State.answer
  split
  · rename_i ha
    rw [ha]
    rfl
  · rename_i ha
    rw [ha]
    rfl
  · rename_i ha
    rw [ha]
    rfl

namespace Timeline

/-- All that is awaited is promised, apart from what falls due now. -/
def IsOnTime (t : Timeline) (falling : List (Nat × Due)) : Prop :=
  (falling ++ t.promises).Perm t.state.dues

/-- A bound for the steps that are left. A call is asked for and answered by an alarm. -/
def cost (t : Timeline) : Nat :=
  5 * t.state.effort t.settings + 3 * t.calling.toList.length +
    (t.alarms.map fun a => a.bell.cost).sum

theorem take_eq (hs : step? t.settings t.state l = some y) : t.take l = { t with state := y } := by
  rw [take, hs]
  rfl

theorem cost_promise (t : Timeline) (time : Span) (b : Bell) :
    ({ t with alarms := t.alarms ++ [⟨time, b⟩] } : Timeline).cost = t.cost + b.cost := by
  simp only [cost, List.map_append, List.sum_append, List.map_cons, List.map_nil, List.sum_cons,
    List.sum_nil]
  omega

theorem IsRun.hasRoster (h : t.IsRun s set policy cancelled) : t.state.HasRoster :=
  h.reachable.hasRoster

/-- A step of the engine takes effort, so the clock has less to do. -/
theorem IsRun.cost_le_of_step (h : t.IsRun s set policy cancelled)
    (hs : step? t.settings t.state l = some y) : ({ t with state := y }).cost + 5 ≤ t.cost := by
  have hlt : y.effort t.settings < t.state.effort t.settings := by
    rw [h.settings_eq] at hs ⊢
    exact (moves_of_step? hs).effort_lt h.hasRoster h.reachable.keepsTries
  simp only [cost]
  omega

namespace IsOnTime

variable {falling : List (Nat × Due)} {p : Phase}

theorem of_dues_eq (h : t.IsOnTime falling) (hd : y.dues = t.state.dues) :
    ({ t with state := y }).IsOnTime falling := by
  have hperm : (falling ++ t.promises).Perm t.state.dues := h
  rwa [← hd] at hperm

/-- What a worker awaited falls due, and it awaits something else. -/
theorem turn (h : t.IsOnTime w.due?.toList) (hr : t.state.HasRoster) (hw : w ∈ t.state.workers)
    (hy : y.workers = t.state.workers.map (Worker.inPhase w.id p)) :
    ({ t with state := y }).IsOnTime (Worker.due? { w with phase := p }).toList := by
  refine (List.perm_append_left_iff w.due?.toList).mp ?_
  have hswap := List.perm_append_comm_assoc w.due?.toList
    (Worker.due? { w with phase := p }).toList t.promises
  exact hswap.trans ((List.Perm.append_left _ h).trans (hr.perm_dues hw hy))

theorem promise {b : Bell} (h : t.IsOnTime b.due?.toList) (time : Span) :
    ({ t with alarms := t.alarms ++ [⟨time, b⟩] } : Timeline).IsOnTime [] := by
  have hperm : (b.due?.toList ++ t.promises).Perm t.state.dues := h
  have hnew : ({ t with alarms := t.alarms ++ [⟨time, b⟩] } : Timeline).promises =
      t.promises ++ b.due?.toList := by
    simp only [promises, List.filterMap_append, List.filterMap_cons, List.filterMap_nil,
      List.append_assoc]
    cases b.due? <;> rfl
  rw [IsOnTime, hnew, List.nil_append]
  exact List.perm_append_comm.trans hperm

theorem exists_worker (h : t.IsOnTime falling) (hr : t.state.HasRoster) {d : Due}
    (hd : (id, d) ∈ falling ++ t.promises) :
    ∃ w, w ∈ t.state.workers ∧ w.id = id ∧ t.state.worker? id = some w ∧ w.phase.due? = some d := by
  obtain ⟨w, hw, rfl, hdue⟩ := State.exists_of_mem_dues ((List.Perm.mem_iff h).mp hd)
  exact ⟨w, hw, rfl, State.worker?_of_mem hr.nodup_workers hw, hdue⟩

theorem due?_eq (h : t.IsOnTime falling) (hr : t.state.HasRoster) (hw : w ∈ t.state.workers)
    {d : Due} (hd : (w.id, d) ∈ falling ++ t.promises) : w.phase.due? = some d := by
  obtain ⟨v, -, -, hv, hdue⟩ := h.exists_worker hr hd
  rw [State.worker?_of_mem hr.nodup_workers hw] at hv
  cases hv
  exact hdue

theorem take_cancel (h : t.IsOnTime falling) (hrun : t.IsRun s set policy cancelled) :
    (t.take .cancel).IsOnTime falling ∧ (t.take .cancel).cost ≤ t.cost := by
  cases hs : step? t.settings t.state .cancel with
  | none =>
      rw [take, hs]
      exact ⟨h, Nat.le_refl _⟩
  | some y =>
      have hcost := hrun.cost_le_of_step hs
      rw [take_eq hs]
      refine ⟨h.of_dues_eq ?_, by omega⟩
      cases moves_of_step? hs with
      | cancel hc => rfl
      | worker hm => cases hm

theorem take_answer (h : t.IsOnTime [(id, .answer)]) (hrun : t.IsRun s set policy cancelled)
    (a : Answer) :
    ∃ y, step? t.settings t.state (.answer id a) = some y ∧ ∃ w ∈ y.workers, w.id = id ∧
      w.phase.due? ≠ some .answer ∧ ({ t with state := y }).IsOnTime w.due?.toList := by
  obtain ⟨w, hw, rfl, hfound, hdue⟩ := h.exists_worker hrun.hasRoster List.mem_cons_self
  cases hp : w.phase with
  | calling k =>
      have hown : w.due?.toList = [(w.id, Due.answer)] := by rw [Worker.due?, hdue]; rfl
      have hy := State.workers_answer t.settings t.state w k a
      refine ⟨t.state.answer t.settings w k a, by simp [step?, hfound, hp],
        { w with phase := (react t.settings t.state.cancelled w.task k a).phase k },
        hy ▸ List.mem_map.mpr ⟨w, hw, Worker.inPhase_self w _⟩, rfl,
        Reaction.due?_phase_ne _ k, ?_⟩
      exact (hown ▸ h).turn hrun.hasRoster hw hy
  | spawned | pausing k wait f | «over» e =>
      rw [hp] at hdue
      cases hdue

/-- The wait of a worker falls due: it calls, and the call is to be answered. -/
theorem rouse (h : t.IsOnTime [(id, .wake)]) (hrun : t.IsRun s set policy cancelled)
    (hc : t.calling = none) : (t.rouse id).IsOnTime [] ∧ (t.rouse id).cost + 2 ≤ t.cost := by
  obtain ⟨w, hw, rfl, hfound, hdue⟩ := h.exists_worker hrun.hasRoster List.mem_cons_self
  cases hp : w.phase with
  | pausing k wait f =>
      have hown : w.due?.toList = [(w.id, Due.wake)] := by rw [Worker.due?, hdue]; rfl
      have hs : step? t.settings t.state (.wake w.id) = some (t.state.call w (k + 1)) := by
        simp [step?, hfound, hp]
      have hcost := hrun.cost_le_of_step hs
      have hturn := (hown ▸ h).turn (y := t.state.call w (k + 1)) hrun.hasRoster hw rfl
      rw [Timeline.rouse, take_eq hs]
      constructor
      · simpa [IsOnTime, promises, called, hc, Worker.due?, Phase.due?] using hturn
      · simp only [cost, called, hc, Option.toList_some, Option.toList_none, List.length_nil,
          List.length_singleton] at hcost ⊢
        omega
  | spawned | calling k | «over» e =>
      rw [hp] at hdue
      cases hdue

theorem setWake (h : t.IsOnTime w.due?.toList) (hrun : t.IsRun s set policy cancelled)
    (hc : t.calling = none) (hw : w ∈ t.state.workers) (hdue : w.phase.due? ≠ some .answer) :
    (t.setWake w.id).IsOnTime [] ∧ (t.setWake w.id).cost ≤ t.cost + 1 := by
  have hfound := State.worker?_of_mem hrun.hasRoster.nodup_workers hw
  rw [Timeline.setWake, hfound, Option.map_some]
  cases hp : w.phase with
  | calling k =>
      rw [hp] at hdue
      exact absurd rfl hdue
  | spawned | «over» e =>
      rw [Worker.due?, hp] at h
      exact ⟨h, Nat.le_succ _⟩
  | pausing k wait f =>
      rw [Worker.due?, hp] at h
      simp only
      split
      · obtain ⟨honTime, hcost⟩ := h.rouse hrun hc
        exact ⟨honTime, by omega⟩
      · exact ⟨promise (b := .wake w.id) h _, Nat.le_of_eq (cost_promise _ _ _)⟩

theorem ring {b : Bell} (h : t.IsOnTime b.due?.toList) (hrun : t.IsRun s set policy cancelled)
    (hc : t.calling = none) : (t.ring b).IsOnTime [] ∧ (t.ring b).cost ≤ t.cost := by
  cases b with
  | cancel => exact h.take_cancel hrun
  | wake id =>
      obtain ⟨honTime, hcost⟩ := h.rouse hrun hc
      exact ⟨honTime, Nat.le_of_add_right_le hcost⟩
  | answer id a cancels =>
      let u := if cancels then t.take .cancel else t
      obtain ⟨hu, hcost, hrun', hc'⟩ : u.IsOnTime [(id, .answer)] ∧ u.cost ≤ t.cost ∧
          u.IsRun s set policy cancelled ∧ u.calling = none := by
        cases cancels with
        | false => exact ⟨h, Nat.le_refl _, hrun, hc⟩
        | true =>
            obtain ⟨honTime, hcost⟩ := take_cancel h hrun
            exact ⟨honTime, hcost, hrun.follow (.take t _), hc⟩
      obtain ⟨y, hs, w, hw, rfl, hdue, hon⟩ := hu.take_answer hrun' a
      have hless := hrun'.cost_le_of_step hs
      have hnext : ({ u with state := y }).IsRun s set policy cancelled :=
        hrun'.follow (.step hs)
      obtain ⟨honTime, hwake⟩ := hon.setWake hnext hc' hw hdue
      have hring : t.ring (.answer w.id a cancels) = ({ u with state := y }).setWake w.id := by
        rw [Timeline.ring, ← take_eq hs]
      rw [hring]
      exact ⟨honTime, by omega⟩

/-- The call that has just started is answered at once, or an alarm is set for the answer. -/
theorem setAnswer (h : t.IsOnTime [(id, .answer)]) (hrun : t.IsRun s set policy cancelled)
    (hc : t.calling = none) (c : Call) :
    (t.setAnswer id c).IsOnTime [] ∧ (t.setAnswer id c).cost ≤ t.cost + 2 := by
  have hbell : t.IsOnTime (Bell.answer id c.answer c.cancels).due?.toList := h
  rw [Timeline.setAnswer]
  split
  · obtain ⟨honTime, hcost⟩ := hbell.ring hrun hc
    exact ⟨honTime, Nat.le_add_right_of_le hcost⟩
  · exact ⟨hbell.promise _, Nat.le_of_eq (cost_promise _ _ _)⟩

end IsOnTime

theorem earliest_perm {as rest : List Alarm} {a : Alarm} (h : earliest as = some (a, rest)) :
    as.Perm (a :: rest) := by
  induction as generalizing a rest with
  | nil => cases h
  | cons b bs ih =>
      rw [earliest] at h
      split at h
      · rename_i hnone
        cases h
        cases bs with
        | nil => exact .refl _
        | cons c cs =>
            rw [earliest] at hnone
            split at hnone
            · cases hnone
            · split at hnone <;> cases hnone
      · rename_i c cs hsome
        split at h
        · cases h
          exact .refl _
        · cases h
          exact ((ih hsome).cons b).trans (.swap _ _ _)

theorem earliest_eq_none {as : List Alarm} (h : earliest as = none) : as = [] := by
  cases as with
  | nil => rfl
  | cons b bs =>
      rw [earliest] at h
      split at h
      · cases h
      · split at h <;> cases h

theorem earliest_le {as rest : List Alarm} {a : Alarm} (h : earliest as = some (a, rest)) :
    ∀ c ∈ as, a.time.nanos ≤ c.time.nanos := by
  induction as generalizing a rest with
  | nil => cases h
  | cons c cs ih =>
      rw [earliest] at h
      split at h
      · rename_i hnone
        cases h
        rw [earliest_eq_none hnone]
        simp
      · rename_i c' cs' hsome
        have hle := ih hsome
        split at h
        · rename_i hfirst
          cases h
          exact List.forall_mem_cons.mpr ⟨Nat.le_refl _, fun d hd => Nat.le_trans hfirst (hle d hd)⟩
        · rename_i hfirst
          cases h
          exact List.forall_mem_cons.mpr ⟨by omega, hle⟩

namespace IsOnTime

theorem of_earliest (h : t.IsOnTime []) {a : Alarm} {rest : List Alarm}
    (ha : earliest t.alarms = some (a, rest)) (now : Span) :
    ({ t with now := now, alarms := rest } : Timeline).IsOnTime a.bell.due?.toList := by
  have hperm : t.promises.Perm t.state.dues := h
  have hdue : (t.alarms.filterMap fun a => a.bell.due?).Perm
      (a.bell.due?.toList ++ rest.filterMap fun a => a.bell.due?) := by
    refine ((earliest_perm ha).filterMap _).trans ?_
    rw [List.filterMap_cons]
    cases a.bell.due? <;> exact .refl _
  have hall := (hdue.append_left (t.calling.toList.map (·, Due.answer))).symm.trans hperm
  exact (List.perm_append_comm_assoc _ _ _).trans hall

theorem passTime (h : t.IsOnTime []) (hrun : t.IsRun s set policy cancelled)
    (hc : t.calling = none) :
    t.passTime.All fun u => u.IsOnTime [] ∧ u.cost < t.cost := by
  rw [Timeline.passTime]
  split
  · trivial
  · rename_i a rest ha
    let u : Timeline := { t with now := ⟨max t.now.nanos a.time.nanos⟩, alarms := rest }
    have hless : u.cost + a.bell.cost = t.cost := by
      have hsum := ((earliest_perm ha).map fun a => a.bell.cost).sum_eq
      rw [List.map_cons, List.sum_cons] at hsum
      simp only [cost, hsum, u]
      omega
    have hpos := a.bell.cost_pos
    have hu : u.IsOnTime a.bell.due?.toList := h.of_earliest ha _
    obtain ⟨honTime, hcost⟩ := hu.ring (hrun.follow (.of_eq rfl rfl)) hc
    exact ⟨honTime, Nat.lt_of_le_of_lt hcost (by omega)⟩

theorem mem_promises_of_alarm {a : Alarm} {d : Due} (ha : a ∈ t.alarms)
    (hdue : a.bell.due? = some (id, d)) : (id, d) ∈ t.promises :=
  List.mem_append_right _ (List.mem_filterMap.mpr ⟨a, ha, hdue⟩)

theorem mem_promises_of_firstWaiting (hfirst : t.firstWaiting = some id) :
    (id, Due.wake) ∈ t.promises := by
  obtain ⟨a, ha, hbell⟩ := List.exists_of_findSome?_eq_some hfirst
  refine mem_promises_of_alarm ha ?_
  split at hbell <;> simp_all [Bell.due?]

theorem abandon (h : t.IsOnTime []) (hrun : t.IsRun s set policy cancelled)
    (hc : t.calling = none) (hcancelled : t.state.cancelled = true)
    (hfirst : t.firstWaiting = some id) :
    (t.abandon id).IsOnTime [] ∧ (t.abandon id).cost < t.cost := by
  have hpromises : t.promises = t.alarms.filterMap fun a => a.bell.due? := by
    rw [promises, hc]
    rfl
  have hin := mem_promises_of_firstWaiting hfirst
  obtain ⟨w, hw, rfl, hfound, hdue⟩ := h.exists_worker hrun.hasRoster hin
  let u : Timeline := { t with alarms := t.alarms.filter fun a => a.bell != .wake w.id }
  have hu : u.IsOnTime [(w.id, .wake)] := by
    have hnodup : t.promises.Nodup := (List.Perm.nodup_iff h).mpr hrun.hasRoster.nodup_dues
    have hleft : u.promises = t.promises.filter (· != (w.id, Due.wake)) := by
      rw [hpromises, List.filter_filterMap]
      simp only [promises, u, hc, Option.toList_none, List.map_nil, List.nil_append,
        List.filterMap_filter]
      refine List.filterMap_congr fun a _ => ?_
      cases a.bell <;> simp [Bell.due?, Option.filter]
    rw [IsOnTime, hleft, ← hnodup.erase_eq_filter]
    exact (List.perm_cons_erase hin).symm.trans h
  have hless : u.cost ≤ t.cost := by
    have hsum := (List.filter_sublist (p := fun a : Alarm => a.bell != .wake w.id)
      (l := t.alarms)).map (fun a => a.bell.cost) |>.sum_le_sum fun _ _ => Nat.zero_le _
    simp only [cost, u]
    omega
  cases hp : w.phase with
  | pausing k wait f =>
      have hown : w.due?.toList = [(w.id, Due.wake)] := by rw [Worker.due?, hdue]; rfl
      have hs : step? t.settings t.state (.giveUp w.id) = some (t.state.abandon w k f) := by
        simp [step?, hfound, hp, hcancelled]
      have hturn := (hown ▸ hu).turn (y := t.state.abandon w k f) hrun.hasRoster hw rfl
      have hcost := (hrun.follow (u := u) (.of_eq rfl rfl)).cost_le_of_step (l := .giveUp w.id) hs
      have hleft : t.abandon w.id = { u with state := t.state.abandon w k f } := by
        rw [Timeline.abandon, take_eq hs]
      rw [hleft]
      exact ⟨hturn, by omega⟩
  | spawned | calling k | «over» e =>
      rw [hp] at hdue
      cases hdue

theorem step (h : t.IsOnTime []) (hrun : t.IsRun s set policy cancelled)
    (hs : step? t.settings t.state l = some y) (hd : y.dues = t.state.dues) :
    ({ t with state := y }).IsOnTime [] ∧ ({ t with state := y }).cost < t.cost := by
  have hcost := hrun.cost_le_of_step hs
  exact ⟨h.of_dues_eq hd, by omega⟩

theorem settle (h : t.IsOnTime []) (hrun : t.IsRun s set policy cancelled)
    (hw : w ∈ t.state.workers) {e : Exit} (hp : w.phase = .over e) :
    (t.take (.settle w.id)).IsOnTime [] ∧ (t.take (.settle w.id)).cost < t.cost := by
  have hr := hrun.hasRoster
  have hfound := State.worker?_of_mem hr.nodup_workers hw
  obtain ⟨y, hs, hy⟩ : ∃ y, step? t.settings t.state (.settle w.id) = some y ∧
      y.workers = t.state.workers.filter (fun v => v.id != w.id) := by
    simp [step?, hfound, hp]
  rw [take_eq hs]
  refine h.step hrun hs ?_
  rw [State.dues, hy, List.filterMap_filter, State.dues]
  refine List.filterMap_congr fun v hv => ?_
  by_cases hid : v.id = w.id
  · have hsame := List.inj_on_of_nodup_map hr.nodup_workers hv hw hid
    simp [hsame, Worker.due?, hp, Phase.due?]
  · simp [hid]

theorem begin (h : t.IsOnTime []) (hrun : t.IsRun s set policy cancelled) (hc : t.calling = none)
    (hw : w ∈ t.state.workers) (hp : w.phase = .spawned) :
    ((t.take (.begin w.id)).called w.id).IsOnTime [] ∧
      ((t.take (.begin w.id)).called w.id).cost < t.cost := by
  have hfound := State.worker?_of_mem hrun.hasRoster.nodup_workers hw
  have hs : step? t.settings t.state (.begin w.id) = some (t.state.call w 1) := by
    simp [step?, hfound, hp]
  have hown : w.due?.toList = [] := by rw [Worker.due?, hp]; rfl
  have hcost := hrun.cost_le_of_step hs
  have hturn := (hown ▸ h).turn (y := t.state.call w 1) hrun.hasRoster hw rfl
  rw [take_eq hs]
  constructor
  · simpa [IsOnTime, promises, called, hc, Worker.due?, Phase.due?] using hturn
  · simp only [cost, called, hc, Option.toList_some, Option.toList_none, List.length_nil,
      List.length_singleton] at hcost ⊢
    omega

end IsOnTime

theorem exists_of_firstWorker {p : Phase → Bool} (h : t.firstWorker p = some id) :
    ∃ w ∈ t.state.workers, w.id = id ∧ p w.phase = true := by
  obtain ⟨w, hfind, rfl⟩ := Option.map_eq_some_iff.mp h
  exact ⟨w, List.mem_of_find?_eq_some hfind, rfl, by simpa using List.find?_some hfind⟩

theorem firstWorker_eq_none {p : Phase → Bool} (h : t.firstWorker p = none) :
    ∀ w ∈ t.state.workers, p w.phase = false := by
  have hnone := List.find?_eq_none.mp (Option.map_eq_none_iff.mp h)
  exact fun w hw => by simpa using hnone w hw

/-- No call has just started unless its worker is there to be answered. -/
theorem IsOnTime.calling_eq_none (h : t.IsOnTime []) (hrun : t.IsRun s set policy cancelled)
    (hnone : t.calling.bind t.state.worker? = none) : t.calling = none := by
  cases hc : t.calling with
  | none => rfl
  | some id =>
      have hin : (id, Due.answer) ∈ [] ++ t.promises := by simp [promises, hc]
      obtain ⟨w, -, -, hfound, -⟩ := h.exists_worker hrun.hasRoster hin
      rw [hc, Option.bind_some, hfound] at hnone
      cases hnone

/-- Every step of a clock on time leaves it on time, with less to do. -/
theorem IsOnTime.next (h : t.IsOnTime []) (hrun : t.IsRun s set policy cancelled) :
    t.next.All fun u => u.IsOnTime [] ∧ u.cost < t.cost := by
  unfold Timeline.next
  split
  · rename_i w hw
    intro c
    obtain ⟨id, hc, hfound⟩ := Option.bind_eq_some_iff.mp hw
    obtain ⟨-, rfl⟩ := State.mem_of_worker? hfound
    let u : Timeline := { t with calling := none }
    have hu : u.IsOnTime [(w.id, .answer)] := by
      simpa [IsOnTime, promises, u, hc] using h
    have hless : u.cost + 3 = t.cost := by
      simp only [cost, u, hc, Option.toList_some, Option.toList_none, List.length_nil,
        List.length_singleton]
      omega
    obtain ⟨honTime, hcost⟩ := hu.setAnswer (hrun.follow (.of_eq rfl rfl)) rfl c
    exact ⟨honTime, Nat.lt_of_le_of_lt hcost (by omega)⟩
  · rename_i hnone
    have hc := h.calling_eq_none hrun hnone
    split
    · trivial
    · split
      · rename_i id hid
        obtain ⟨w, hw, rfl, hp⟩ := exists_of_firstWorker hid
        split at hp
        · rename_i e he
          exact h.settle hrun hw he
        · cases hp
      · split
        · rename_i y hs
          refine h.step hrun hs ?_
          cases moves_of_step? hs with
          | dispatcher hm =>
              rcases hm.workers_cases.2 with ⟨hy, -⟩ | ⟨v, -, hy, -⟩
              · rw [State.dues, hy, State.dues]
              · rw [State.dues, hy, List.filterMap_append]
                exact List.append_nil _
          | worker hm => cases hm
        · split
          · rename_i id hid
            obtain ⟨w, hw, rfl, hp⟩ := exists_of_firstWorker hid
            exact h.begin hrun hc hw (eq_of_beq hp)
          · split
            · rename_i y hs
              refine h.step hrun hs ?_
              cases moves_of_step? hs with
              | aggregator hm => rfl
              | worker hm => cases hm
            · split
              · rename_i id hid
                split at hid
                · rename_i hcancelled
                  exact h.abandon hrun hc hcancelled hid
                · cases hid
              · exact h.passTime hrun hc

/-- A run does not rest while nobody awaits anything and no worker is new or over. -/
theorem IsRun.false_of_idle (hrun : t.IsRun s set policy cancelled)
    (he : t.state.aggregator.hasEnded = false) (hdues : t.state.dues = [])
    (hover : ∀ w ∈ t.state.workers, (match w.phase with | .over _ => true | _ => false) = false)
    (hnew : ∀ w ∈ t.state.workers, (w.phase == .spawned) = false)
    (hdispatcher : step? t.settings t.state .dispatcher = none)
    (haggregator : step? t.settings t.state .aggregator = none) : False := by
  have hworkers : t.state.workers = [] := by
    refine List.eq_nil_iff_forall_not_mem.mpr fun w hw => ?_
    have hdue := List.filterMap_eq_nil_iff.mp hdues w hw
    have hold := hover w hw
    have hknown := hnew w hw
    cases hp : w.phase <;> simp_all [Worker.due?, Phase.due?]
  obtain ⟨l, hl, hsome⟩ := hrun.reachable.exists_step he (fun _ => .success)
  rw [← hrun.settings_eq] at hsome
  cases l with
  | cancel => exact hl
  | dispatcher => simp [hdispatcher] at hsome
  | aggregator => simp [haggregator] at hsome
  | «begin» id | answer id a | wake id | giveUp id | settle id =>
      simp [step?, State.worker?, hworkers] at hsome

/-- Nobody rests for ever: if nothing is left for the clock to do, the aggregator has returned. -/
theorem IsOnTime.hasEnded_of_over (h : t.IsOnTime []) (hrun : t.IsRun s set policy cancelled)
    (hover : t.next = .over) : t.state.aggregator.hasEnded = true := by
  by_contra hgoes
  have he : t.state.aggregator.hasEnded = false := by simpa using hgoes
  unfold Timeline.next at hover
  split at hover
  · cases hover
  · rename_i hnone
    have hc := h.calling_eq_none hrun hnone
    rw [he, if_neg (by decide)] at hover
    split at hover
    · cases hover
    · rename_i hsettle
      split at hover
      · cases hover
      · rename_i hdispatcher
        split at hover
        · cases hover
        · rename_i hbegin
          split at hover
          · cases hover
          · rename_i haggregator
            split at hover
            · cases hover
            · have halarms : t.alarms = [] := by
                rw [Timeline.passTime] at hover
                split at hover
                · rename_i hearliest
                  exact earliest_eq_none hearliest
                · cases hover
              have hdues : t.state.dues = [] := by
                have hpromises : t.promises = [] := by rw [promises, hc, halarms]; rfl
                exact (hpromises ▸ h : ([] : List (Nat × Due)).Perm t.state.dues).symm.eq_nil
              exact hrun.false_of_idle he hdues (firstWorker_eq_none hsettle)
                (firstWorker_eq_none hbegin) hdispatcher haggregator

/-- A clock on time that is driven for as many steps as it may cost brings the run to its end. -/
theorem IsOnTime.hasEnded_of_drive {σ : Type} (world : World (StateM σ)) (h : t.IsOnTime [])
    (hrun : t.IsRun s set policy cancelled) {fuel : Nat} (hfuel : t.cost ≤ fuel) (e : σ) :
    (t.drive world fuel e).1.state.aggregator.hasEnded = true := by
  induction fuel generalizing t e with
  | zero =>
      have hall := h.next hrun
      have hover : t.next = .over := by
        cases hnext : t.next with
        | «over» => rfl
        | move u | wait d u =>
            rw [hnext] at hall
            exact absurd hall.2 (by omega)
        | ask r k =>
            rw [hnext] at hall
            exact absurd (hall ⟨.success, ⟨0⟩, false⟩).2 (by omega)
      exact h.hasEnded_of_over hrun hover
  | succ fuel ih =>
      have hall := h.next hrun
      have hfollows := Follows.next t
      have hless {u : Timeline} (hu : u.cost < t.cost) : u.cost ≤ fuel := by omega
      unfold drive
      rcases hnext : t.next with _ | u | ⟨r, k⟩ | ⟨d, u⟩ <;> rw [hnext] at hall hfollows
      · exact h.hasEnded_of_over hrun hnext
      · exact ih hall.1 (hrun.follow hfollows) (hless hall.2) _
      · exact ih (hall _).1 (hrun.follow (hfollows _)) (hless (hall _).2) _
      · exact ih hall.1 (hrun.follow hfollows) (hless hall.2) _

/-! ## The bound is enough -/

/-- Nothing is to happen but that the run is cancelled, at one time at most. -/
structure AwaitsCancelOnly (alarms : List Alarm) : Prop where
  length_le : alarms.length ≤ 1
  bell_eq : ∀ a ∈ alarms, a.bell = .cancel

theorem AwaitsCancelOnly.sum_le {alarms : List Alarm} (h : AwaitsCancelOnly alarms) :
    (alarms.map fun a => a.bell.cost).sum ≤ 1 := by
  match alarms, h with
  | [], _ => exact Nat.zero_le _
  | [a], h =>
      rw [List.map_singleton, List.sum_singleton, h.bell_eq a List.mem_cons_self]
      exact Nat.le_refl _
  | _ :: _ :: _, h => exact absurd h.length_le (by simp)

theorem isOnTime_start (s : Settings) (set : TaskSet) (policy : SkipPolicy) (cancelled : Bool)
    (now : Span) {alarms : List Alarm} (h : ∀ a ∈ alarms, a.bell = .cancel) :
    (start s set policy cancelled now alarms).IsOnTime [] := by
  have hnone : alarms.filterMap (fun a => a.bell.due?) = [] := by
    refine List.filterMap_eq_nil_iff.mpr fun a ha => ?_
    rw [h a ha]
    rfl
  simp [IsOnTime, promises, start, hnone, State.dues, State.start]

theorem cost_start_le (s : Settings) (set : TaskSet) (policy : SkipPolicy) (cancelled : Bool)
    (now : Span) {alarms : List Alarm} (h : AwaitsCancelOnly alarms) :
    (start s set policy cancelled now alarms).cost ≤
      (start s set policy cancelled now alarms).enough := by
  have hle := State.effort_start_le s set policy cancelled
  have hone : set.tasks.length ≤ s.maxAttempts * set.tasks.length :=
    Nat.le_mul_of_pos_left _ (Nat.le_max_right _ _)
  have heffort : (2 * s.maxAttempts + 30) * set.tasks.length =
      2 * (s.maxAttempts * set.tasks.length) + 30 * set.tasks.length := by ring
  have henough : (start s set policy cancelled now alarms).enough =
      100 * (s.maxAttempts * set.tasks.length) + 100 * set.tasks.length +
        100 * s.maxAttempts + 100 := by
    have hpending : (start s set policy cancelled now alarms).state.pending = set.tasks := rfl
    have hsettings : (start s set policy cancelled now alarms).settings = s := rfl
    rw [enough, hpending, hsettings]
    ring
  have halarms := h.sum_le
  simp only [cost, start, Option.toList_none, List.length_nil] at hle henough ⊢
  omega

end Timeline

/-- Whatever the tool does and however long its calls take, the clock brings a run to its end. -/
theorem Timeline.hasEnded_of_drive_start {σ : Type} (world : World (StateM σ)) (s : Settings)
    (set : TaskSet) (policy : SkipPolicy) (cancelled : Bool) (now : Span) {alarms : List Alarm}
    (h : AwaitsCancelOnly alarms) (e : σ) :
    ((start s set policy cancelled now alarms).drive world
      (start s set policy cancelled now alarms).enough e).1.state.aggregator.hasEnded = true :=
  (isOnTime_start s set policy cancelled now h.bell_eq).hasEnded_of_drive world
    (isRun_start s set policy cancelled now alarms) (cost_start_le s set policy cancelled now h) e

end ImageBatch.Engine
