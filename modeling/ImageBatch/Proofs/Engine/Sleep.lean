import ImageBatch.Proofs.Engine.Clock
import Mathlib.Logic.Relation

/-!
# Sleeping workers

A worker whose call has failed sets a timer and sleeps until its alarm goes off. Whatever the others
do meanwhile, the alarm stays set for the same time and the clock does not pass it, so the next call
starts just then, unless the run is cancelled. A timer lasts as long as it is set for, but never
longer than thirty years.
-/

namespace ImageBatch.Engine

variable {s : Settings} {set : TaskSet} {policy : SkipPolicy} {cancelled : Bool} {x y : State}
  {t u v : Timeline} {w : Worker} {id k time : Nat} {l : Label} {b : Bell}

/-! ## From one timeline to a later one -/

/-- The next step may lead to this timeline, if a call goes in some way. -/
def Next.Leads : Next → Timeline → Prop
  | .over, _ => False
  | .move t, u => u = t
  | .ask _ k, u => ∃ c, u = k c
  | .wait _ t, u => u = t

theorem Next.All.of_leads {P : Timeline → Prop} {n : Next} (h : n.All P) (hu : n.Leads u) :
    P u := by
  cases n with
  | «over» => exact hu.elim
  | move t | wait d t =>
      cases hu
      exact h
  | ask r k =>
      obtain ⟨c, rfl⟩ := hu
      exact h c

namespace Timeline

/-- A timeline comes later than another one, however the calls go in between. -/
def Later (t u : Timeline) : Prop :=
  Relation.ReflTransGen (fun t u => t.next.Leads u) t u

theorem Later.isOnTime (h : t.Later u) (ht : t.IsOnTime [])
    (hrun : t.IsRun s set policy cancelled) :
    u.IsOnTime [] ∧ u.IsRun s set policy cancelled := by
  induction h with
  | refl => exact ⟨ht, hrun⟩
  | tail _ hstep ih =>
      exact ⟨((ih.1.next ih.2).of_leads hstep).1, ih.2.follow ((Follows.next _).of_leads hstep)⟩

end Timeline

/-! ## The others leave a worker alone -/

/-- A worker that is not over stays as it is in steps of the others. -/
theorem Moves.mem_workers (h : Moves s x l y) (hr : x.HasRoster) (hl : l.isStepOf w.id = false)
    (hw : w ∈ x.workers) (hp : ∀ e, w.phase ≠ .over e) : w ∈ y.workers := by
  cases h with
  | cancel hc | aggregator hm => exact hw
  | dispatcher hm =>
      rcases hm.workers_cases.2 with ⟨hy, -⟩ | ⟨t, -, hy, -⟩
      · exact hy ▸ hw
      · exact hy ▸ List.mem_append_left _ hw
  | worker hm =>
      cases hm with
      | begin hv | finish hv | pause hv | abort hv | wake hv | giveUp hv =>
          exact (Worker.mem_map_inPhase_iff (Ne.symm (beq_eq_false_iff_ne.mp hl)) _).mpr hw
      | @settle v e hv hover =>
          refine List.mem_filter.mpr ⟨hw, ?_⟩
          by_contra hid
          have hsame : w.id = v.id := by simpa using hid
          cases List.inj_on_of_nodup_map hr.nodup_workers hw hv hsame
          exact hp e hover

theorem Bell.eq_wake_of_due? (h : b.due? = some (id, .wake)) : b = .wake id := by
  cases b with
  | cancel | answer other a cancels => simp [Bell.due?] at h
  | wake other =>
      cases h
      rfl

namespace Timeline

/-- Between two timelines no time goes on, and a worker that is not over stays as it is, with the
alarms that are to wake it. -/
structure Spares (id : Nat) (u v : Timeline) : Prop where
  workers : ∀ w ∈ u.state.workers, w.id = id → (∀ e, w.phase ≠ .over e) → w ∈ v.state.workers
  alarms : ∀ time, ⟨time, .wake id⟩ ∈ v.alarms ↔ ⟨time, .wake id⟩ ∈ u.alarms
  now : v.now = u.now

namespace Spares

theorem trans (h : Spares id t u) (h' : Spares id u v) : Spares id t v := by
  refine ⟨fun w hw hid hp => ?_, fun time => ?_, h'.now.trans h.now⟩
  · exact h'.workers w (h.workers w hw hid hp) hid hp
  · exact (h'.alarms time).trans (h.alarms time)

theorem step (hrun : u.IsRun s set policy cancelled) (hl : l.isStepOf id = false)
    (hs : step? u.settings u.state l = some y) : Spares id u { u with state := y } := by
  refine ⟨fun w hw hid hp => ?_, fun _ => Iff.rfl, rfl⟩
  exact (moves_of_step? hs).mem_workers hrun.hasRoster (hid ▸ hl) hw hp

theorem take (hrun : u.IsRun s set policy cancelled) (hl : l.isStepOf id = false) :
    Spares id u (u.take l) := by
  cases hs : step? u.settings u.state l with
  | none =>
      rw [Timeline.take, hs]
      exact ⟨fun w hw _ _ => hw, fun _ => Iff.rfl, rfl⟩
  | some y =>
      rw [take_eq hs]
      exact step hrun hl hs

theorem promise (hb : b ≠ .wake id) (u : Timeline) (when : Span) :
    Spares id u { u with alarms := u.alarms ++ [⟨when, b⟩] } := by
  refine ⟨fun w hw _ _ => hw, fun time => ?_, rfl⟩
  have hne : (⟨time, .wake id⟩ : Alarm) ≠ ⟨when, b⟩ := fun he => hb (congrArg Alarm.bell he).symm
  simp [hne]

variable {other : Nat}

theorem called (u : Timeline) (other : Nat) : Spares id u (u.called other) :=
  ⟨fun _ hw _ _ => hw, fun _ => Iff.rfl, rfl⟩

theorem rouse (hrun : u.IsRun s set policy cancelled) (hne : other ≠ id) :
    Spares id u (u.rouse other) := by
  have htake : Spares id u (u.take (.wake other)) := take hrun (beq_eq_false_iff_ne.mpr hne)
  exact htake.trans (called _ _)

theorem setWake (hrun : u.IsRun s set policy cancelled) (hne : other ≠ id) :
    Spares id u (u.setWake other) := by
  unfold Timeline.setWake
  split
  · split
    · exact rouse hrun hne
    · exact promise (by simpa using hne) u _
  · exact ⟨fun w hw _ _ => hw, fun _ => Iff.rfl, rfl⟩

theorem ring (hrun : u.IsRun s set policy cancelled) (hb : ∀ d, b.due? ≠ some (id, d)) :
    Spares id u (u.ring b) := by
  cases b with
  | cancel => exact take hrun rfl
  | wake other => exact rouse hrun fun he => hb .wake (he ▸ rfl)
  | answer other a cancels =>
      have hne : other ≠ id := fun he => hb .answer (he ▸ rfl)
      have hl : (Label.answer other a).isStepOf id = false := beq_eq_false_iff_ne.mpr hne
      rw [Timeline.ring]
      cases cancels with
      | false => exact (take hrun hl).trans (setWake (hrun.follow (.take _ _)) hne)
      | true =>
          have hcancel := hrun.follow (.take u .cancel)
          exact (take hrun rfl).trans
            ((take hcancel hl).trans (setWake (hcancel.follow (.take _ _)) hne))

theorem setAnswer (hrun : u.IsRun s set policy cancelled) (hne : other ≠ id) (c : Call) :
    Spares id u (u.setAnswer other c) := by
  unfold Timeline.setAnswer
  split
  · refine ring hrun fun d hd => hne ?_
    exact congrArg Prod.fst (Option.some.inj hd)
  · exact promise (by simp) u _

theorem abandon (hrun : u.IsRun s set policy cancelled) (hne : other ≠ id) :
    Spares id u (u.abandon other) := by
  have htake : Spares id u (u.take (.giveUp other)) := take hrun (beq_eq_false_iff_ne.mpr hne)
  refine ⟨htake.workers, fun time => ?_, htake.now⟩
  have hkept : (Bell.wake id != .wake other) = true := by simpa using Ne.symm hne
  rw [Timeline.abandon, List.mem_filter, hkept, htake.alarms time]
  exact and_iff_left rfl

end Spares

/-! ## What the clock does next -/

/-- A worker that awaits something is left alone, or its call is asked for, or time goes on, or it
gives up its wait. -/
theorem IsRun.next_cases (hrun : u.IsRun s set policy cancelled) (hw : w ∈ u.state.workers)
    (hdue : w.phase.due?.isSome = true) :
    u.next.All (Spares w.id u) ∨
      (u.calling = some w.id ∧ u.next = .ask (u.settings.request w.task) fun c =>
        ({ u with calling := none } : Timeline).setAnswer w.id c) ∨
      u.next = u.passTime ∨
      (u.state.cancelled = true ∧ u.firstWaiting = some w.id) := by
  have hr := hrun.hasRoster
  have hsame : ∀ v ∈ u.state.workers, v.id = w.id → v = w := fun v hv =>
    List.inj_on_of_nodup_map hr.nodup_workers hv hw
  unfold Timeline.next
  split
  · rename_i v hv
    obtain ⟨id, hc, hfound⟩ := Option.bind_eq_some_iff.mp hv
    obtain ⟨hin, rfl⟩ := State.mem_of_worker? hfound
    by_cases hid : v.id = w.id
    · cases hsame v hin hid
      exact .inr (.inl ⟨hc, rfl⟩)
    · let v' : Timeline := { u with calling := none }
      have hstill : Spares w.id u v' := ⟨fun v hv _ _ => hv, fun _ => Iff.rfl, rfl⟩
      have hv' : v'.IsRun s set policy cancelled := hrun.follow (.of_eq rfl rfl)
      exact .inl fun c => hstill.trans (.setAnswer hv' hid c)
  · split
    · exact .inl trivial
    · split
      · exact .inl (.take hrun rfl)
      · split
        · rename_i y hs
          exact .inl (.step hrun rfl hs)
        · split
          · rename_i id hid
            obtain ⟨v, hv, rfl, hnew⟩ := exists_of_firstWorker hid
            have hother : v.id ≠ w.id := by
              intro he
              cases hsame v hv he
              rw [eq_of_beq hnew] at hdue
              cases hdue
            have htake : Spares w.id u (u.take (.begin v.id)) :=
              .take hrun (beq_eq_false_iff_ne.mpr hother)
            exact .inl (htake.trans (.called _ _))
          · split
            · rename_i y hs
              exact .inl (.step hrun rfl hs)
            · split
              · rename_i id hid
                by_cases he : id = w.id
                · cases he
                  split at hid
                  · rename_i hcancelled
                    exact .inr (.inr (.inr ⟨hcancelled, hid⟩))
                  · cases hid
                · exact .inl (.abandon hrun he)
              · exact .inr (.inr (.inl rfl))

/-! ## Sleeping until a time -/

/-- A worker sleeps behind call number `k` until a time that the clock has not passed. -/
structure SleepsUntil (u : Timeline) (id k time : Nat) : Prop where
  pausing : ∃ w ∈ u.state.workers, w.id = id ∧ ∃ d f, w.phase = .pausing k d f
  alarm : ∀ when, ⟨when, .wake id⟩ ∈ u.alarms ↔ when.nanos = time
  ahead : u.now.nanos ≤ time

/-- Call number `k` of a worker starts just at a time. -/
structure CallsAt (u : Timeline) (id k time : Nat) : Prop where
  started : u.calling = some id
  calling : ∃ w ∈ u.state.workers, w.id = id ∧ w.phase = .calling k
  now : u.now.nanos = time

theorem callsAt_rouse (hr : u.state.HasRoster) (hw : w ∈ u.state.workers) {d : Span} {f : Failure}
    (hp : w.phase = .pausing k d f) : (u.rouse w.id).CallsAt w.id (k + 1) u.now.nanos := by
  have hfound := State.worker?_of_mem hr.nodup_workers hw
  have hs : step? u.settings u.state (.wake w.id) = some (u.state.call w (k + 1)) := by
    simp [step?, hfound, hp]
  refine ⟨rfl, ⟨{ w with phase := .calling (k + 1) }, ?_, rfl, rfl⟩, ?_⟩
  · rw [Timeline.rouse, take_eq hs]
    exact List.mem_map.mpr ⟨w, hw, Worker.inPhase_self w _⟩
  · rw [Timeline.rouse, take_eq hs]
    rfl

namespace SleepsUntil

theorem of_spares (h : u.SleepsUntil id k time) (hv : Spares id u v) : v.SleepsUntil id k time := by
  obtain ⟨w, hw, hid, d, f, hp⟩ := h.pausing
  exact ⟨⟨w, hv.workers w hw hid (by simp [hp]), hid, d, f, hp⟩,
    fun when => (hv.alarms when).trans (h.alarm when), hv.now ▸ h.ahead⟩

theorem due_eq (h : u.SleepsUntil id k time) (hon : u.IsOnTime []) (hr : u.state.HasRoster)
    {d : Due} (hd : (id, d) ∈ u.promises) : d = .wake := by
  obtain ⟨w, hw, rfl, d', f, hp⟩ := h.pausing
  have hdue := hon.due?_eq hr hw hd
  rw [hp] at hdue
  exact (Option.some.inj hdue).symm

theorem passTime (h : u.SleepsUntil id k time) (hon : u.IsOnTime [])
    (hrun : u.IsRun s set policy cancelled) :
    u.passTime.All fun v => v.SleepsUntil id k time ∨ v.CallsAt id (k + 1) time := by
  rw [Timeline.passTime]
  split
  · trivial
  · rename_i a rest ha
    let v : Timeline := { u with now := ⟨max u.now.nanos a.time.nanos⟩, alarms := rest }
    have halarms : ∀ c, c ∈ u.alarms ↔ c = a ∨ c ∈ rest := fun c =>
      (earliest_perm ha).mem_iff.trans List.mem_cons
    have hin : a ∈ u.alarms := (halarms a).mpr (.inl rfl)
    have hle : a.time.nanos ≤ time := earliest_le ha _ ((h.alarm ⟨time⟩).mpr rfl)
    have hv : v.IsRun s set policy cancelled := hrun.follow (.of_eq rfl rfl)
    have hahead := h.ahead
    by_cases hb : a.bell = .wake id
    · have htime : a.time.nanos = time := (h.alarm a.time).mp (hb ▸ hin)
      obtain ⟨w, hw, rfl, d, f, hp⟩ := h.pausing
      have hnow : v.now.nanos = time := Nat.max_eq_right (htime ▸ hahead) |>.trans htime
      have hcalls := callsAt_rouse (u := v) hv.hasRoster hw hp
      rw [hnow] at hcalls
      exact .inr (hb ▸ hcalls)
    · have hsleeps : v.SleepsUntil id k time := by
        refine ⟨h.pausing, fun when => ?_, Nat.max_le.mpr ⟨hahead, hle⟩⟩
        have hne : (⟨when, .wake id⟩ : Alarm) ≠ a := fun he => hb (he ▸ rfl)
        rw [← h.alarm when, halarms]
        simp [v, hne]
      refine .inl (hsleeps.of_spares (Spares.ring hv fun d hd => hb ?_))
      have hwake := h.due_eq hon hrun.hasRoster (IsOnTime.mem_promises_of_alarm hin hd)
      exact Bell.eq_wake_of_due? (hwake ▸ hd)

/-- A sleeping worker goes on sleeping, or it is just time to call. -/
theorem next (h : u.SleepsUntil id k time) (hon : u.IsOnTime [])
    (hrun : u.IsRun s set policy cancelled) (hgoes : u.state.cancelled = false)
    (hv : u.next.Leads v) : v.SleepsUntil id k time ∨ v.CallsAt id (k + 1) time := by
  obtain ⟨w, hw, rfl, d, f, hp⟩ := h.pausing
  rcases hrun.next_cases hw (by rw [hp]; rfl) with hall | hask | hpass | habandon
  · exact .inl (h.of_spares (hall.of_leads hv))
  · have hin : (w.id, Due.answer) ∈ u.promises := List.mem_append_left _ (by simp [hask.1])
    cases h.due_eq hon hrun.hasRoster hin
  · rw [hpass] at hv
    exact (h.passTime hon hrun).of_leads hv
  · rw [hgoes] at habandon
    cases habandon.1

end SleepsUntil

/-- Up to a later timeline a worker sleeps, or meanwhile it has called just in time, or the run has
been cancelled. -/
def KeepsAlarm (u v : Timeline) (id k time : Nat) : Prop :=
  v.SleepsUntil id k time ∨
    ∃ m, u.Later m ∧ m.Later v ∧ (m.CallsAt id (k + 1) time ∨ m.state.cancelled = true)

theorem SleepsUntil.keepsAlarm (h : u.SleepsUntil id k time) (hon : u.IsOnTime [])
    (hrun : u.IsRun s set policy cancelled) (hv : u.Later v) : u.KeepsAlarm v id k time := by
  induction hv with
  | refl => exact .inl h
  | @tail m v hm hstep ih =>
      rcases ih with hsleeps | ⟨m', hm', hlater, hcalls⟩
      · obtain ⟨hon', hrun'⟩ := Later.isOnTime hm hon hrun
        by_cases hgoes : m.state.cancelled = true
        · exact .inr ⟨m, hm, .single hstep, .inr hgoes⟩
        · rcases hsleeps.next hon' hrun' (Bool.eq_false_iff.mpr hgoes) hstep with hnext | hcalls
          · exact .inl hnext
          · exact .inr ⟨v, hm.tail hstep, .refl, .inl hcalls⟩
      · exact .inr ⟨m', hm', hlater.tail hstep, hcalls⟩

/-! ## Falling asleep -/

/-- Behind the answer to call number `k` a worker is over, or it sleeps for the delay from now on,
which may be no time at all. -/
def Rests (v : Timeline) (s : Settings) (w : Worker) (k : Nat) : Prop :=
  (∃ e, { w with phase := .over e } ∈ v.state.workers) ∨
    v.SleepsUntil w.id k (v.now.nanos + (s.delay k).slept.nanos) ∨
    v.CallsAt w.id (k + 1) (v.now.nanos + (s.delay k).slept.nanos)

theorem Reaction.phase_cases (s : Settings) (c : Bool) (t : Task) (k : Nat) (a : Answer) :
    (∃ e, (react s c t k a).phase k = .over e) ∨
      ∃ f, (react s c t k a).phase k = .pausing k (s.delay k) f := by
  cases a with
  | success | panic words => exact .inl ⟨_, rfl⟩
  | failure f =>
      rw [react]
      split
      · exact .inl ⟨_, rfl⟩
      · rw [Span.times?]
        split <;> rename_i hd
        · exact .inl ⟨_, rfl⟩
        · obtain ⟨-, he⟩ := Option.ite_none_right_eq_some.mp hd
          cases he
          exact .inr ⟨f, rfl⟩

/-- A worker that is about to sleep sets its timer, or calls at once. -/
theorem rests_setWake (hon : u.IsOnTime w.due?.toList) (hrun : u.IsRun s set policy cancelled)
    (hw : w ∈ u.state.workers) {f : Failure} (hp : w.phase = .pausing k (s.delay k) f) :
    (u.setWake w.id).Rests s w k := by
  have hr := hrun.hasRoster
  have hfound := State.worker?_of_mem hr.nodup_workers hw
  rw [Timeline.setWake, hfound, Option.map_some, hp]
  dsimp only
  split
  · rename_i hzero
    have hslept : (s.delay k).slept.nanos = 0 := by simp [Span.slept, hzero]
    refine .inr (.inr ?_)
    rw [hslept, Nat.add_zero]
    have hcalls := callsAt_rouse hr hw hp
    exact hcalls.now.symm ▸ hcalls
  · have hdue : w.due?.toList = [(w.id, Due.wake)] := by rw [Worker.due?, hp]; rfl
    have hnodup := (List.Perm.nodup_iff (hdue ▸ hon)).mpr hr.nodup_dues
    have hnew : ∀ time, ⟨time, .wake w.id⟩ ∉ u.alarms := fun time hin =>
      (List.nodup_cons.mp hnodup).1 (IsOnTime.mem_promises_of_alarm hin rfl)
    refine .inr (.inl ⟨⟨w, hw, rfl, _, f, hp⟩, fun time => ?_, Nat.le_add_right _ _⟩)
    cases time
    simp [hnew]

theorem rests_ring (hon : u.IsOnTime [(w.id, .answer)]) (hrun : u.IsRun s set policy cancelled)
    (hw : w ∈ u.state.workers) (hp : w.phase = .calling k) (a : Answer) (cancels : Bool) :
    (u.ring (.answer w.id a cancels)).Rests s w k := by
  rw [Timeline.ring]
  obtain ⟨v, hv, hon', hrun', hw'⟩ : ∃ v, (if cancels then u.take .cancel else u) = v ∧
      v.IsOnTime [(w.id, .answer)] ∧ v.IsRun s set policy cancelled ∧ w ∈ v.state.workers := by
    cases cancels with
    | false => exact ⟨u, rfl, hon, hrun, hw⟩
    | true =>
        refine ⟨_, rfl, (hon.take_cancel hrun).1, hrun.follow (.take _ _), ?_⟩
        exact (Spares.take hrun rfl).workers w hw rfl (by simp [hp])
  rw [hv]
  have hr := hrun'.hasRoster
  have hfound := State.worker?_of_mem hr.nodup_workers hw'
  have hs : step? v.settings v.state (.answer w.id a) = some (v.state.answer s w k a) := by
    simp [step?, hfound, hp, hrun'.settings_eq]
  have hy := State.workers_answer s v.state w k a
  let w' : Worker := { w with phase := (react s v.state.cancelled w.task k a).phase k }
  have hin : w' ∈ (v.state.answer s w k a).workers :=
    hy ▸ List.mem_map.mpr ⟨w, hw', Worker.inPhase_self w _⟩
  have hnext := hrun'.follow (.step hs)
  have hown : w.due?.toList = [(w.id, Due.answer)] := by rw [Worker.due?, hp]; rfl
  rw [take_eq hs]
  rcases Reaction.phase_cases s v.state.cancelled w.task k a with ⟨e, he⟩ | ⟨f, hf⟩
  · have hstays : ({ v with state := v.state.answer s w k a } : Timeline).setWake w.id =
        { v with state := v.state.answer s w k a } := by
      have hover := State.worker?_of_mem hnext.hasRoster.nodup_workers hin
      rw [Timeline.setWake, hover, Option.map_some]
      simp only [w', he]
    rw [hstays]
    exact .inl ⟨e, he ▸ hin⟩
  · exact rests_setWake (w := w') ((hown ▸ hon').turn hr hw' hy) hnext hin hf

theorem rests_setAnswer (hon : u.IsOnTime [(w.id, .answer)])
    (hrun : u.IsRun s set policy cancelled) (hw : w ∈ u.state.workers) (hp : w.phase = .calling k)
    (c : Call) : w ∈ (u.setAnswer w.id c).state.workers ∨ (u.setAnswer w.id c).Rests s w k := by
  unfold Timeline.setAnswer
  split
  · exact .inr (rests_ring hon hrun hw hp _ _)
  · exact .inl hw

theorem rests_passTime (hon : u.IsOnTime []) (hrun : u.IsRun s set policy cancelled)
    (hw : w ∈ u.state.workers) (hp : w.phase = .calling k) :
    u.passTime.All fun v => w ∈ v.state.workers ∨ v.Rests s w k := by
  rw [Timeline.passTime]
  split
  · trivial
  · rename_i a rest ha
    let v : Timeline := { u with now := ⟨max u.now.nanos a.time.nanos⟩, alarms := rest }
    have hv : v.IsRun s set policy cancelled := hrun.follow (.of_eq rfl rfl)
    have hin : a ∈ u.alarms := (earliest_perm ha).mem_iff.mpr List.mem_cons_self
    have hfalls : v.IsOnTime a.bell.due?.toList := hon.of_earliest ha _
    by_cases hown : ∃ d, a.bell.due? = some (w.id, d)
    · obtain ⟨d, hd⟩ := hown
      have hdue := hon.due?_eq hrun.hasRoster hw (IsOnTime.mem_promises_of_alarm hin hd)
      rw [hp] at hdue
      cases hdue
      cases hbell : a.bell with
      | cancel | wake id =>
          rw [hbell] at hd
          cases hd
      | answer id a cancels =>
          rw [hbell] at hd hfalls
          cases hd
          exact .inr (rests_ring hfalls hv hw hp a cancels)
    · have hspared : Spares w.id v (v.ring a.bell) := .ring hv fun d hd => hown ⟨d, hd⟩
      exact .inl (hspared.workers w hw rfl (by simp [hp]))

theorem IsOnTime.rests_of_calling (hon : u.IsOnTime []) (hrun : u.IsRun s set policy cancelled)
    (hw : w ∈ u.state.workers) (hp : w.phase = .calling k) (hv : u.next.Leads v) :
    w ∈ v.state.workers ∨ v.Rests s w k := by
  have hdue : w.phase.due? = some .answer := by rw [hp]; rfl
  rcases hrun.next_cases hw (by rw [hdue]; rfl) with hall | ⟨hc, hask⟩ | hpass | habandon
  · exact .inl ((hall.of_leads hv).workers w hw rfl (by simp [hp]))
  · rw [hask] at hv
    obtain ⟨c, rfl⟩ := hv
    let u' : Timeline := { u with calling := none }
    have hon' : u'.IsOnTime [(w.id, .answer)] := by simpa [IsOnTime, promises, u', hc] using hon
    exact rests_setAnswer hon' (hrun.follow (.of_eq rfl rfl)) hw hp c
  · rw [hpass] at hv
    exact (rests_passTime hon hrun hw hp).of_leads hv
  · have hwake := IsOnTime.mem_promises_of_firstWaiting habandon.2
    cases hdue.symm.trans (hon.due?_eq hrun.hasRoster hw hwake)

/-! ## The course of a worker in time -/

/-- A timeline of a run that the clock has driven so far. It may be cancelled from outside at any
times. -/
def IsClocked (s : Settings) (set : TaskSet) (policy : SkipPolicy) (cancelled : Bool)
    (u : Timeline) : Prop :=
  ∃ now alarms, (∀ a ∈ alarms, a.bell = .cancel) ∧
    (start s set policy cancelled now alarms).Later u

theorem IsClocked.isOnTime (h : u.IsClocked s set policy cancelled) :
    u.IsOnTime [] ∧ u.IsRun s set policy cancelled := by
  obtain ⟨now, alarms, halarms, hu⟩ := h
  exact hu.isOnTime (isOnTime_start s set policy cancelled now halarms)
    (isRun_start s set policy cancelled now alarms)

theorem later_drive {σ : Type} (world : World (StateM σ)) (t : Timeline) (fuel : Nat) (e : σ) :
    t.Later (t.drive world fuel e).1 := by
  induction fuel generalizing t e with
  | zero => exact .refl
  | succ fuel ih =>
      unfold drive
      rcases hnext : t.next with _ | u | ⟨r, k⟩ | ⟨d, u⟩
      · exact .refl
      · exact .head (hnext ▸ rfl) (ih u _)
      · exact .head (hnext ▸ ⟨_, rfl⟩) (ih _ _)
      · exact .head (hnext ▸ rfl) (ih u _)

/-- The clock treats a worker with a task as it should. Whenever a call starts, the tool is asked
for just what the task and the settings say. A worker whose call is answered is over, or it sleeps
for the delay, as long as a timer lasts, and then makes its next call, unless the run is cancelled
meanwhile. -/
structure KeepsTime (u : Timeline) (s : Settings) (t : Task) (id : Nat) : Prop where
  asks : u.calling = some id →
    ∃ goesOn, u.next = .ask ⟨t.source, t.destination, s.mode, s.options⟩ goesOn
  sleeps : ∀ k v, ⟨id, t, .calling k⟩ ∈ u.state.workers → u.next.Leads v →
    ⟨id, t, .calling k⟩ ∈ v.state.workers ∨ (∃ e, ⟨id, t, .over e⟩ ∈ v.state.workers) ∨
      ∀ z, v.Later z → v.KeepsAlarm z id k (v.now.nanos + (s.delay k).slept.nanos)

theorem IsClocked.keepsTime {t : Task} (h : u.IsClocked s set policy cancelled)
    (ht : ∀ w ∈ u.state.workers, w.id = id → w.task = t) : u.KeepsTime s t id := by
  obtain ⟨hon, hrun⟩ := h.isOnTime
  constructor
  · intro hc
    have hin : (id, Due.answer) ∈ [] ++ u.promises := by simp [promises, hc]
    obtain ⟨w, hw, hid, hfound, -⟩ := hon.exists_worker hrun.hasRoster hin
    refine ⟨fun c => ({ u with calling := none } : Timeline).setAnswer w.id c, ?_⟩
    rw [Timeline.next, hc, Option.bind_some, hfound, ← ht w hw hid, ← hrun.settings_eq]
    rfl
  · intro k v hw hv
    obtain ⟨hon', hrun'⟩ := Later.isOnTime (.single hv) hon hrun
    rcases hon.rests_of_calling hrun hw rfl hv with hstill | hover | hsleeps | hcalls
    · exact .inl hstill
    · exact .inr (.inl hover)
    · exact .inr (.inr fun z hz => hsleeps.keepsAlarm hon' hrun' hz)
    · exact .inr (.inr fun z hz => .inr ⟨v, .refl, hz, .inl hcalls⟩)

end Timeline

/-- A worker that was hired works on one of the tasks and is in its course, whatever the timing and
whenever the run is cancelled, and its own steps bring it to the end of the course. If the clock
drives the run, the worker sleeps between its calls as long as its timers last. -/
theorem Watched.keeps_course {q : Script} {ds : List Deed}
    (h : Watched s set policy cancelled id q x ds) (hfits : (s.delay s.maxAttempts).Fits)
    (hid : id < x.nextId) :
    ∃ t ∈ set.tasks, ∃ p, Course s t q x.cancelled p ds ∧
      (∀ w ∈ x.workers, w.id = id → w.task = t ∧ w.phase = p) ∧
      (∀ u : Timeline, u.IsClocked s set policy cancelled → u.state = x → u.KeepsTime s t id) ∧
      ∃ ls y es e, (∀ l ∈ ls, l.isStepOf id = true) ∧ watch? s id q x ds ls = some (y, es) ∧
        Course s t q x.cancelled (.over e) es := by
  obtain ⟨t, ht, p, hp⟩ := h.shows hfits hid
  refine ⟨t, ht, p, hp.course, hp.phase, ?_, h.exists_end hfits hp⟩
  rintro u hu rfl
  exact hu.keepsTime fun w hw hwid => (hp.phase w hw hwid).1

theorem keeps_course_of_lostTwice :
    ∃ x ds, Watched persistent repeatedOrigin ⟨.mirrorToMirror, false⟩ false 0 lostTwice x ds ∧
      0 < x.nextId ∧ (persistent.delay persistent.maxAttempts).Fits ∧
      ds = persistent.deeds (plainImage "a") 3 ++ [.leave (.done (.success (plainImage "a") 3))] ∧
      ∃ t ∈ repeatedOrigin.tasks, ∃ p, Course persistent t lostTwice x.cancelled p ds := by
  have hrun : ((watch? persistent 0 lostTwice
      (State.start persistent repeatedOrigin ⟨.mirrorToMirror, false⟩ false) []
      (timing [(2, .aggregator), (5, .dispatcher), (6, .aggregator), (1, .dispatcher),
        (1, .begin 0), (1, .answer 0 (.failure ⟨.network, "connection reset"⟩)), (1, .wake 0),
        (1, .answer 0 (.failure ⟨.network, "connection reset"⟩)), (1, .wake 0),
        (1, .answer 0 .success)])).map fun r => (r.1.nextId, r.2)) =
      some (1, persistent.deeds (plainImage "a") 3 ++
        [.leave (.done (.success (plainImage "a") 3))]) := by
    decide +kernel
  obtain ⟨⟨x, ds⟩, hx, he⟩ := Option.map_eq_some_iff.mp hrun
  obtain ⟨hid, hds⟩ := Prod.mk.inj he
  have hwatched := Watched.start.of_watch? hx
  have hhired : 0 < x.nextId := hid ▸ Nat.zero_lt_one
  obtain ⟨t, ht, p, hp, -⟩ := hwatched.keeps_course (by decide) hhired
  exact ⟨x, ds, hwatched, hhired, by decide, hds, t, ht, p, hp⟩

/-- Two attempts, with more than thirty years between them. -/
def longPause : Settings := { frugal with attempts := 2, backoff := .ofMillis 9223372036854775808 }

/-- The first call loses the connection, and all others are made well. -/
def losingFirst : World (StateM Nat) where
  call _ := fun n =>
    (⟨if n = 0 then .failure ⟨.network, "connection reset"⟩ else .success, ⟨0⟩, false⟩, n + 1)
  wait _ := pure ()
  tell _ := pure ()

/-- The second call starts before the delay behind the first one is over. -/
theorem wakes_early_of_longPause :
    (longPause.delay longPause.maxAttempts).Fits ∧ ∃ u : Timeline,
      u.IsClocked longPause (.ofTasks [plainImage "a"]) ⟨.mirrorToMirror, false⟩ false ∧
      u.state.aggregator.hasEnded = true ∧ u.state.cancelled = false ∧
      u.starts.map Prod.fst = [.ofMillis 946080000000, ⟨0⟩] ∧
      (Span.ofMillis 946080000000).nanos < (longPause.delay 1).nanos := by
  let start := Timeline.start longPause (.ofTasks [plainImage "a"]) ⟨.mirrorToMirror, false⟩ false
    ⟨0⟩ []
  let u := (start.drive losingFirst 60 0).1
  have hrun : (u.state.aggregator.hasEnded, u.state.cancelled, u.starts.map Prod.fst) =
      (true, false, [.ofMillis 946080000000, ⟨0⟩]) := by
    decide +kernel
  simp only [Prod.mk.injEq] at hrun
  exact ⟨by decide, u, ⟨⟨0⟩, [], nofun, Timeline.later_drive losingFirst start 60 0⟩, hrun.1,
    hrun.2.1, hrun.2.2, by decide⟩

end ImageBatch.Engine
