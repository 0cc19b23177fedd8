import ImageBatch.Proofs.Engine.Clock
import ImageBatch.Proofs.Session.Attempts

/-!
# Runs that complete

A run reports on all its tasks, whatever the tool does and whenever the run is cancelled, as long as
its slots can be counted. A configuration may ask for more of them: then the dispatcher breaks off
before it takes up a task, and the run ends without a single result.
-/

namespace ImageBatch

namespace Engine

variable {s : Settings} {set : TaskSet} {policy : SkipPolicy} {cancelled : Bool} {x y : State}
  {l : Label}

/-! ## The ends of runs -/

theorem Reachable.received_of_too_many (h : Reachable s set policy cancelled x)
    (hs : slotBound < s.slots) : x.aggregator.tally.received = 0 := by
  obtain ⟨taken, hsent, htally⟩ := h.hasStream.taken
  rw [(h.neverStarts hs).sent] at hsent
  obtain ⟨rfl, -⟩ := List.append_eq_nil_iff.mp hsent.symm
  rw [htally, Tally.received_addAll, Tally.received_start]
  rfl

theorem Reachable.phase_of_ended (h : Reachable s set policy cancelled x) (hne : set.tasks ≠ [])
    (he : x.aggregator.hasEnded = true) : x.aggregator.phase =
      if s.slots ≤ slotBound then .finished else .incomplete := by
  simp only [Aggregator.hasEnded, Bool.or_eq_true, beq_iff_eq] at he
  split
  · rename_i hs
    refine he.resolve_right fun hi => ?_
    have hbroken := h.leavesOff.broken (h.broken_of_incomplete hi)
    omega
  · rename_i hs
    refine he.resolve_left fun hf => ?_
    have hin := h.hasStream.finished hf
    rw [h.received_of_too_many (by omega)] at hin
    exact hne (List.eq_nil_of_length_eq_zero (by omega))

end Engine

/-! ## Limits that a configuration may ask for -/

theorem Config.fault?_of_limit {c : Config} (hc : c.fault? = none) {limit : Nat} (hl : limit ≠ 0) :
    ({ c with batch := { c.batch with limit := limit } } : Config).fault? = none := by
  unfold fault? at hc ⊢
  split at hc
  · cases hc
  · rename_i hrate
    split at hc
    · cases hc
    · rwa [if_neg hrate, if_neg hl]

/-! ## Reports on all tasks -/

/-- The report accounts for one result of each task of a set. -/
structure Report.Covers (r : Report) (set : TaskSet) : Prop where
  total : r.statistics.total = set.tasks.length
  results : ∃ rs : List Result, (rs.map Result.task).Perm set.tasks ∧
    r.succeeded = (rs.filter Result.isSuccess).map Result.task ∧
    r.errors = rs.filterMap (Tally.record? set) ∧
    ∃ elapsed, r.statistics =
      { ((Tally.start set).addAll set rs).statistics with elapsed := elapsed }

variable {σ η : Type} [Host (StateM σ) η]

namespace Run

open Engine (Reachable Settings State Timeline World slotBound)

variable {p : Plan} {set : TaskSet} {x : State} {cancelled : Bool}

theorem exists_report_of_finished (h : Reachable p.settings set p.skipPolicy cancelled x)
    (hf : x.aggregator.phase = .finished) (runId : String) (attempt : Nat) (elapsed : Span)
    (e : σ) :
    ∃ r, ((conclude p runId attempt elapsed x.aggregator : StateM σ Ending) e).1 = .ok r ∧
      r.Covers set := by
  obtain ⟨hperm, -, -, -, htally⟩ := h.tally_of_finished hf
  unfold conclude
  rw [if_pos hf, htally]
  refine ⟨_, rfl, Tally.total_addAll set _ _, x.sent.reverse, ?_, ?_, ?_, elapsed, rfl⟩
  · rw [List.map_reverse]
    exact (List.reverse_perm _).trans hperm
  · exact Tally.succeeded_addAll set _ _
  · exact Tally.errors_addAll set _ _

/-- A run of some tasks that came to its end gives a report on all of them, unless there were more
slots than can be counted; then it has no result. -/
theorem conclude_of_ended (h : Reachable p.settings set p.skipPolicy cancelled x)
    (hne : set.tasks ≠ []) (he : x.aggregator.hasEnded = true) (runId : String) (attempt : Nat)
    (elapsed : Span) (e : σ) :
    if p.settings.slots ≤ slotBound then
      ∃ r, ((conclude p runId attempt elapsed x.aggregator : StateM σ Ending) e).1 = .ok r ∧
        r.Covers set
    else ((conclude p runId attempt elapsed x.aggregator : StateM σ Ending) e).1 =
      .error (.incomplete set.tasks.length 0) := by
  have hphase := h.phase_of_ended hne he
  split
  · rename_i hs
    rw [if_pos hs] at hphase
    exact exists_report_of_finished h hphase runId attempt elapsed e
  · rename_i hs
    rw [if_neg hs] at hphase
    unfold conclude
    rw [if_neg (by rw [hphase]; decide), h.received_of_too_many (Nat.lt_of_not_le hs),
      Aggregator.expected, h.hasStream.set_eq]
    rfl

theorem once_eq_conclude (p : Plan) (world : String → World (StateM σ)) (set : TaskSet)
    (attempt : Nat) {weather : Weather} (hw : Timeline.AwaitsCancelOnly weather.alarms) (e : σ) :
    ∃ x runId elapsed e', Reachable p.settings set p.skipPolicy weather.cancelled x ∧
      x.aggregator.hasEnded = true ∧ (once p world set attempt weather e).1.1 =
        ((conclude p runId attempt elapsed x.aggregator : StateM σ Ending) e').1 := by
  let start := Timeline.start p.settings set p.skipPolicy weather.cancelled weather.now
    weather.alarms
  obtain ⟨runId, e₁, elapsed, e₂, -, haround⟩ := Session.around_eq p
    (fun runId => (world runId).tell) (fun runId => start.drive (world runId) start.enough)
    (fun t => t.state.aggregator) set attempt e
  have hrun := (Timeline.isRun_start p.settings set p.skipPolicy weather.cancelled weather.now
    weather.alarms).drive (world runId) start.enough e₁
  exact ⟨_, runId, elapsed, e₂, hrun.reachable,
    Timeline.hasEnded_of_drive_start (world runId) p.settings set p.skipPolicy weather.cancelled
      weather.now hw e₁, congrArg Prod.fst haround⟩

/-- Whether a run completes is a matter of the limit alone. Up to so many slots as can be counted,
the dispatcher never breaks off and the run reports on all its tasks, whatever the tool does and
whenever the run is cancelled. With more of them, which no configuration is kept from asking for,
the dispatcher breaks off at the start and the run ends without a result. -/
theorem completes_iff (c : Config) (mode : Mode) {set : TaskSet} (hne : set.tasks ≠ []) :
    (∀ cancelled x, Reachable (c.plan mode).settings set (c.plan mode).skipPolicy cancelled x →
      (x.dispatch = .broken ↔ slotBound < c.batch.limit) ∧
      (x.aggregator.hasEnded = true →
        x.aggregator.phase = if c.batch.limit ≤ slotBound then .finished else .incomplete)) ∧
    ∀ (world : String → World (StateM σ)) (attempt : Nat) (weather : Weather) (e : σ),
      Timeline.AwaitsCancelOnly weather.alarms →
      if c.batch.limit ≤ slotBound then
        ∃ r, (once (c.plan mode) world set attempt weather e).1.1 = .ok r ∧ r.Covers set
      else (once (c.plan mode) world set attempt weather e).1.1 =
        .error (.incomplete set.tasks.length 0) := by
  have hslots : (c.plan mode).settings.slots ≤ slotBound ↔ c.batch.limit ≤ slotBound :=
    (c.plan mode).settings.slots_le_iff
  refine ⟨fun cancelled x h => ⟨?_, fun he => ?_⟩, fun world attempt weather e hw => ?_⟩
  · rw [h.broken_iff]
    omega
  · rw [h.phase_of_ended hne he]
    simp only [hslots]
  · obtain ⟨x, runId, elapsed, e', h, he, honce⟩ :=
      once_eq_conclude (c.plan mode) world set attempt hw e
    have hends := conclude_of_ended h hne he runId attempt elapsed e'
    simp only [hslots, ← honce] at hends
    exact hends

/-- Every call succeeds at once. -/
def obliging : World (StateM Machine) where
  call _ := pure ⟨.success, ⟨0⟩, false⟩
  wait _ := pure ()
  tell _ := pure ()

/-- Of two configurations that are accepted, one asks for more slots than can be counted. -/
theorem completes_iff_of_obliging :
    ∃ c c' : Config, c.fault? = none ∧ c'.fault? = none ∧ c.batch.limit ≤ slotBound ∧
      slotBound < c'.batch.limit ∧
      (∃ r, (once (c.plan .mirrorToMirror) (fun _ => obliging) (.ofTasks [Engine.plainImage "a"]) 1
          ⟨⟨0⟩, [], false⟩ Machine.empty).1.1 = .ok r ∧
        r.Covers (.ofTasks [Engine.plainImage "a"])) ∧
      (once (c'.plan .mirrorToMirror) (fun _ => obliging) (.ofTasks [Engine.plainImage "a"]) 1
        ⟨⟨0⟩, [], false⟩ Machine.empty).1.1 = .error (.incomplete 1 0) := by
  let c := Config.standard ⟨none, none⟩
  let c' : Config := { c with batch := { c.batch with limit := slotBound + 1 } }
  have hc : c.fault? = none ∧ c.batch.limit ≤ slotBound := by decide +kernel
  have hne : (TaskSet.ofTasks [Engine.plainImage "a"]).tasks ≠ [] := List.cons_ne_nil _ _
  have hw : Timeline.AwaitsCancelOnly [] := ⟨Nat.zero_le _, nofun⟩
  have hfew := (completes_iff c .mirrorToMirror hne).2 (fun _ => obliging) 1 ⟨⟨0⟩, [], false⟩
    Machine.empty hw
  have hmany := (completes_iff c' .mirrorToMirror hne).2 (fun _ => obliging) 1 ⟨⟨0⟩, [], false⟩
    Machine.empty hw
  rw [if_pos hc.2] at hfew
  rw [if_neg (Nat.not_succ_le_self slotBound)] at hmany
  exact ⟨c, c', hc.1, Config.fault?_of_limit hc.1 (Nat.succ_ne_zero _), hc.2, Nat.lt_succ_self _,
    hfew, hmany⟩

end Run

end ImageBatch
