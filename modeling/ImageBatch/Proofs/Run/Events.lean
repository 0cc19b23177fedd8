import ImageBatch.Proofs.Engine.Story
import ImageBatch.Proofs.Engine.Timeline
import ImageBatch.Proofs.Session.Attempts
import ImageBatch.Machine

/-!
# The events of a run

All that a run tells, from its start to its end. The engine tells of the tasks, each with a story of
its own, and the run puts its own start before that and its own end behind. The end tells how many
tasks ended in which way, as the aggregator has counted them: these are the numbers that a listener
counts.
-/

namespace ImageBatch

variable {σ η α β : Type}

/-! ## Keeping a record -/

/-- A computation on a host that keeps a record of events. -/
abbrev Recorder (σ : Type) := StateT (List Event) (StateM σ)

namespace Recorder

/-- Puts a happening of a run at the end of the record. -/
def record (runId : String) (what : Happening) : Recorder σ Unit :=
  modify (fun es => es ++ [⟨runId, what⟩])

theorem bind_apply (x : Recorder σ α) (f : α → Recorder σ β) (es : List Event) (h : σ) :
    (x >>= f) es h = f (x es h).1.1 (x es h).1.2 (x es h).2 := rfl

theorem record_apply (runId : String) (what : Happening) (es : List Event) (h : σ) :
    record runId what es h = (((), es ++ [⟨runId, what⟩]), h) := rfl

theorem lift_apply (x : StateM σ α) (es : List Event) (h : σ) :
    (StateT.lift x : Recorder σ α) es h = (((x h).1, es), (x h).2) := rfl

theorem forM_record (runId : String) (hs : List Happening) (es : List Event) (h : σ) :
    hs.forM (record runId) es h = (((), es ++ hs.map (Event.mk runId)), h) := by
  induction hs generalizing es with
  | nil =>
      rw [List.map_nil, List.append_nil]
      rfl
  | cons e hs ih =>
      have hstep : (e :: hs).forM (record runId) es h =
          hs.forM (record runId) (es ++ [⟨runId, e⟩]) h := rfl
      rw [hstep, ih, List.append_assoc]
      rfl

end Recorder

open Recorder

/-! ## The clock keeps the record -/

namespace Engine.Timeline

/-- A world that records what it is told. -/
def recording (w : World (StateM σ)) (runId : String) : World (Recorder σ) where
  call r := StateT.lift (w.call r)
  wait d := StateT.lift (w.wait d)
  tell := record runId

/-- A timeline comes from another one, and the record from the record before, to which it adds what
has happened meanwhile. -/
structure Records (runId : String) (t : Timeline) (es : List Event) (u : Timeline)
    (es' : List Event) : Prop where
  follows : t.Follows u
  events : ∃ news, u.state.happenings = news ++ t.state.happenings ∧
    es' = es ++ news.reverse.map (Event.mk runId)

namespace Records

variable {runId : String} {t u v : Timeline} {es es' es'' : List Event}

theorem refl (t : Timeline) (es : List Event) : t.Records runId es t es :=
  ⟨.of_eq rfl rfl, [], rfl, (List.append_nil es).symm⟩

theorem trans (h : t.Records runId es u es') (h' : u.Records runId es' v es'') :
    t.Records runId es v es'' := by
  obtain ⟨news, hnews, hevents⟩ := h.events
  obtain ⟨news', hnews', hevents'⟩ := h'.events
  refine ⟨h.follows.trans h'.follows, news' ++ news, ?_, ?_⟩
  · rw [hnews', hnews, List.append_assoc]
  · rw [hevents', hevents, List.reverse_append, List.map_append, List.append_assoc]

end Records

theorem records_tellNews (w : World (StateM σ)) (runId : String) {t u : Timeline}
    (h : t.Follows u) (es : List Event) (x : σ) :
    ∃ es', tellNews (recording w runId) t u es x = (((), es'), x) ∧
      t.Records runId es u es' := by
  obtain ⟨news, hnews⟩ := h.exists_news
  have htake : u.state.happenings.take (u.state.happenings.length - t.state.happenings.length) =
      news := by
    rw [hnews, List.length_append, Nat.add_sub_cancel, List.take_left]
  refine ⟨es ++ news.reverse.map (Event.mk runId), ?_, h, news, hnews, rfl⟩
  rw [tellNews, htake]
  exact forM_record runId news.reverse es x

/-- First the news of one step is told, and then what comes afterwards. -/
theorem records_bind (w : World (StateM σ)) (runId : String) {t u : Timeline} (h : t.Follows u)
    {rest : Recorder σ Timeline} {x : σ}
    (hrest : ∀ es, ∃ v es' x', rest es x = ((v, es'), x') ∧ u.Records runId es v es')
    (es : List Event) :
    ∃ v es' x', (tellNews (recording w runId) t u >>= fun _ => rest) es x = ((v, es'), x') ∧
      t.Records runId es v es' := by
  obtain ⟨es₁, htell, hfirst⟩ := records_tellNews w runId h es x
  obtain ⟨v, es₂, x', hgo, hlast⟩ := hrest es₁
  refine ⟨v, es₂, x', ?_, hfirst.trans hlast⟩
  rw [bind_apply, htell, hgo]

theorem records_drive (w : World (StateM σ)) (runId : String) (fuel : Nat) (t : Timeline)
    (es : List Event) (x : σ) :
    ∃ u es' x', t.drive (recording w runId) fuel es x = ((u, es'), x') ∧
      t.Records runId es u es' := by
  induction fuel generalizing t es x with
  | zero => exact ⟨t, es, x, rfl, .refl t es⟩
  | succ fuel ih =>
      have hall := Follows.next t
      unfold Timeline.drive
      rcases hnext : t.next with _ | u | ⟨r, k⟩ | ⟨d, u⟩ <;> rw [hnext] at hall
      · exact ⟨t, es, x, rfl, .refl t es⟩
      · exact records_bind w runId hall (fun es => ih u es x) es
      · exact records_bind w runId (hall (w.call r x).1) (fun es => ih _ es (w.call r x).2) es
      · exact records_bind w runId hall (fun es => ih u es (w.wait d x).2) es

end Engine.Timeline

/-! ## The end of a run tells nothing else -/

/-- `x` does what `y` does, and leaves the record as it is. -/
def Lifts (x : Recorder σ α) (y : StateM σ α) : Prop := x = StateT.lift y

namespace Lifts

variable {x : Recorder σ α} {y : StateM σ α}

theorem pure (a : α) : Lifts (pure a : Recorder σ α) (pure a) := rfl

theorem bind {f : α → Recorder σ β} {g : α → StateM σ β} (hx : Lifts x y)
    (hf : ∀ a, Lifts (f a) (g a)) : Lifts (x >>= f) (y >>= g) := by
  cases hx
  rw [funext hf]
  rfl

theorem apply (h : Lifts x y) (es : List Event) (t : σ) : x es t = (((y t).1, es), (y t).2) := by
  rw [h, lift_apply]

end Lifts

variable [Host (StateM σ) η]

theorem lifts_newRunId : Lifts (Host.newRunId : Recorder σ String) Host.newRunId := rfl

theorem lifts_now : Lifts (Host.now : Recorder σ Instant) Host.now := rfl

theorem lifts_write (folder runId : String) (s : Statistics) (records : List Record) :
    Lifts (ErrorLog.write folder runId s records : Recorder σ (Except ErrorLog.Error String))
      (ErrorLog.write folder runId s records) := by
  refine Lifts.bind rfl fun made => ?_
  cases made with
  | error e => exact .pure _
  | ok _ =>
      refine Lifts.bind rfl fun written => ?_
      refine Lifts.bind rfl fun created => ?_
      cases created with
      | error e => exact .pure _
      | ok file =>
          refine Lifts.bind rfl fun wrote => ?_
          cases wrote with
          | error e => exact .pure _
          | ok _ => exact .pure _

namespace Run

variable {p : Plan}

theorem lifts_conclude (p : Plan) (runId : String) (attempt : Nat) (elapsed : Span)
    (a : Aggregator) :
    Lifts (conclude p runId attempt elapsed a : Recorder σ Ending)
      (conclude p runId attempt elapsed a) := by
  unfold conclude
  split
  · refine Lifts.bind ?_ fun log => .pure _
    unfold writeLog
    split
    · refine (lifts_write _ _ _ _).bind fun wrote => ?_
      cases wrote with
      | error e => exact .pure _
      | ok path => exact .pure _
    · exact .pure _
  · exact .pure _

/-- What a completed run has recorded: its start, what its engine recorded, and its end. -/
theorem record_of_around {engine : String → Recorder σ α} {aggregator : α → Aggregator}
    {set : TaskSet} {attempt : Nat} {es es' : List Event} {h h' : σ} {r : Report} {x : α}
    (hrun : around p record engine aggregator set attempt es h = (((.ok r, x), es'), h')) :
    ∃ h₁ h₂ es₁ elapsed log,
      engine r.runId (es ++ [⟨r.runId, .runStarted set.tasks.length attempt⟩]) h₁ =
        ((x, es₁), h₂) ∧
      es' = es₁ ++ [⟨r.runId, .runCompleted r.statistics.succeeded r.statistics.failed
        r.statistics.skipped⟩] ∧
      (aggregator x).phase = .finished ∧
      r = report p r.runId attempt { (aggregator x).tally.statistics with elapsed := elapsed }
        (aggregator x).tally log := by
  rcases hid : (Host.newRunId : StateM σ String) h with ⟨runId, h₁⟩
  rcases hbegan : (Host.now : StateM σ Instant) h₁ with ⟨began, h₂⟩
  rcases hengine : engine runId (es ++ [⟨runId, .runStarted set.tasks.length attempt⟩]) h₂
    with ⟨⟨y, es₁⟩, h₃⟩
  rcases hended : (Host.now : StateM σ Instant) h₃ with ⟨ended, h₄⟩
  rcases hending : (conclude p runId attempt ⟨ended.nanosSince began⟩ (aggregator y) :
    StateM σ Ending) h₄ with ⟨ending, h₅⟩
  simp only [around, bind_apply, lifts_newRunId.apply, hid, record_apply, lifts_now.apply, hbegan,
    hengine, hended, (lifts_conclude _ _ _ _ _).apply, hending] at hrun
  cases ending with
  | error e => cases hrun
  | ok r' =>
      cases hrun
      obtain ⟨hf, log, hlog⟩ := Session.ok_of_conclude (congrArg Prod.fst hending)
      have hname : r.runId = runId := by
        rw [hlog]
        rfl
      cases hname
      exact ⟨h₂, h₃, es₁, ⟨ended.nanosSince began⟩, log, hengine, rfl, hf, hlog⟩

end Run

/-! ## The grammar of a run -/

/-- What is told of the tasks of a set: nothing but their stories, and as many of each ending as are
counted. -/
structure Statistics.AreTold (n : Statistics) (set : TaskSet) (hs : List Happening) : Prop where
  about : ∀ e ∈ hs, ∃ t ∈ set.tasks, e.origin? = some t.origin
  story : ∀ t ∈ set.tasks, ∃ ending,
    Engine.Story t.origin (hs.filter (fun e => e.origin? == some t.origin)) ending
  succeeded : n.succeeded = (hs.filterMap Happening.ending?).countP Ending.isSuccess
  failed : n.failed = (hs.filterMap Happening.ending?).countP Ending.isFailure
  skipped : n.skipped = (hs.filterMap Happening.ending?).countP Ending.isSkip

/-- All that a run tells: its start and its end, and the happenings in between. -/
def Report.tells (r : Report) (set : TaskSet) (hs : List Happening) : List Event :=
  (Happening.runStarted set.tasks.length r.attempt :: hs ++
    [Happening.runCompleted r.statistics.succeeded r.statistics.failed r.statistics.skipped]).map
    (Event.mk r.runId)

namespace Engine

variable {s : Settings} {set : TaskSet} {policy : SkipPolicy} {cancelled : Bool} {x : State}

/-- Once every result is in, the aggregator has counted what was told. -/
theorem Reachable.areTold (h : Reachable s set policy cancelled x)
    (hn : (set.tasks.map Task.origin).Nodup) (hf : x.aggregator.phase = .finished) :
    x.aggregator.tally.statistics.AreTold set x.happenings.reverse := by
  obtain ⟨hsent, -, -, -, htally⟩ := h.tally_of_finished hf
  have hendings := h.endings_perm hn hf
  obtain ⟨hsucceeded, hfailed, hskipped⟩ :=
    Tally.counts_addAll set (Tally.start set) x.sent.reverse
  rw [← htally, List.map_reverse, List.countP_reverse, ← hendings.countP_eq]
    at hsucceeded hfailed hskipped
  refine ⟨?_, ?_, ?_, ?_, ?_⟩
  · intro e he
    exact h.exists_task e (List.mem_reverse.mp he)
  · intro t ht
    obtain ⟨r, hr, rfl⟩ := List.mem_map.mp (hsent.mem_iff.mpr ht)
    exact ⟨r.ending, h.story_of_sent hn hr⟩
  · exact hsucceeded.trans (Nat.zero_add _)
  · exact hfailed.trans (Nat.zero_add _)
  · exact hskipped.trans (Nat.zero_add _)

/-- The engine comes to a state that a run of the set can come to, whatever the timing, the tool and
the moment at which the run is cancelled, and records all that happens on the way. -/
def Reports (p : Plan) (set : TaskSet) (engine : String → Recorder σ α) (state : α → State) :
    Prop :=
  ∀ runId es h, ∃ x h' cancelled,
    engine runId es h =
      ((x, es ++ (state x).happenings.reverse.map (Event.mk runId)), h') ∧
    Reachable p.settings set p.skipPolicy cancelled (state x)

theorem reports_drive (p : Plan) (set : TaskSet) (w : World (StateM σ)) (cancelled : Bool)
    (now : Span) (alarms : List Alarm) (fuel : Nat) :
    Reports p set (fun runId => (Timeline.start p.settings set p.skipPolicy cancelled now
      alarms).drive (Timeline.recording w runId) fuel) Timeline.state := by
  intro runId es h
  have hstart := Timeline.isRun_start p.settings set p.skipPolicy cancelled now alarms
  obtain ⟨u, es', h', hdrive, hfollows, news, hnews, hevents⟩ := Timeline.records_drive w runId fuel
    (Timeline.start p.settings set p.skipPolicy cancelled now alarms) es h
  have hall : u.state.happenings = news := by
    rw [hnews]
    exact List.append_nil news
  refine ⟨u, h', cancelled, ?_, (hstart.follow hfollows).reachable⟩
  simp only [hdrive, hevents, hall]

end Engine

open Engine (Reports threeImages)

/-- Whatever the tool does, whenever the run is cancelled and in whatever order everybody moves: a
completed run tells its start with the number of its tasks, of each task one story, and its end with
the numbers of the endings told, and nothing after that. -/
theorem Run.tells_of_completed {p : Plan} {set : TaskSet}
    {engine : String → Recorder σ α} {state : α → Engine.State} (he : Reports p set engine state)
    (hn : (set.tasks.map Task.origin).Nodup) {attempt : Nat} {es es' : List Event} {h h' : σ}
    {r : Report} {x : α}
    (hrun : Run.around p record engine (fun x => (state x).aggregator) set attempt es h =
      (((.ok r, x), es'), h')) :
    ∃ hs, es' = es ++ r.tells set hs ∧ r.attempt = attempt ∧ r.statistics.AreTold set hs ∧
      ∀ ls y, Engine.steps? p.settings (state x) ls = some y →
        y.happenings = (state x).happenings := by
  obtain ⟨h₁, h₂, es₁, elapsed, log, hengine, hes', hf, hreport⟩ := record_of_around hrun
  obtain ⟨x', h₃, cancelled, hengine', hreach⟩ := he r.runId _ h₁
  rw [hengine] at hengine'
  cases hengine'
  have hattempt : r.attempt = attempt := by
    rw [hreport]
    rfl
  have htold := hreach.areTold hn hf
  refine ⟨(state x).happenings.reverse, ?_, hattempt, ?_, ?_⟩
  · rw [hes', Report.tells, hattempt]
    simp
  · rw [hreport]
    exact ⟨htold.about, htold.story, htold.succeeded, htold.failed, htold.skipped⟩
  · intro ls y hs
    exact hreach.happenings_of_finished hf hs

/-- Two slots, two calls for each task, and a short wait in between. -/
def hurried : Plan :=
  ⟨{ Engine.frugal with limit := 2, attempts := 2, backoff := ⟨10⟩ }, false, .standard, "errors"⟩

/-- The calls for the first image fail at once, those for the second one break off later. -/
def unlucky : Engine.World (StateM Machine) where
  call r := pure (if r.source = "a" then ⟨.failure ⟨.network, "reset"⟩, ⟨5⟩, false⟩
    else ⟨.panic "broken", ⟨20⟩, false⟩)
  wait _ := pure ()
  tell _ := pure ()

/-- The session is cancelled soon. -/
def soonCancelled : Weather := ⟨⟨0⟩, [⟨⟨8⟩, .cancel⟩], false⟩

/-- The run is cancelled while the worker of the first image waits for its second call. -/
theorem Run.tells_of_unlucky :
    ∃ r t h hs, Run.once hurried (Engine.Timeline.recording unlucky) threeImages 1 soonCancelled []
        Machine.empty = (((.ok r, t), r.tells threeImages hs), h) ∧ hs.length = 6 ∧
      r.statistics.failed = 2 ∧ r.statistics.AreTold threeImages hs := by
  rcases hrun : Run.once hurried (Engine.Timeline.recording unlucky) threeImages 1 soonCancelled []
    Machine.empty with ⟨⟨⟨ending, t⟩, es⟩, h⟩
  have hends : ending.toOption.map (fun r => r.statistics.failed) = some 2 ∧ es.length = 8 := by
    have hsame := congrArg (fun out => (out.1.1.1.toOption.map (fun r => r.statistics.failed),
      out.1.2.length)) hrun
    exact Prod.mk.inj (hsame.symm.trans (by decide +kernel))
  cases ending with
  | error e => cases hends.1
  | ok r =>
      have hreports := Engine.reports_drive hurried threeImages unlucky soonCancelled.cancelled
        soonCancelled.now soonCancelled.alarms
      have hn : (threeImages.tasks.map Task.origin).Nodup := by decide +kernel
      obtain ⟨hs, rfl, -, htold, -⟩ := Run.tells_of_completed (hreports _) hn hrun
      have hlength : hs.length + 2 = 8 := by
        rw [← hends.2]
        simp [Report.tells]
      exact ⟨r, t, h, hs, rfl, by omega, Option.some.inj hends.1, htold⟩

end ImageBatch
