import ImageBatch.Proofs.Engine.Timeline
import ImageBatch.Proofs.Session.Attempts

/-!
# Sessions on a clock

The session of the program, whose runs go on a clock, is one of the sessions on any host.
-/

namespace ImageBatch.Session

variable {σ η : Type} [Host (StateM σ) η]

variable (p : Plan) (w : String → Engine.World (StateM σ))

/-- The weather and the traces after a run. -/
def outlook (traces : List Trace) (t : Engine.Timeline) : Weather × List Trace :=
  (Weather.after t, ⟨t.starts.reverse, t.peak⟩ :: traces)

/-- Outside of a session on a host are the weather and the traces of the runs. -/
def Outside.onHost : Outside (Weather × List Trace) σ where
  engine set _ runId e :=
    let start := Engine.Timeline.start p.settings set p.skipPolicy e.1.cancelled e.1.now e.1.alarms
    (fun t => (t.state, outlook e.2 t)) <$> start.drive (w runId) start.enough
  tell runId := (w runId).tell
  cancelled e := e.1.cancelled
  pause := (Session.onHost p w).pause

theorem Outside.isEngine_onHost : (onHost p w).IsEngine p := by
  intro set attempt runId e h
  have hstart := Engine.Timeline.isRun_start p.settings set p.skipPolicy e.1.cancelled e.1.now
    e.1.alarms
  exact ⟨e.1.cancelled, (hstart.drive (w runId) (Engine.Timeline.enough _) h).reachable⟩

theorem around_map {α β : Type} (f : α → β)
    (tell : String → Happening → StateM σ Unit) (engine : String → StateM σ α)
    (aggregator : β → Aggregator) (set : TaskSet) (attempt : Nat) (h : σ) :
    Run.around p tell (fun runId => f <$> engine runId) aggregator set attempt h =
      (Run.around p tell engine (fun x => aggregator (f x)) set attempt h).map
        (fun x => (x.1, f x.2)) id := by
  rcases hid : (Host.newRunId : StateM σ String) h with ⟨runId, h₁⟩
  rcases htell : tell runId (.runStarted set.tasks.length attempt) h₁ with ⟨_, h₂⟩
  rcases hbegan : (Host.now : StateM σ Instant) h₂ with ⟨began, h₃⟩
  rcases hengine : engine runId h₃ with ⟨x, h₄⟩
  rcases hended : (Host.now : StateM σ Instant) h₄ with ⟨ended, h₅⟩
  rcases hending : (Run.conclude p runId attempt ⟨ended.nanosSince began⟩ (aggregator (f x)) :
    StateM σ Run.Ending) h₅ with ⟨ending, h₆⟩
  have hmap : (f <$> engine runId) h₃ = (f x, h₄) := by
    simp only [Functor.map, StateT.map, hengine]
    rfl
  simp only [Run.around, bind, StateT.bind, hid, htell, hbegan, hengine, hmap, hended, hending]
  cases ending <;> rfl

/-! ## Sessions with and without a record -/

variable {α β ω : Type}

/-- Apart from the record that is kept, `x` does what `y` does. -/
def Records (x : StateM (ω × σ × List (Attempt σ)) α) (y : StateT ω (StateM σ) α) : Prop :=
  ∀ e h as, ((x (e, h, as)).1, (x (e, h, as)).2.1) = (y e h).1 ∧ (x (e, h, as)).2.2.1 = (y e h).2

theorem Records.pure (a : α) :
    Records (pure a : StateM (ω × σ × List (Attempt σ)) α) (pure a) := fun _ _ _ => ⟨rfl, rfl⟩

theorem Records.bind {x : StateM (ω × σ × List (Attempt σ)) α} {y : StateT ω (StateM σ) α}
    {f : α → StateM (ω × σ × List (Attempt σ)) β} {g : α → StateT ω (StateM σ) β}
    (hx : Records x y) (hf : ∀ a, Records (f a) (g a)) : Records (x >>= f) (y >>= g) := by
  intro e h as
  obtain ⟨hresult, hhost⟩ := hx e h as
  have hg : (y >>= g) e h = g (y e h).1.1 (y e h).1.2 (y e h).2 := rfl
  rw [bind_apply, hg, ← hresult, ← hhost]
  exact hf _ _ _ _

theorem records_run (set : TaskSet) (attempt : Nat) :
    Records (((Outside.onHost p w).surroundings p).run set attempt)
      ((Session.onHost p w).run set attempt) := by
  intro e h as
  simp only [Outside.surroundings, Outside.onHost, around_map]
  exact ⟨rfl, rfl⟩

theorem records_runsFrom (full : TaskSet) (interval : Span) (left attempt : Nat)
    (current : TaskSet) :
    Records (runsFrom ((Outside.onHost p w).surroundings p) full interval left attempt current)
      (runsFrom (Session.onHost p w) full interval left attempt current) := by
  induction left generalizing attempt current with
  | zero => exact .pure _
  | succ left ih =>
      refine (records_run p w current (attempt + 1)).bind fun ending => ?_
      cases ending with
      | error e => exact .pure _
      | ok r =>
          by_cases hlast : (!r.outcome.isHardFailure || left == 0) = true
          · simp only [if_pos hlast]
            exact .pure _
          · simp only [if_neg hlast]
            refine Records.bind (fun _ _ _ => ⟨rfl, rfl⟩) fun cancelled => ?_
            split
            · exact .pure _
            · refine Records.bind (fun _ _ _ => ⟨rfl, rfl⟩) fun origins => ?_
              refine Records.bind (fun _ _ _ => ⟨rfl, rfl⟩) fun stop => ?_
              split
              · exact .pure _
              · refine (ih _ _).bind fun rest => ?_
                cases rest with
                | error e => exact .pure _
                | ok rs => exact .pure _

/-- The session of the program gives back the reports of a session on any host, in which the engine
comes to states that a run can come to. -/
theorem runs_onHost (s : RetrySettings) (full : TaskSet) (e : Weather × List Trace) (h : σ) :
    (runs (Session.onHost p w) s full e h).1.1 =
      ((Outside.onHost p w).session p s full e h).1 :=
  congrArg Prod.fst (records_runsFrom p w full s.interval _ 0 full e h []).1.symm

end ImageBatch.Session
