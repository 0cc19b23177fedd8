import ImageBatch.Machine
import ImageBatch.Proofs.Engine.Stream
import ImageBatch.Proofs.ErrorLog.ReadBack
import ImageBatch.Proofs.Verdict

/-!
# The attempts of a session

What a session meets with is left open: the host, which may refuse every request, the engine, which
may come to any state that a run can come to, and whoever listens or cancels. The attempts of a
session are recorded as they are made, and each further one follows from the one before.
-/

namespace ImageBatch.Session

variable {ω σ η : Type} [Host (StateM σ) η]

/-! ## Sessions on any host -/

/-- What goes on around a session: the states `σ` are those of the host, the states `ω` those of
everything else, such as the time and the alarms that are set. -/
structure Outside (ω σ : Type) where
  /-- Runs a set; the number and the name of the run come with it. -/
  engine : TaskSet → Nat → String → ω → StateM σ (Engine.State × ω)
  tell : String → Happening → StateM σ Unit
  cancelled : ω → Bool
  pause : Span → ω → StateM σ (Bool × ω)

/-- The engine comes to a state that a run of the set can come to, whatever the timing, the tool and
the moment at which the run is cancelled. -/
def Outside.IsEngine (o : Outside ω σ) (p : Plan) : Prop :=
  ∀ set attempt runId e h, ∃ cancelled,
    Engine.Reachable p.settings set p.skipPolicy cancelled (o.engine set attempt runId e h).1.1

/-- The names of runs stand on one line. -/
def NamesOnOneLine (σ : Type) {η : Type} [Host (StateM σ) η] : Prop :=
  ∀ h : σ, '\n' ∉ ((Host.newRunId : StateM σ String) h).1.toList

/-- A run of a session: its set, what the engine came to, how it ended, and the state of the host
when it was over. -/
structure Attempt (σ : Type) where
  set : TaskSet
  engine : Engine.State
  ending : Run.Ending
  host : σ

/-- The surroundings of a session, which keep a record of the runs. -/
def Outside.surroundings (o : Outside ω σ) (p : Plan) :
    Surroundings (StateM (ω × σ × List (Attempt σ))) where
  run set attempt := fun (e, h, as) =>
    let ((ending, x, e), h) := Run.around p o.tell (fun runId => o.engine set attempt runId e)
      (fun y => y.1.aggregator) set attempt h
    (ending, e, h, as ++ [⟨set, x, ending, h⟩])
  cancelled := fun (e, h, as) => (o.cancelled e, e, h, as)
  recover outcome := fun (e, h, as) =>
    let (origins, h) := (recover p.errors outcome : StateM σ (List String)) h
    (origins, e, h, as)
  pause d := fun (e, h, as) =>
    let ((cancelled, e), h) := o.pause d e h
    (cancelled, e, h, as)

/-- What a session gives back, and its runs in order. -/
def Outside.session (o : Outside ω σ) (p : Plan) (s : RetrySettings) (full : TaskSet) (e : ω)
    (h : σ) : Except Aggregator.Error (List Report) × List (Attempt σ) :=
  let (result, _, _, as) := runs (o.surroundings p) s full (e, h, [])
  (result, as)

/-! ## One attempt -/

/-- The origins that are known for the next attempt. -/
def Attempt.recovered (a : Attempt σ) (p : Plan) (r : Report) : List String :=
  ((recover p.errors r.outcome : StateM σ (List String)) a.host).1

def Attempt.unresolved (r : Report) : Nat := r.statistics.failed + r.statistics.skipped

/-- An attempt is a run of the engine, and its report tells what the engine came to. -/
structure Attempt.Ran (p : Plan) (a : Attempt σ) : Prop where
  reachable : ∃ cancelled,
    Engine.Reachable p.settings a.set p.skipPolicy cancelled a.engine
  report : ∀ r, a.ending = .ok r → a.engine.aggregator.phase = .finished ∧
    ∃ runId attempt elapsed log, '\n' ∉ runId.toList ∧ r = Run.report p runId attempt
      { a.engine.aggregator.tally.statistics with elapsed := elapsed } a.engine.aggregator.tally log

theorem ok_of_conclude {p : Plan} {runId : String} {attempt : Nat} {elapsed : Span}
    {a : Aggregator} {h : σ} {r : Report}
    (hr : ((Run.conclude p runId attempt elapsed a : StateM σ Run.Ending) h).1 = .ok r) :
    a.phase = .finished ∧ ∃ log, r = Run.report p runId attempt
      { a.tally.statistics with elapsed := elapsed } a.tally log := by
  unfold Run.conclude at hr
  split at hr
  · rename_i hf
    exact ⟨hf, _, (Except.ok.inj hr).symm⟩
  · cases hr

/-- A run around an engine concludes from the state to which the engine comes. -/
theorem around_eq {α : Type} (p : Plan) (tell : String → Happening → StateM σ Unit)
    (engine : String → StateM σ α) (aggregator : α → Aggregator) (set : TaskSet) (attempt : Nat)
    (h : σ) :
    ∃ runId h₁ elapsed h₂, runId = ((Host.newRunId : StateM σ String) h).1 ∧
      (Run.around p tell engine aggregator set attempt h).1 =
        (((Run.conclude p runId attempt elapsed (aggregator (engine runId h₁).1) :
          StateM σ Run.Ending) h₂).1, (engine runId h₁).1) := by
  rcases hid : (Host.newRunId : StateM σ String) h with ⟨runId, h₁⟩
  rcases htell : tell runId (.runStarted set.tasks.length attempt) h₁ with ⟨_, h₂⟩
  rcases hbegan : (Host.now : StateM σ Instant) h₂ with ⟨began, h₃⟩
  rcases hengine : engine runId h₃ with ⟨x, h₄⟩
  rcases hended : (Host.now : StateM σ Instant) h₄ with ⟨ended, h₅⟩
  rcases hending : (Run.conclude p runId attempt ⟨ended.nanosSince began⟩ (aggregator x) :
    StateM σ Run.Ending) h₅ with ⟨ending, h₆⟩
  refine ⟨runId, h₃, ⟨ended.nanosSince began⟩, h₅, rfl, ?_⟩
  simp only [Run.around, bind, StateT.bind, hid, htell, hbegan, hengine, hended, hending]
  cases ending <;> rfl

theorem Outside.run_eq_conclude (o : Outside ω σ) (p : Plan) (set : TaskSet) (attempt : Nat) (e : ω)
    (h : σ) (as : List (Attempt σ)) :
    ∃ (a : Attempt σ) (e' : ω) (runId : String) (h₁ : σ) (elapsed : Span) (h₂ : σ),
      (o.surroundings p).run set attempt (e, h, as) = (a.ending, e', a.host, as ++ [a]) ∧
      a.set = set ∧ runId = ((Host.newRunId : StateM σ String) h).1 ∧
      a.engine = (o.engine set attempt runId e h₁).1.1 ∧
      a.ending = ((Run.conclude p runId attempt elapsed a.engine.aggregator :
        StateM σ Run.Ending) h₂).1 := by
  obtain ⟨runId, h₁, elapsed, h₂, hid, haround⟩ := around_eq p o.tell
    (fun runId => o.engine set attempt runId e) (fun y => y.1.aggregator) set attempt h
  rcases hrun : Run.around p o.tell (fun runId => o.engine set attempt runId e)
    (fun y => y.1.aggregator) set attempt h with ⟨⟨ending, x, e'⟩, h'⟩
  rw [hrun] at haround
  obtain ⟨hending, hx⟩ := Prod.mk.inj haround
  rw [← hx] at hending
  refine ⟨⟨set, x, ending, h'⟩, e', runId, h₁, elapsed, h₂, ?_, rfl, hid, ?_, hending⟩
  · simp only [Outside.surroundings, hrun]
  · exact congrArg Prod.fst hx

theorem Outside.run_eq {o : Outside ω σ} {p : Plan} (ho : o.IsEngine p) (hn : NamesOnOneLine σ)
    (set : TaskSet) (attempt : Nat) (e : ω) (h : σ) (as : List (Attempt σ)) :
    ∃ (a : Attempt σ) (e' : ω), (o.surroundings p).run set attempt (e, h, as) =
      (a.ending, e', a.host, as ++ [a]) ∧ a.set = set ∧ a.Ran p := by
  obtain ⟨a, e', runId, h₁, elapsed, h₂, hrun, rfl, hid, hengine, hending⟩ :=
    o.run_eq_conclude p set attempt e h as
  refine ⟨a, e', hrun, rfl, hengine ▸ ho a.set attempt runId e h₁, ?_⟩
  intro r hr
  obtain ⟨hf, log, hlog⟩ := ok_of_conclude (hending.symm.trans hr)
  exact ⟨hf, runId, attempt, elapsed, log, hid ▸ hn h, hlog⟩

/-! ## One attempt after another -/

/-- The attempts from a set on: another one is made only after an outright failure, with the set
that the origins recovered for it make. -/
inductive Course (p : Plan) (full : TaskSet) : TaskSet → List (Attempt σ) → Prop where
  | last {a : Attempt σ} (ha : a.Ran p) : Course p full a.set [a]
  | next {a : Attempt σ} {r : Report} {as : List (Attempt σ)} (ha : a.Ran p)
      (hr : a.ending = .ok r) (hf : r.outcome.isHardFailure = true)
      (h : Course p full (full.next (a.recovered p r) (Attempt.unresolved r)) as) :
      Course p full a.set (a :: as)

theorem bind_apply {τ α β : Type} (x : StateM τ α) (f : α → StateM τ β) (t : τ) :
    (x >>= f) t = f (x t).1 (x t).2 := rfl

/-- Why a session makes no further attempt after a report: the run did not fail outright, no attempt
is left, the session is cancelled, or a wait was cut short. -/
inductive Outside.Stops (o : Outside ω σ) (interval : Span) (left : Nat) (r : Report) : ω → Prop where
  | accepted {e} (hf : r.outcome.isHardFailure = false) : Stops o interval left r e
  | exhausted {e} (hl : left = 0) : Stops o interval left r e
  | cancelled {e} (hc : o.cancelled e = true) : Stops o interval left r e
  | interrupted {e h} (hp : (o.pause interval e h).1.1 = true) :
    Stops o interval left r (o.pause interval e h).1.2

/-- After a run the session stops, or it goes on with another set. -/
theorem runsFrom_cases {o : Outside ω σ} {p : Plan} {full current : TaskSet} {interval : Span}
    {left attempt : Nat} {e e' : ω} {h : σ} {as : List (Attempt σ)} {a : Attempt σ}
    (hrun : (o.surroundings p).run current (attempt + 1) (e, h, as) =
      (a.ending, e', a.host, as ++ [a])) :
    (∃ e'' h', runsFrom (o.surroundings p) full interval (left + 1) attempt current (e, h, as) =
      (a.ending.map (fun r => [r]), e'', h', as ++ [a]) ∧
        ∀ r, a.ending = .ok r → o.Stops interval left r e'') ∨
    ∃ r e'' h', a.ending = .ok r ∧ r.outcome.isHardFailure = true ∧ left ≠ 0 ∧
      runsFrom (o.surroundings p) full interval (left + 1) attempt current (e, h, as) =
        (runsFrom (o.surroundings p) full interval left (attempt + 1)
          (full.next (a.recovered p r) (Attempt.unresolved r)) (e'', h', as ++ [a])).map
          (fun x => x.map (fun rs => r :: rs)) id := by
  rw [runsFrom, bind_apply, hrun]
  cases hr : a.ending with
  | error _ => exact .inl ⟨_, _, rfl, fun r hr => by cases hr⟩
  | ok r =>
      rcases hrecover : (recover p.errors r.outcome : StateM σ (List String)) a.host
        with ⟨origins, h₁⟩
      rcases hpause : o.pause interval e' h₁ with ⟨⟨stop, e₂⟩, h₂⟩
      have hcancelled : (o.surroundings p).cancelled (e', a.host, as ++ [a]) =
          (o.cancelled e', e', a.host, as ++ [a]) := rfl
      have horigins : (o.surroundings p).recover r.outcome (e', a.host, as ++ [a]) =
          (origins, e', h₁, as ++ [a]) := by
        simp only [Outside.surroundings, hrecover]
      have hstop : (o.surroundings p).pause interval (e', h₁, as ++ [a]) =
          (stop, e₂, h₂, as ++ [a]) := by
        simp only [Outside.surroundings, hpause]
      have hrecovered : a.recovered p r = origins := congrArg Prod.fst hrecover
      by_cases hlast : (!r.outcome.isHardFailure || left == 0) = true
      · simp only [if_pos hlast]
        refine .inl ⟨_, _, rfl, ?_⟩
        rintro _ ⟨⟩
        simp only [Bool.or_eq_true, Bool.not_eq_true', beq_iff_eq] at hlast
        rcases hlast with hf | hl
        · exact .accepted hf
        · exact .exhausted hl
      · simp only [if_neg hlast, bind_apply, hcancelled]
        simp only [Bool.or_eq_true, Bool.not_eq_true', beq_iff_eq, not_or, Bool.not_eq_false]
          at hlast
        cases hc : o.cancelled e' with
        | true =>
            refine .inl ⟨_, _, rfl, ?_⟩
            rintro _ ⟨⟩
            exact .cancelled hc
        | false =>
            simp only [Bool.false_eq_true, if_false, bind_apply, horigins, hstop]
            cases stop with
            | true =>
                refine .inl ⟨_, _, rfl, ?_⟩
                rintro _ ⟨⟩
                have hstops : o.Stops interval left r (o.pause interval e' h₁).1.2 :=
                  .interrupted (congrArg (fun out => out.1.1) hpause)
                rw [hpause] at hstops
                exact hstops
            | false =>
                refine .inr ⟨r, e₂, h₂, rfl, hlast.1, hlast.2, ?_⟩
                rw [hrecovered, Attempt.unresolved]
                rcases hnext : runsFrom (o.surroundings p) full interval left (attempt + 1)
                  (full.next origins (r.statistics.failed + r.statistics.skipped))
                  (e₂, h₂, as ++ [a]) with ⟨x, y⟩
                simp only [Bool.false_eq_true, if_false, bind_apply, hnext]
                cases x <;> rfl

theorem Attempt.endings_eq (a : Attempt σ) {rs : List Report}
    (h : a.ending.map (fun r => [r]) = .ok rs) : [a].map Attempt.ending = rs.map .ok := by
  cases hr : a.ending with
  | error _ =>
      rw [hr] at h
      cases h
  | ok r =>
      rw [hr] at h
      cases h
      simp [hr]

/-- The runs that are left make a course, and their reports are what the session gives back. -/
theorem course_of_runsFrom {o : Outside ω σ} {p : Plan} (ho : o.IsEngine p)
    (hn : NamesOnOneLine σ) (full : TaskSet) (interval : Span) (left attempt : Nat)
    (current : TaskSet) (e : ω) (h : σ) (as : List (Attempt σ)) :
    ∃ new result e' h',
      runsFrom (o.surroundings p) full interval (left + 1) attempt current (e, h, as) =
        (result, e', h', as ++ new) ∧ Course p full current new ∧
      ∀ rs, result = .ok rs → new.map Attempt.ending = rs.map .ok := by
  induction left generalizing attempt current e h as with
  | zero =>
      obtain ⟨a, e₁, hrun, rfl, ha⟩ := o.run_eq ho hn current (attempt + 1) e h as
      rcases runsFrom_cases hrun with ⟨e', h', hstop, -⟩ | ⟨r, e', h', -, -, hne, -⟩
      · exact ⟨[a], _, e', h', hstop, .last ha, fun rs hrs => a.endings_eq hrs⟩
      · exact (hne rfl).elim
  | succ left ih =>
      obtain ⟨a, e₁, hrun, rfl, ha⟩ := o.run_eq ho hn current (attempt + 1) e h as
      rcases runsFrom_cases hrun with ⟨e', h', hstop, -⟩ | ⟨r, e', h', hr, hf, -, hmore⟩
      · exact ⟨[a], _, e', h', hstop, .last ha, fun rs hrs => a.endings_eq hrs⟩
      · obtain ⟨new, result, e'', h'', hnext, hcourse, hreports⟩ :=
          ih (attempt + 1) (full.next (a.recovered p r) (Attempt.unresolved r)) e' h' (as ++ [a])
        rw [hnext] at hmore
        refine ⟨a :: new, result.map (fun rs => r :: rs), e'', h'', ?_,
          .next ha hr hf hcourse, ?_⟩
        · rw [hmore, List.append_assoc]
          rfl
        · intro rs hrs
          cases result with
          | error _ => cases hrs
          | ok rs' =>
              cases hrs
              rw [List.map_cons, hreports rs' rfl, hr]
              rfl

/-- The attempts of a session make a course from the full set, and the reports that the session
gives back are those of its attempts. -/
theorem Outside.course {o : Outside ω σ} {p : Plan} (ho : o.IsEngine p) (hn : NamesOnOneLine σ)
    (s : RetrySettings) (full : TaskSet) (e : ω) (h : σ) :
    Course p full full (o.session p s full e h).2 ∧
      ∀ rs, (o.session p s full e h).1 = .ok rs →
        (o.session p s full e h).2.map Attempt.ending = rs.map .ok := by
  obtain ⟨left, hleft⟩ : ∃ left, max s.maxAttempts 1 = left + 1 :=
    ⟨max s.maxAttempts 1 - 1, by omega⟩
  obtain ⟨new, result, e', h', hruns, hcourse, hreports⟩ :=
    course_of_runsFrom ho hn full s.interval left 0 full e h []
  have hsession : o.session p s full e h = (result, new) := by
    rw [Outside.session, runs, start, hleft, hruns]
    rfl
  rw [hsession]
  exact ⟨hcourse, hreports⟩

/-! ## On a machine in memory -/

/-- An engine that takes given steps in each attempt, or none if these are not possible. Nobody
listens or cancels, and no time passes. -/
def Outside.scripted (p : Plan) (steps : Nat → List Engine.Label) : Outside Unit Machine where
  engine set attempt _ _ :=
    let start := Engine.State.start p.settings set p.skipPolicy false
    pure ((Engine.steps? p.settings start (steps attempt)).getD start, ())
  tell _ _ := pure ()
  cancelled _ := false
  pause _ _ := pure (false, ())

theorem Outside.isEngine_scripted (p : Plan) (steps : Nat → List Engine.Label) :
    (scripted p steps).IsEngine p := by
  intro set attempt runId e h
  refine ⟨false, ?_⟩
  cases hx : Engine.steps? p.settings (Engine.State.start p.settings set p.skipPolicy false)
    (steps attempt) with
  | none =>
      simp only [scripted, hx]
      exact .start
  | some x =>
      simp only [scripted, hx]
      exact Engine.Reachable.start.of_steps? hx

theorem namesOnOneLine_machine : NamesOnOneLine Machine := by
  intro h
  have hname : ((Host.newRunId : StateM Machine String) h).1 = "run-" ++ toString (h.runs + 1) :=
    rfl
  rw [hname]
  simp [ErrorLog.newline_not_mem_toDigits]

end ImageBatch.Session
