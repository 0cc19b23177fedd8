import ImageBatch.Proofs.Engine.Stream

/-!
# The statistics of a finished aggregator

Whatever results come in and whatever is asked in between, once the aggregator is finished its
statistics account for every task of the set.
-/

namespace ImageBatch

/-! ## The aggregator and its surroundings -/

namespace Aggregator

/-- An aggregator with what waits for it and all the results that came for it, newest first. -/
structure Intake where
  aggregator : Aggregator
  inbox : Inbox
  sent : List Result

inductive Input where
  | result (r : Result)
  | query (q : Query)
  /-- No more results will come. -/
  | close
  /-- The aggregator moves on. -/
  | step

namespace Intake

def start (set : TaskSet) (policy : SkipPolicy) : Intake :=
  ⟨.start set policy, ⟨[], true, []⟩, []⟩

/-- A result can come while the stream is open and the aggregator has not returned. -/
def step? (x : Intake) : Input → Option Intake
  | .result r =>
    if x.inbox.resultsOpen && !x.aggregator.hasEnded then
      some { x with
        inbox := { x.inbox with results := x.inbox.results ++ [r] }, sent := r :: x.sent }
    else none
  | .query q => some { x with inbox := { x.inbox with queries := x.inbox.queries ++ [q] } }
  | .close => some { x with inbox := { x.inbox with resultsOpen := false } }
  | .step => (x.aggregator.step? x.inbox).map fun (a, i, _) => { x with aggregator := a, inbox := i }

def steps? (x : Intake) : List Input → Option Intake
  | [] => some x
  | l :: ls => (x.step? l).bind (fun y => steps? y ls)

variable {set : TaskSet} {policy : SkipPolicy} {x y : Intake} {l : Input} {ls : List Input}

/-- Nothing is taken in but what was sent, and never more than one result for each task. -/
structure Keeps (set : TaskSet) (policy : SkipPolicy) (x : Intake) : Prop where
  stream : Engine.Stream set policy x.aggregator x.inbox x.sent
  received_le : x.aggregator.tally.received ≤ set.tasks.length

theorem start_keeps (set : TaskSet) (policy : SkipPolicy) : (start set policy).Keeps set policy :=
  ⟨Engine.Stream.of_settledPhase rfl rfl ⟨[], rfl, rfl⟩ rfl, Nat.zero_le _⟩

theorem Keeps.step (hx : x.Keeps set policy) (hs : x.step? l = some y) : y.Keeps set policy := by
  have hstream := hx.stream
  cases l with
  | result r =>
      simp only [step?, Option.ite_none_right_eq_some, Bool.and_eq_true, Bool.not_eq_true',
        Option.some.injEq] at hs
      obtain ⟨⟨-, he⟩, rfl⟩ := hs
      exact ⟨hstream.send he r, hx.received_le⟩
  | query q =>
      cases hs
      exact ⟨⟨hstream.set_eq, hstream.policy_eq, hstream.taken, hstream.finished, hstream.missing,
        hstream.incomplete⟩, hx.received_le⟩
  | close =>
      cases hs
      exact ⟨hstream.close, hx.received_le⟩
  | step =>
      simp only [step?, Option.map_eq_some_iff] at hs
      obtain ⟨⟨a, i, reply⟩, ha, rfl⟩ := hs
      have hm := steps_of_step? ha
      refine ⟨hstream.step hm, ?_⟩
      cases hm with
      | take hp => exact hstream.missing (by simp [hp]) (by simp [hp])
      | catchUp hp hr hlt => exact hstream.expected_eq ▸ hlt
      | listen | breakOff | hear | rest | wake | answer => exact hx.received_le

theorem Keeps.steps (hx : x.Keeps set policy) (hs : x.steps? ls = some y) : y.Keeps set policy := by
  induction ls generalizing x with
  | nil =>
      cases hs
      exact hx
  | cons l ls ih =>
      simp only [steps?, Option.bind_eq_some_iff] at hs
      obtain ⟨z, hz, hs⟩ := hs
      exact ih (hx.step hz) hs

/-- Whatever comes for the aggregator and in whatever order, once it is finished its statistics
balance, and its lists tell of the results that came first, one for each task. -/
theorem balances_of_finished (hs : (start set policy).steps? ls = some x)
    (hf : x.aggregator.phase = .finished) :
    let t := x.aggregator.tally
    let n := t.statistics
    t.Balances ∧ n.total = set.tasks.length ∧
      n.total = n.succeeded + n.failed + n.skipped + n.bypassed ∧
      t.errors.length = n.failed + n.skipped ∧
      n.failuresInAll = n.failed ∧ n.succeeded ≤ n.total - n.bypassed ∧
      ∃ taken, taken <+: x.sent.reverse ∧ taken.length = set.tasks.length ∧
        t.succeeded = (taken.filter Result.isSuccess).map Result.task ∧
        t.errors = taken.filterMap (Tally.record? set) := by
  have hx := (start_keeps set policy).steps hs
  obtain ⟨taken, hsent, htally⟩ := hx.stream.taken
  have hbalances : x.aggregator.tally.Balances := by
    rw [htally]
    exact (Tally.balances_start set).addAll set taken
  have hreceived : x.aggregator.tally.received = set.tasks.length :=
    Nat.le_antisymm hx.received_le (hx.stream.finished hf)
  have htotal : x.aggregator.tally.statistics.total = set.tasks.length := by
    rw [htally, Tally.total_addAll]
    rfl
  have hsum := hbalances.received
  refine ⟨hbalances, htotal, ?_, hbalances.length_errors, hbalances.failuresInAll, ?_, taken,
    ⟨_, hsent.symm⟩, ?_, ?_, ?_⟩
  · omega
  · omega
  · rw [htally, Tally.received_addAll, Tally.received_start, Nat.zero_add] at hreceived
    exact hreceived
  · rw [htally, Tally.succeeded_addAll]
    rfl
  · rw [htally, Tally.errors_addAll]
    rfl

def fourImages : TaskSet := .ofTasks (["a", "b", "c", "d"].map Engine.plainImage)

/-- One image of each ending. The failure comes while a question is to be answered. -/
def oneOfEach : List Input :=
  [.result (.success (Engine.plainImage "c") 1), .step, .step, .query .records, .step,
    .result (.failure (Engine.plainImage "a") ⟨.network, "timeout"⟩ 3), .step, .step,
    .result (.skip (Engine.plainImage "d") (some "a")), .step,
    .result (.skip (Engine.plainImage "b") none), .close, .step]

theorem balances_of_oneOfEach :
    ∃ x, (start fourImages ⟨.mirrorToMirror, false⟩).steps? oneOfEach = some x ∧
      x.aggregator.phase = .finished ∧ x.aggregator.tally.Balances ∧
      x.aggregator.tally.statistics.total = 4 ∧
      x.aggregator.tally.errors.length =
        x.aggregator.tally.statistics.failed + x.aggregator.tally.statistics.skipped := by
  have hrun : ((start fourImages ⟨.mirrorToMirror, false⟩).steps? oneOfEach).map
      (fun x => x.aggregator.phase) = some .finished := by
    decide +kernel
  obtain ⟨x, hx, hf⟩ := Option.map_eq_some_iff.mp hrun
  obtain ⟨hbalances, htotal, -, hlength, -⟩ := balances_of_finished hx hf
  exact ⟨x, hx, hf, hbalances, htotal, hlength⟩

end Intake

end Aggregator

end ImageBatch
