import ImageBatch.Proofs.Engine.Account
import ImageBatch.Proofs.Tally

/-!
# The stream of results

What the aggregator has taken in and what waits for it are together what was sent, in order. It does
not return while a task has no result, so no result is sent in vain, and an answer reflects all that
was sent before the question.
-/

namespace ImageBatch.Engine

variable {s : Settings} {set : TaskSet} {policy : SkipPolicy} {cancelled : Bool} {x y : State}
  {l : Label}

/-! ## The end of the stream -/

/-- The stream is closed by a dispatcher that is gone. -/
def State.ClosesLate (x : State) : Prop :=
  x.inbox.resultsOpen = false → x.dispatch = .ended ∨ x.dispatch = .broken

theorem Dispatches.closesLate (h : Dispatches x y) (hx : x.ClosesLate) : y.ClosesLate := by
  intro ho
  cases h with
  | finish hd hf hw => exact .inl rfl
  | close hd ho => exact .inr hd
  | forward hd | recover hd | forget hd =>
      rcases hx ho with he | he <;> rw [he] at hd <;> cases hd
  | spawn hl =>
      have hh := hl.held
      rcases hx ho with he | he <;> rw [he] at hh <;> cases hh
  | takeUp hd | runOut hd | giveUp hd | goOn hd | noneOver hd | acquire hd | fallAsleep hd | wake hd
  | ask hd | bypass hd | skip hd | deliver hd | deliverInVain hd | discard hd | discarded hd =>
      rcases hx ho with he | he <;> cases hd.symm.trans he

theorem resultsOpen_of_steps {a b : Aggregator} {i j : Inbox} {reply : Option Reply}
    (h : a.Steps i b j reply) : j.resultsOpen = i.resultsOpen := by
  cases h <;> rfl

theorem Reachable.closesLate (h : Reachable s set policy cancelled x) : x.ClosesLate := by
  refine Reachable.induction (P := State.ClosesLate) ?_ ?_ h
  · simp [State.ClosesLate, State.start]
  · intro x l y hx ih hm
    cases hm with
    | cancel hc => exact ih
    | dispatcher hm => exact hm.closesLate ih
    | aggregator hm =>
        intro ho
        exact ih ((resultsOpen_of_steps hm).symm.trans ho)
    | worker hm => cases hm <;> exact ih

/-! ## What the aggregator has taken in -/

/-- The results that were sent are those that the aggregator has taken in and those that wait for
it. It returns when every result is in, or when the stream is closed. -/
structure Stream (set : TaskSet) (policy : SkipPolicy) (a : Aggregator) (i : Inbox)
    (sent : List Result) : Prop where
  set_eq : a.set = set
  policy_eq : a.policy = policy
  taken : ∃ taken, sent.reverse = taken ++ i.results ∧
    a.tally = (Tally.start set).addAll set taken
  finished : a.phase = .finished → set.tasks.length ≤ a.tally.received
  missing : a.phase ≠ .finished → (∀ q, a.phase ≠ .answering q) →
    a.tally.received < set.tasks.length
  incomplete : a.phase = .incomplete → i.resultsOpen = false ∧ i.results = []

namespace Stream

variable {a b : Aggregator} {i j : Inbox} {sent : List Result} {reply : Option Reply}

theorem received_le (h : Stream set policy a i sent) : a.tally.received ≤ sent.length := by
  obtain ⟨taken, hsent, htally⟩ := h.taken
  have hlen := congrArg List.length hsent
  rw [List.length_reverse, List.length_append] at hlen
  rw [htally, Tally.received_addAll, Tally.received_start]
  omega

theorem expected_eq (h : Stream set policy a i sent) : a.expected = set.tasks.length := by
  rw [Aggregator.expected, h.set_eq]

theorem settledPhase_eq (n m : Nat) :
    Aggregator.settledPhase n m = .polling ∧ n < m ∨
      Aggregator.settledPhase n m = .finished ∧ m ≤ n := by
  unfold Aggregator.settledPhase
  split
  · rename_i hlt
    exact .inl ⟨rfl, hlt⟩
  · rename_i hle
    exact .inr ⟨rfl, by omega⟩

theorem of_settledPhase (hset : a.set = set) (hpolicy : a.policy = policy)
    (htaken : ∃ taken, sent.reverse = taken ++ i.results ∧
      a.tally = (Tally.start set).addAll set taken)
    (hp : a.phase = Aggregator.settledPhase a.tally.received set.tasks.length) :
    Stream set policy a i sent := by
  rcases settledPhase_eq a.tally.received set.tasks.length with ⟨he, hlt⟩ | ⟨he, hle⟩
  · rw [he] at hp
    exact ⟨hset, hpolicy, htaken, by simp [hp], fun _ _ => hlt, by simp [hp]⟩
  · rw [he] at hp
    exact ⟨hset, hpolicy, htaken, fun _ => hle, fun hne => (hne hp).elim, by simp [hp]⟩

theorem send (h : Stream set policy a i sent) (he : a.hasEnded = false) (r : Result) :
    Stream set policy a { i with results := i.results ++ [r] } (r :: sent) := by
  obtain ⟨taken, hsent, htally⟩ := h.taken
  refine ⟨h.set_eq, h.policy_eq, ⟨taken, ?_, htally⟩, h.finished, h.missing, ?_⟩
  · rw [List.reverse_cons, hsent, List.append_assoc]
  · intro hi
    simp [Aggregator.hasEnded, hi] at he

theorem close (h : Stream set policy a i sent) :
    Stream set policy a { i with resultsOpen := false } sent :=
  ⟨h.set_eq, h.policy_eq, h.taken, h.finished, h.missing, fun hi => ⟨rfl, (h.incomplete hi).2⟩⟩

/-- The aggregator takes in the results in the order of the stream. -/
theorem takeIn (h : Stream set policy a i sent) {r : Result} {rs : List Result}
    (hr : i.results = r :: rs) : ∃ taken, sent.reverse = taken ++ rs ∧
      a.tally.add a.set r = (Tally.start set).addAll set taken := by
  obtain ⟨taken, hsent, htally⟩ := h.taken
  refine ⟨taken ++ [r], ?_, ?_⟩
  · rw [hsent, hr, List.append_assoc, List.singleton_append]
  · rw [htally, h.set_eq, Tally.addAll_concat]

theorem step (h : Stream set policy a i sent) (hs : a.Steps i b j reply) :
    Stream set policy b j sent := by
  cases hs with
  | take hp hr =>
      refine of_settledPhase h.set_eq h.policy_eq (h.takeIn hr) ?_
      rw [← h.expected_eq]
      rfl
  | listen hp | rest hp | wake hp =>
      have hlt := h.missing (by simp [hp]) (by simp [hp])
      exact ⟨h.set_eq, h.policy_eq, h.taken, by simp, fun _ _ => hlt, by simp⟩
  | breakOff hp hr ho =>
      have hlt := h.missing (by simp [hp]) (by simp [hp])
      exact ⟨h.set_eq, h.policy_eq, h.taken, by simp, fun _ _ => hlt, fun _ => ⟨ho, hr⟩⟩
  | hear hp hq => exact ⟨h.set_eq, h.policy_eq, h.taken, by simp, by simp, by simp⟩
  | catchUp hp hr hlt =>
      exact ⟨h.set_eq, h.policy_eq, h.takeIn hr, by simp [Aggregator.takeQuietly, hp],
        by simp [Aggregator.takeQuietly, hp], by simp [Aggregator.takeQuietly, hp]⟩
  | answer hp hi =>
      refine of_settledPhase h.set_eq h.policy_eq h.taken ?_
      rw [← h.expected_eq]

end Stream

def State.HasStream (set : TaskSet) (policy : SkipPolicy) (x : State) : Prop :=
  Stream set policy x.aggregator x.inbox x.sent

theorem State.HasStream.hasEnded_eq_false (hx : x.HasStream set policy)
    (ha : x.account.Perm set.tasks) (hc : x.ClosesLate) (hh : x.dispatch.held ≠ []) :
    x.aggregator.hasEnded = false := by
  have hlen := ha.length_eq
  simp only [State.account, List.length_append, List.length_map] at hlen
  have hpos := List.length_pos_iff.mpr hh
  have hle := hx.received_le
  unfold Aggregator.hasEnded
  rw [Bool.or_eq_false_iff]
  refine ⟨?_, ?_⟩
  · refine beq_false_of_ne fun hf => ?_
    have hin := hx.finished hf
    omega
  · refine beq_false_of_ne fun hi => ?_
    rcases hc (hx.incomplete hi).1 with he | he <;> rw [he] at hh <;> exact hh rfl

theorem Dispatches.hasStream (h : Dispatches x y) (hx : x.HasStream set policy)
    (ha : x.account.Perm set.tasks) (hc : x.ClosesLate) : y.HasStream set policy := by
  cases h with
  | ask hd he hr => exact ⟨hx.set_eq, hx.policy_eq, hx.taken, hx.finished, hx.missing, hx.incomplete⟩
  | deliver hd he hr => exact hx.send he _
  | deliverInVain hd he =>
      rw [hx.hasEnded_eq_false ha hc (by rw [hd]; simp)] at he
      cases he
  | finish hd hf hw => exact hx.close
  | close hd ho => exact hx.close
  | _ => exact hx

theorem Reachable.hasStream (h : Reachable s set policy cancelled x) :
    x.HasStream set policy := by
  refine Reachable.induction (P := State.HasStream set policy) ?_ ?_ h
  · exact Stream.of_settledPhase rfl rfl ⟨[], rfl, rfl⟩ rfl
  · intro x l y hx ih hm
    cases hm with
    | cancel hc => exact ih
    | dispatcher hm => exact hm.hasStream ih hx.account_perm hx.closesLate
    | aggregator hm => exact ih.step hm
    | worker hm => cases hm <;> exact ih

/-- In every run the aggregator listens while the dispatcher holds a task. -/
theorem Reachable.hasEnded_eq_false (h : Reachable s set policy cancelled x)
    (hh : x.dispatch.held ≠ []) : x.aggregator.hasEnded = false :=
  h.hasStream.hasEnded_eq_false h.account_perm h.closesLate hh

/-- Once the aggregator has every result, nobody has a task, and the tally is that of all results in
the order in which they were sent. -/
theorem Reachable.tally_of_finished (h : Reachable s set policy cancelled x)
    (hf : x.aggregator.phase = .finished) :
    (x.sent.map Result.task).Perm set.tasks ∧ x.dispatch.held = [] ∧ x.inFlight = [] ∧
      x.pending = [] ∧ x.aggregator.tally = (Tally.start set).addAll set x.sent.reverse := by
  have hx := h.hasStream
  have hlen := h.account_perm.length_eq
  simp only [State.account, List.length_append, List.length_map] at hlen
  have hin := hx.finished hf
  have hle := hx.received_le
  have hheld : x.dispatch.held = [] := List.eq_nil_of_length_eq_zero (by omega)
  have hflight : x.inFlight = [] := List.eq_nil_of_length_eq_zero (by omega)
  have hpending : x.pending = [] := List.eq_nil_of_length_eq_zero (by omega)
  refine ⟨?_, hheld, hflight, hpending, ?_⟩
  · have hperm := h.account_perm
    simpa [State.account, hheld, hflight, hpending] using hperm
  · obtain ⟨taken, hsent, htally⟩ := hx.taken
    have hrest : x.inbox.results = [] := by
      rw [htally, Tally.received_addAll, Tally.received_start] at hin
      have hlen' := congrArg List.length hsent
      rw [List.length_reverse, List.length_append] at hlen'
      exact List.eq_nil_of_length_eq_zero (by omega)
    rw [htally, hsent, hrest, List.append_nil]

/-! ## One result for each task -/

theorem Reachable.inFlight_of_ended (h : Reachable s set policy cancelled x)
    (he : x.dispatch = .ended) : x.inFlight = [] := by
  obtain ⟨hworkers, hfinished⟩ := h.windsDown.workers he
  have hids := h.hasRoster.ids
  rw [hworkers, hfinished] at hids
  exact List.map_eq_nil_iff.mp hids.symm.eq_nil

theorem Reachable.results_of_ended (h : Reachable s set policy cancelled x)
    (he : x.dispatch = .ended) : (x.sent.map Result.task).Perm set.tasks := by
  have hpending := h.windsDown.pending (by rw [he]; rfl)
  have hheld : x.dispatch.held = [] := by rw [he]; rfl
  have hperm := h.account_perm
  simpa [State.account, hheld, h.inFlight_of_ended he, hpending] using hperm

/-- Whatever the tool does, whenever the run is cancelled and in whatever order everybody moves:
once the dispatcher has ended, the results on the stream are about the tasks of the set, each as
often as it is there, and the aggregator gets these results and no others. -/
theorem Reachable.sent_perm_of_ended (h : Reachable s set policy cancelled x)
    (he : x.dispatch = .ended) : (x.sent.map Result.task).Perm set.tasks ∧
      ∃ taken, x.sent.reverse = taken ++ x.inbox.results ∧
        x.aggregator.tally = (Tally.start set).addAll set taken :=
  ⟨h.results_of_ended he, h.hasStream.taken⟩

/-- An image that nobody needs. -/
def plainImage (origin : String) : Task := ⟨origin, origin, origin, .additional, none, ∅, ∅⟩

def threeImages : TaskSet := .ofTasks [plainImage "a", plainImage "b", plainImage "c"]

/-- One slot and one call for each task. -/
def frugal : Settings := ⟨0, 1, ⟨0⟩, .mirrorToMirror, ⟨none, true, none, ⟨0⟩, []⟩⟩

def repeatedOrigin : TaskSet := .ofTasks [plainImage "a", plainImage "a", plainImage "b"]

/-- A bundle behind an image that it needs, and an image that nobody needs. -/
def bundleBehind : TaskSet := .ofTasks [
  { plainImage "a" with bundles := .ofList ["b"] },
  { plainImage "b" with kind := .operatorBundle },
  plainImage "c"]

/-- So many steps of each label in turn. -/
def timing (rounds : List (Nat × Label)) : List Label :=
  rounds.flatMap (fun r => List.replicate r.1 r.2)

/-- One origin is listed twice. The worker of the first task breaks off, and the run is cancelled
during the second call. -/
theorem sent_perm_of_repeated_origin :
    ∃ x, Reachable frugal repeatedOrigin ⟨.mirrorToMirror, false⟩ false x ∧ x.dispatch = .ended ∧
      (x.sent.map Result.task).Perm repeatedOrigin.tasks := by
  have hrun : ((steps? frugal (State.start frugal repeatedOrigin ⟨.mirrorToMirror, false⟩ false)
      (timing [(2, .aggregator), (5, .dispatcher), (6, .aggregator), (1, .dispatcher),
        (1, .begin 0), (1, .answer 0 (.panic "broken")), (1, .settle 0), (4, .dispatcher),
        (4, .aggregator), (4, .dispatcher), (6, .aggregator), (1, .dispatcher), (1, .begin 1),
        (1, .cancel), (1, .answer 1 .success), (1, .settle 1), (3, .dispatcher), (4, .aggregator),
        (3, .dispatcher), (2, .aggregator), (1, .dispatcher)])).map State.dispatch) =
      some .ended := by
    decide +kernel
  obtain ⟨x, hx, he⟩ := Option.map_eq_some_iff.mp hrun
  have hreach := Reachable.start.of_steps? hx
  exact ⟨x, hreach, he, (hreach.sent_perm_of_ended he).1⟩

/-- The aggregator gets every result of a dispatcher that ends, so it breaks off only if there is
none. -/
theorem Reachable.broken_of_incomplete (h : Reachable s set policy cancelled x)
    (hi : x.aggregator.phase = .incomplete) : x.dispatch = .broken := by
  have hx := h.hasStream
  obtain ⟨hopen, hrest⟩ := hx.incomplete hi
  rcases h.closesLate hopen with he | he
  · have hmissing := hx.missing (by simp [hi]) (by simp [hi])
    have hlen := (h.results_of_ended he).length_eq
    obtain ⟨taken, hsent, htally⟩ := hx.taken
    have htaken := congrArg List.length hsent
    rw [htally, Tally.received_addAll, Tally.received_start] at hmissing
    rw [hrest, List.append_nil, List.length_reverse] at htaken
    rw [List.length_map] at hlen
    omega
  · exact he

end ImageBatch.Engine
