import ImageBatch.Aggregator

/-!
# What the aggregator can do

The steps of the aggregator as rules. Whatever holds after every rule holds after every step.
-/

namespace ImageBatch

/-- Something has arrived for an aggregator that sleeps, or nothing more will come. -/
def Inbox.stirs (i : Inbox) : Prop := ¬ (i.results = [] ∧ i.resultsOpen = true ∧ i.queries = [])

instance (i : Inbox) : Decidable i.stirs := inferInstanceAs (Decidable (¬ _))

theorem Inbox.stirs_of_query {i : Inbox} (hq : i.queries ≠ []) : i.stirs :=
  fun hnone => hq hnone.2.2

namespace Aggregator

/-- The rules by which the aggregator moves on, and the answer that it gives. -/
inductive Steps (a : Aggregator) (i : Inbox) : Aggregator → Inbox → Option Reply → Prop where
  | take {r rs} (hp : a.phase = .polling) (hr : i.results = r :: rs) :
    Steps a i (a.take r) { i with results := rs } none
  | listen (hp : a.phase = .polling) (hr : i.results = []) (ho : i.resultsOpen = true) :
    Steps a i { a with phase := .listening } i none
  | breakOff (hp : a.phase = .polling) (hr : i.results = []) (ho : i.resultsOpen = false) :
    Steps a i { a with phase := .incomplete } i none
  | hear {q qs} (hp : a.phase = .listening) (hq : i.queries = q :: qs) :
    Steps a i { a with phase := .answering q } { i with queries := qs } none
  | rest (hp : a.phase = .listening) (hq : i.queries = []) :
    Steps a i { a with phase := .asleep } i none
  | wake (hp : a.phase = .asleep) (hi : i.stirs) :
    Steps a i { a with phase := .polling } i none
  | catchUp {q r rs} (hp : a.phase = .answering q) (hr : i.results = r :: rs)
      (hlt : a.tally.received < a.expected) :
    Steps a i (a.takeQuietly r) { i with results := rs } none
  | answer {q} (hp : a.phase = .answering q)
      (hi : i.results = [] ∨ a.expected ≤ a.tally.received) :
    Steps a i { a with phase := settledPhase a.tally.received a.expected } i (some (a.answer q))

theorem steps_of_step? {a b : Aggregator} {i j : Inbox} {reply : Option Reply}
    (h : a.step? i = some (b, j, reply)) : Steps a i b j reply := by
  unfold step? at h
  split at h
  · rename_i hp
    split at h
    · rename_i hr
      cases h
      exact .take hp hr
    · rename_i hr
      split at h
      · rename_i ho
        cases h
        exact .listen hp hr ho
      · rename_i ho
        cases h
        exact .breakOff hp hr (by simpa using ho)
  · rename_i hp
    split at h
    · rename_i hq
      cases h
      exact .hear hp hq
    · rename_i hq
      cases h
      exact .rest hp hq
  · rename_i hp
    split at h
    · cases h
    · rename_i hi
      cases h
      exact .wake hp (by simpa [Inbox.stirs] using hi)
  · rename_i q hp
    split at h
    · rename_i r rs hr
      split at h
      · rename_i hlt
        cases h
        exact .catchUp hp hr hlt
      · rename_i hlt
        cases h
        exact .answer hp (.inr (by omega))
    · rename_i hr
      cases h
      exact .answer hp (.inl hr)
  · cases h
  · cases h

/-- The aggregator stands still only when it has returned, or when it sleeps and nothing has
arrived. -/
theorem exists_step? {a : Aggregator} {i : Inbox} (he : a.hasEnded = false)
    (hw : a.phase = .asleep → i.stirs) : ∃ b j reply, a.step? i = some (b, j, reply) := by
  unfold step?
  split
  · split
    · exact ⟨_, _, _, rfl⟩
    · split <;> exact ⟨_, _, _, rfl⟩
  · split <;> exact ⟨_, _, _, rfl⟩
  · rename_i hp
    have hstirs : ¬ (i.results.isEmpty && i.resultsOpen && i.queries.isEmpty) = true := by
      simpa [Inbox.stirs] using hw hp
    rw [if_neg hstirs]
    exact ⟨_, _, _, rfl⟩
  · split
    · split <;> exact ⟨_, _, _, rfl⟩
    · exact ⟨_, _, _, rfl⟩
  · rename_i hp
    simp [hasEnded, hp] at he
  · rename_i hp
    simp [hasEnded, hp] at he

/-- How many steps at most there are between a phase and an answer when no results come in. -/
def Phase.distance : Phase → Nat
  | .asleep => 3
  | .polling => 2
  | .listening => 1
  | .answering _ => 0
  | .finished => 0
  | .incomplete => 0

theorem distance_settledPhase_le (n m : Nat) : (settledPhase n m).distance ≤ 2 := by
  unfold settledPhase
  split <;> decide

/-- How many steps at most the aggregator takes before it answers a question that waits. -/
def distance (a : Aggregator) (i : Inbox) : Nat := i.results.length + a.phase.distance

/-- While a question waits, every step of the aggregator leads nearer to the answer. -/
theorem Steps.distance_lt {a b : Aggregator} {i j : Inbox} {reply : Option Reply}
    (h : a.Steps i b j reply) (hq : a.phase = .listening → i.queries ≠ []) :
    reply.isSome = true ∨ b.distance j < a.distance i := by
  cases h with
  | @take r rs hp hr =>
      right
      have hle := distance_settledPhase_le (a.tally.add a.set r).received a.expected
      simp only [distance, hp, hr, List.length_cons, Phase.distance]
      exact Nat.add_lt_add_of_lt_of_le (Nat.lt_succ_self _) hle
  | rest hp hnone => exact (hq hp hnone).elim
  | answer hp hi => exact .inl rfl
  | listen hp | breakOff hp | hear hp | wake hp =>
      right
      simp [distance, hp, Phase.distance]
  | catchUp hp hr hlt =>
      right
      simp [distance, takeQuietly, hp, hr, Phase.distance]

end Aggregator

end ImageBatch
