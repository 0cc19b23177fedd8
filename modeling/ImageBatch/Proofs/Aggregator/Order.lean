import ImageBatch.Proofs.Aggregator.Balance
import ImageBatch.Proofs.Sorted.Canonical
import ImageBatch.Verdict

/-!
# Results in any order

Results are counted in the order in which they come, but the order does not count: two results that
change places leave the statistics as they are. So runs that take in the same results end in the
same statistics and the same verdict, and their lists differ in nothing but order.
-/

namespace ImageBatch

/-! ## Changes that change places -/

namespace SortedMap

variable {κ α : Type} [Ord κ] [Std.TransOrd κ] [Std.LawfulEqOrd κ] {m : SortedMap κ α} {k k' : κ}

theorem alter_comm {f f' : Option α → α}
    (h : ∀ o, f' (some (f o)) = f (some (f' o))) :
    (m.alter k f).alter k' f' = (m.alter k' f').alter k f := by
  apply eq_of_get?_eq
  intro i
  simp only [get?_alter, Std.compare_eq_iff_eq]
  by_cases hk : k = k'
  · subst hk
    by_cases hi : i = k <;> simp [hi, h]
  · by_cases hi : i = k
    · simp [hi, hk]
    · simp [hi, Ne.symm hk]

theorem alter_modify_comm {f : Option α → α} {g : α → α}
    (hsome : ∀ a, g (f (some a)) = f (some (g a))) (hnone : g (f none) = f none) :
    (m.alter k f).modify k' g = (m.modify k' g).alter k f := by
  apply eq_of_get?_eq
  intro i
  simp only [get?_alter, get?_modify, Std.compare_eq_iff_eq]
  by_cases hk : k' = k
  · subst hk
    by_cases hi : i = k'
    · subst hi
      cases hm : m.get? i <;> simp [hsome, hnone]
    · simp [hi, Ne.symm hi]
  · by_cases hi : i = k
    · simp [hi, hk]
    · simp [hi]

theorem modify_comm {g g' : α → α} (h : ∀ a, g' (g a) = g (g' a)) :
    (m.modify k g).modify k' g' = (m.modify k' g').modify k g := by
  apply eq_of_get?_eq
  intro i
  simp only [get?_modify, Std.compare_eq_iff_eq]
  by_cases hk : k = i <;> by_cases hk' : k' = i <;> simp [hk, hk', Function.comp_def, h]

end SortedMap

namespace Tally

/-- Two endings are counted alike in either order. A success may enter a kind that is not expected,
and a bypass passes over such a kind; in both orders nothing is expected of it. -/
theorem count_comm (n : Statistics) (k k' : ImageKind) (e e' : Ending) :
    count (count n k e) k' e' = count (count n k' e') k e := by
  rcases e with _ | f | _ | reason <;> rcases e' with _ | f' | _ | reason'
  all_goals try rfl
  · simp only [count]
    rw [SortedMap.alter_comm fun o => rfl]
  · simp only [count]
    rw [SortedMap.alter_modify_comm (fun a => rfl) rfl]
  · simp only [count]
    rw [SortedMap.alter_comm fun o => rfl, Nat.add_right_comm n.critical]
  · simp only [count]
    rw [SortedMap.alter_modify_comm (fun a => rfl) rfl]
  · simp only [count]
    rw [SortedMap.modify_comm fun a => rfl]

theorem statistics_addAll (s : TaskSet) (t : Tally) (rs : List Result) :
    (t.addAll s rs).statistics =
      rs.foldl (fun n r => count n r.task.kind r.ending) t.statistics := by
  induction rs generalizing t with
  | nil => rfl
  | cons r rs ih =>
      rw [addAll_cons, ih]
      rfl

variable (s : TaskSet) (t : Tally) {rs rs' : List Result}

theorem statistics_perm (h : rs.Perm rs') :
    (t.addAll s rs).statistics = (t.addAll s rs').statistics := by
  rw [statistics_addAll, statistics_addAll]
  exact h.foldl_eq' (fun r _ r' _ n => count_comm n r.task.kind r'.task.kind r.ending r'.ending) _

theorem succeeded_perm (h : rs.Perm rs') :
    (t.addAll s rs).succeeded.Perm (t.addAll s rs').succeeded := by
  rw [succeeded_addAll, succeeded_addAll]
  exact ((h.filter _).map _).append_left _

theorem errors_perm (h : rs.Perm rs') :
    (t.addAll s rs).errors.Perm (t.addAll s rs').errors := by
  rw [errors_addAll, errors_addAll]
  exact (h.filterMap _).append_left _

end Tally

theorem Policy.judge_elapsed (p : Policy) (n : Statistics) (d d' : Span) :
    p.judge { n with elapsed := d } = p.judge { n with elapsed := d' } := rfl

/-! ## Aggregators -/

namespace Aggregator.Intake

variable {set : TaskSet} {policy policy' : SkipPolicy} {x x' : Intake} {ls ls' : List Input}

/-- The results that came first, one for each task. -/
def accepted (set : TaskSet) (x : Intake) : List Result := x.sent.reverse.take set.tasks.length

theorem Keeps.received_of_finished (h : x.Keeps set policy)
    (hf : x.aggregator.phase = .finished) : x.aggregator.tally.received = set.tasks.length :=
  Nat.le_antisymm h.received_le (h.stream.finished hf)

theorem Keeps.tally_of_finished (h : x.Keeps set policy) (hf : x.aggregator.phase = .finished) :
    x.aggregator.tally = (Tally.start set).addAll set (x.accepted set) := by
  obtain ⟨taken, hsent, htally⟩ := h.stream.taken
  have hreceived := h.received_of_finished hf
  rw [htally, Tally.received_addAll, Tally.received_start, Nat.zero_add] at hreceived
  have haccepted : x.accepted set = taken := by
    rw [accepted, hsent, ← hreceived, List.take_left]
  rw [haccepted, htally]

/-- Two aggregators of one task set that take in the same results, in whatever order and whatever
is asked in between, come to the same statistics and so to the same verdict, however long each took.
Their lists have the same entries. -/
theorem tells_alike_of_perm (hs : (start set policy).steps? ls = some x)
    (hs' : (start set policy').steps? ls' = some x') (hf : x.aggregator.phase = .finished)
    (hf' : x'.aggregator.phase = .finished) (hp : (x.accepted set).Perm (x'.accepted set)) :
    let t := x.aggregator.tally
    let t' := x'.aggregator.tally
    t.statistics = t'.statistics ∧
      (∀ (p : Policy) (d d' : Span),
        p.judge { t.statistics with elapsed := d } = p.judge { t'.statistics with elapsed := d' }) ∧
      t.succeeded.Perm t'.succeeded ∧ t.errors.Perm t'.errors := by
  have htally := ((start_keeps set policy).steps hs).tally_of_finished hf
  have htally' := ((start_keeps set policy').steps hs').tally_of_finished hf'
  have hstatistics : x.aggregator.tally.statistics = x'.aggregator.tally.statistics := by
    rw [htally, htally']
    exact Tally.statistics_perm set _ hp
  refine ⟨hstatistics, ?_, ?_, ?_⟩
  · intro p d d'
    rw [hstatistics]
    exact p.judge_elapsed _ d d'
  · rw [htally, htally']
    exact Tally.succeeded_perm set _ hp
  · rw [htally, htally']
    exact Tally.errors_perm set _ hp

/-- The results of `oneOfEach` from the last to the first, and a question for which two of them have
to be taken in. -/
def oneOfEachBackwards : List Input :=
  [.result (.skip (Engine.plainImage "b") none), .step,
    .result (.skip (Engine.plainImage "d") (some "a")), .step, .query .records, .step, .step,
    .result (.failure (Engine.plainImage "a") ⟨.network, "timeout"⟩ 3), .step,
    .result (.success (Engine.plainImage "c") 1), .step, .step]

/-- The two errors are recorded in the order in which they came, and counted alike. -/
theorem tells_alike_of_oneOfEach :
    ∃ x x', (start fourImages ⟨.mirrorToMirror, false⟩).steps? oneOfEach = some x ∧
      (start fourImages ⟨.mirrorToMirror, false⟩).steps? oneOfEachBackwards = some x' ∧
      x.aggregator.phase = .finished ∧ x'.aggregator.phase = .finished ∧
      (x.accepted fourImages).Perm (x'.accepted fourImages) ∧
      x.aggregator.tally.errors ≠ x'.aggregator.tally.errors ∧
      x.aggregator.tally.statistics = x'.aggregator.tally.statistics ∧
      x.aggregator.tally.errors.Perm x'.aggregator.tally.errors := by
  have hrun : ((start fourImages ⟨.mirrorToMirror, false⟩).steps? oneOfEach).bind (fun x =>
      ((start fourImages ⟨.mirrorToMirror, false⟩).steps? oneOfEachBackwards).map (fun x' =>
        (x.aggregator.phase, x'.aggregator.phase,
          decide ((x.accepted fourImages).Perm (x'.accepted fourImages)),
          decide (x.aggregator.tally.errors ≠ x'.aggregator.tally.errors)))) =
      some (.finished, .finished, true, true) := by
    decide +kernel
  obtain ⟨x, hx, hrest⟩ := Option.bind_eq_some_iff.mp hrun
  obtain ⟨x', hx', hends⟩ := Option.map_eq_some_iff.mp hrest
  simp only [Prod.mk.injEq, decide_eq_true_eq] at hends
  obtain ⟨hf, hf', hperm, hne⟩ := hends
  obtain ⟨hstatistics, -, -, herrors⟩ := tells_alike_of_perm hx hx' hf hf' hperm
  exact ⟨x, x', hx, hx', hf, hf', hperm, hne, hstatistics, herrors⟩

end Aggregator.Intake

end ImageBatch
