import ImageBatch.Proofs.Sorted.Canonical
import ImageBatch.TaskSet

/-!
# What a set expects

The tasks of a set are counted by kind: a kind that occurs has an entry with its number, and a kind
that does not has none. Where nothing was expected of a kind, its number is expected.
-/

namespace ImageBatch

/-- How many of the tasks are of a kind. -/
def ImageKind.among (k : ImageKind) (ts : List Task) : Nat := ts.countP fun t => t.kind == k

theorem ImageKind.among_cons (k : ImageKind) (t : Task) (ts : List Task) :
    k.among (t :: ts) = k.among ts + if t.kind = k then 1 else 0 := by
  simp [among, List.countP_cons]

theorem ImageKind.among_eq_zero_iff {k : ImageKind} {ts : List Task} :
    k.among ts = 0 ↔ ∀ t ∈ ts, t.kind ≠ k := by
  simp [among, List.countP_eq_zero]

namespace TaskSet

variable {s : TaskSet} {k : ImageKind}

/-! ## Counts -/

theorem get?_foldl_countOne {ts : List Task} {counts : KindCounts} :
    (ts.foldl (fun counts t => countOne counts t.kind) counts).get? k =
      if k.among ts = 0 then counts.get? k else some ((counts.get? k).getD 0 + k.among ts) := by
  induction ts generalizing counts with
  | nil => rfl
  | cons t ts ih =>
      rw [List.foldl_cons, ih, countOne, SortedMap.get?_alter, ImageKind.among_cons]
      by_cases hk : t.kind = k
      · subst hk
        by_cases hnone : t.kind.among ts = 0
        · simp [hnone]
        · simp [hnone]
          omega
      · simp [hk, Ne.symm hk]

theorem get?_observed (s : TaskSet) (k : ImageKind) :
    s.observed.get? k = if k.among s.tasks = 0 then none else some (k.among s.tasks) := by
  rw [observed, countKinds, get?_foldl_countOne]
  simp

theorem getD_observed (s : TaskSet) (k : ImageKind) :
    (s.observed.get? k).getD 0 = k.among s.tasks := by
  rw [get?_observed]
  split
  · rename_i hnone
    exact hnone.symm
  · rfl

theorem get?_observed_ne_none : s.observed.get? k ≠ none ↔ ∃ t ∈ s.tasks, t.kind = k := by
  rw [get?_observed, ne_eq, ite_eq_left_iff, ← ne_eq]
  simp [ImageKind.among_eq_zero_iff]

/-! ## Expectations -/

theorem get?_foldl_getD {es : List (ImageKind × Nat)} {m : KindCounts} :
    (es.foldl (fun m e => m.alter e.1 fun n => n.getD e.2) m).get? k =
      (m.get? k).or (SortedMap.find k es) := by
  induction es generalizing m with
  | nil => exact Option.or_none.symm
  | cons e es ih =>
      rw [List.foldl_cons, ih, SortedMap.get?_alter, SortedMap.find]
      by_cases hk : k = e.1
      · subst hk
        cases hm : m.get? e.1 <;> simp
      · rw [if_neg (mt Std.compare_eq_iff_eq.mp hk), if_neg (mt Std.compare_eq_iff_eq.mp hk)]

/-- Of every kind that nothing was expected of, what is there is expected. -/
theorem get?_fillExpected (s : TaskSet) (k : ImageKind) :
    s.fillExpected.expected.get? k = (s.expected.get? k).or (s.observed.get? k) :=
  get?_foldl_getD

theorem expected_fillExpected (h : s.expected = ∅) : s.fillExpected.expected = s.observed := by
  refine SortedMap.eq_of_get?_eq fun k => ?_
  rw [get?_fillExpected, h, SortedMap.get?_empty, Option.none_or]

end TaskSet

end ImageBatch
