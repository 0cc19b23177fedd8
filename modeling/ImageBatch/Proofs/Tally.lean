import ImageBatch.Tally

/-!
# What a tally tells

The counts and the records of a tally as functions of the results that were taken in.
-/

namespace ImageBatch

/-- The task has to be tried again: it failed, or was skipped with a reason. -/
def Ending.isUnresolved : Ending → Bool
  | .succeeded => false
  | .failed _ => true
  | .skipped reason => reason.isSome

def Result.isUnresolved (r : Result) : Bool := r.ending.isUnresolved

def Ending.isSuccess : Ending → Bool
  | .succeeded => true
  | _ => false

def Ending.isFailure : Ending → Bool
  | .failed _ => true
  | _ => false

/-- The task was skipped with a reason. -/
def Ending.isSkip : Ending → Bool
  | .skipped reason => reason.isSome
  | _ => false

/-- The image is where it should be, or was never meant to be there. -/
def Result.isMirrored (r : Result) : Bool := !r.isUnresolved

def Record.isFailure (c : Record) : Bool := c.kind == .failed

def Record.isSkip (c : Record) : Bool := c.kind == .skipped

/-- The failure is one of those that are called out. -/
def Record.isCritical (c : Record) : Bool :=
  c.isFailure && (c.category == .network || c.category == .resourceExhaustion)

def Statistics.arrived (n : Statistics) (k : ImageKind) : Nat :=
  ((n.byKind.get? k).map KindTally.succeeded).getD 0

def Statistics.failuresInAll (n : Statistics) : Nat :=
  Category.all.foldr (fun k m => n.failuresIn k + m) 0

namespace Tally

variable (s : TaskSet) (t : Tally) (r : Result) (rs rs' : List Result)

@[simp] theorem addAll_nil : t.addAll s [] = t := rfl

@[simp] theorem addAll_cons : t.addAll s (r :: rs) = (t.add s r).addAll s rs := rfl

theorem addAll_append : t.addAll s (rs ++ rs') = (t.addAll s rs).addAll s rs' := List.foldl_append

theorem addAll_concat : t.addAll s (rs ++ [r]) = (t.addAll s rs).add s r := by
  rw [addAll_append, addAll_cons, addAll_nil]

@[simp] theorem received_addAll : (t.addAll s rs).received = t.received + rs.length := by
  induction rs generalizing t with
  | nil => rfl
  | cons r rs ih =>
      rw [addAll_cons, ih, List.length_cons]
      simp only [add]
      omega

@[simp] theorem received_start : (start s).received = 0 := rfl

/-! ## Records -/

theorem isSome_record? : (record? s r).isSome = r.isUnresolved := by
  unfold record? Result.isUnresolved
  split <;> rename_i h <;> rw [h] <;> rfl

theorem task_of_record? {c : Record} (h : record? s r = some c) : c.task = r.task := by
  unfold record? at h
  split at h <;> cases h <;> rfl

/-- The records are those of the results, in the order in which these were taken in. -/
theorem errors_addAll : (t.addAll s rs).errors = t.errors ++ rs.filterMap (record? s) := by
  induction rs generalizing t with
  | nil => simp
  | cons r rs ih =>
      rw [addAll_cons, ih]
      cases h : record? s r <;> simp [add, h]

/-- The tasks that succeeded, in the order in which their results were taken in. -/
theorem succeeded_addAll : (t.addAll s rs).succeeded =
    t.succeeded ++ (rs.filter Result.isSuccess).map Result.task := by
  induction rs generalizing t with
  | nil => simp
  | cons r rs ih =>
      rw [addAll_cons, ih]
      by_cases hr : r.isSuccess = true
      · simp [add, hr]
      · simp [add, hr]

theorem map_task_errors_start : (addAll s (start s) rs).errors.map Record.task =
    (rs.filter Result.isUnresolved).map Result.task := by
  rw [errors_addAll]
  simp only [start, List.nil_append]
  induction rs with
  | nil => rfl
  | cons r rs ih =>
      have hsome := isSome_record? s r
      cases h : record? s r with
      | none =>
          rw [h] at hsome
          simp [h, ← hsome, ih]
      | some c =>
          rw [h] at hsome
          simp [h, ← hsome, ih, task_of_record? s r h]

/-! ## Counts -/

theorem total_count (n : Statistics) (kind : ImageKind) (e : Ending) :
    (count n kind e).total = n.total := by
  rcases e with _ | f | _ | reason <;> rfl

theorem total_addAll : (t.addAll s rs).statistics.total = t.statistics.total := by
  induction rs generalizing t with
  | nil => rfl
  | cons r rs ih => rw [addAll_cons, ih, add, total_count]

theorem counts_addAll :
    (t.addAll s rs).statistics.succeeded =
      t.statistics.succeeded + (rs.map Result.ending).countP Ending.isSuccess ∧
    (t.addAll s rs).statistics.failed =
      t.statistics.failed + (rs.map Result.ending).countP Ending.isFailure ∧
    (t.addAll s rs).statistics.skipped =
      t.statistics.skipped + (rs.map Result.ending).countP Ending.isSkip := by
  induction rs generalizing t with
  | nil => exact ⟨rfl, rfl, rfl⟩
  | cons r rs ih =>
      obtain ⟨hsucceeded, hfailed, hskipped⟩ := ih (t.add s r)
      obtain ⟨task, ending, attempts⟩ := r
      rw [addAll_cons, hsucceeded, hfailed, hskipped]
      simp only [List.map_cons, List.countP_cons]
      rcases ending with _ | f | _ | reason <;>
        simp only [add, count, Ending.isSuccess, Ending.isFailure, Ending.isSkip,
          Option.isSome_none, Option.isSome_some, Bool.false_eq_true, if_true, if_false] <;>
        omega

/-- Every count is that of a list, and every result is in one of the counts. -/
structure Balances (t : Tally) : Prop where
  received : t.received = t.statistics.succeeded + t.statistics.failed + t.statistics.skipped +
    t.statistics.bypassed
  succeeded : t.succeeded.length = t.statistics.succeeded
  failed : t.errors.countP Record.isFailure = t.statistics.failed
  skipped : t.errors.countP Record.isSkip = t.statistics.skipped
  inCategory : ∀ k, t.statistics.failuresIn k =
    t.errors.countP (fun c => c.isFailure && c.category == k)
  critical : t.statistics.critical = t.errors.countP Record.isCritical
  arrived : ∀ k, t.statistics.arrived k = t.succeeded.countP (fun u => u.kind == k)

theorem balances_start : (start s).Balances := by
  refine ⟨rfl, rfl, rfl, rfl, fun k => rfl, rfl, ?_⟩
  intro k
  simp only [Statistics.arrived, start, SortedMap.get?_map]
  cases s.expected.get? k <;> rfl

theorem failuresIn_add (k : Category) :
    (t.add s r).statistics.failuresIn k =
      t.statistics.failuresIn k + if r.failure?.any (fun f => f.category == k) then 1 else 0 := by
  obtain ⟨task, ending, attempts⟩ := r
  rcases ending with _ | f | _ | reason
  · rfl
  · by_cases hk : k = f.category
    · simp [add, count, Statistics.failuresIn, Result.failure?, hk]
    · simp [add, count, Statistics.failuresIn, Result.failure?, hk, Ne.symm hk]
  · rfl
  · rfl

/-- A bypass takes one image off what is expected, and none off what has arrived. -/
theorem arrived_add (k : ImageKind) :
    (t.add s r).statistics.arrived k =
      t.statistics.arrived k + if r.isSuccess && r.task.kind == k then 1 else 0 := by
  obtain ⟨task, ending, attempts⟩ := r
  rcases ending with _ | f | _ | reason
  · by_cases hk : k = task.kind
    · cases hn : t.statistics.byKind.get? task.kind <;>
        simp [add, count, Statistics.arrived, Result.isSuccess, hk, hn]
    · simp [add, count, Statistics.arrived, Result.isSuccess, hk, Ne.symm hk]
  · rfl
  · simp only [add, count, Statistics.arrived, SortedMap.get?_modify]
    cases hn : t.statistics.byKind.get? k <;> split <;> simp [Result.isSuccess]
  · rfl

variable {t}

theorem Balances.add (h : t.Balances) : (t.add s r).Balances := by
  have hreceived := h.received
  refine ⟨?_, ?_, ?_, ?_, ?_, ?_, ?_⟩
  all_goals obtain ⟨task, ending, attempts⟩ := r
  · rcases ending with _ | f | _ | reason <;> simp only [Tally.add, count] <;> omega
  · rw [Tally.add, apply_ite List.length, List.length_append, h.succeeded]
    rcases ending with _ | f | _ | reason <;> rfl
  · rw [Tally.add, List.countP_append, h.failed]
    rcases ending with _ | f | _ | reason <;> rfl
  · rw [Tally.add, List.countP_append, h.skipped]
    rcases ending with _ | f | _ | reason <;> rfl
  · intro k
    rw [failuresIn_add, h.inCategory, Tally.add, List.countP_append]
    rcases ending with _ | f | _ | reason <;>
      simp [Result.failure?, record?, recordOf, Record.isFailure, List.countP_singleton]
  · rw [Tally.add, List.countP_append, ← h.critical]
    rcases ending with _ | ⟨category, message⟩ | _ | reason
    · rfl
    · cases category <;> rfl
    · rfl
    · rfl
  · intro k
    rw [arrived_add, h.arrived, Tally.add, apply_ite (List.countP _), List.countP_append,
      List.countP_singleton]
    rcases ending with _ | f | _ | reason <;> rfl

theorem Balances.addAll (h : t.Balances) : (t.addAll s rs).Balances := by
  induction rs generalizing t with
  | nil => exact h
  | cons r rs ih => exact ih (h.add s r)

theorem Balances.length_errors (h : t.Balances) :
    t.errors.length = t.statistics.failed + t.statistics.skipped := by
  have hsplit : ∀ c : Record, c.isSkip = !c.isFailure := by
    intro c
    unfold Record.isSkip Record.isFailure
    cases c.kind <;> rfl
  rw [List.length_eq_countP_add_countP Record.isFailure, h.failed, ← h.skipped]
  congr 1
  exact List.countP_congr fun c _ => by simp [hsplit]

theorem sum_countP_category {α : Type} (p : α → Bool) (category : α → Category) (xs : List α) :
    Category.all.foldr (fun k m => xs.countP (fun x => p x && category x == k) + m) 0 =
      xs.countP p := by
  induction xs with
  | nil => rfl
  | cons x xs ih =>
      rw [List.countP_cons, ← ih]
      simp only [Category.all, List.foldr_cons, List.foldr_nil, List.countP_cons]
      cases p x <;> cases category x <;> simp <;> omega

theorem Balances.failuresInAll (h : t.Balances) :
    t.statistics.failuresInAll = t.statistics.failed := by
  rw [← h.failed, ← sum_countP_category Record.isFailure Record.category t.errors,
    Statistics.failuresInAll, funext h.inCategory]

theorem unresolved_start : (addAll s (start s) rs).statistics.failed +
    (addAll s (start s) rs).statistics.skipped = rs.countP Result.isUnresolved := by
  have hrecords := congrArg List.length (map_task_errors_start s rs)
  rw [List.length_map, List.length_map, ← List.countP_eq_length_filter] at hrecords
  rw [← hrecords, ((balances_start s).addAll s rs).length_errors]

end Tally

end ImageBatch
