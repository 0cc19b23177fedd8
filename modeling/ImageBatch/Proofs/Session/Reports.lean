import ImageBatch.Proofs.Session.Attempts
import ImageBatch.Proofs.TaskSet

/-!
# What a report tells

The report of an attempt that came to its end accounts for every task of its set: its records are
those of the tasks that are left to do, and an attempt fails outright only if there are some.
-/

namespace ImageBatch.Session

variable {σ η : Type} [Host (StateM σ) η] {p : Plan} {full : TaskSet} {a b : Attempt σ}
  {r : Report}

/-- The attempt has left a task to do: it failed, or was skipped with a reason. -/
def Attempt.leaves (a : Attempt σ) (t : Task) : Bool :=
  a.engine.sent.any (fun r => decide (r.task = t) && r.isUnresolved)

/-- In the attempt a task succeeded, or was bypassed. -/
def Attempt.Mirrors (a : Attempt σ) (t : Task) : Prop :=
  ∃ r ∈ a.engine.sent, r.task = t ∧ r.isMirrored = true

instance (a : Attempt σ) (t : Task) : Decidable (a.Mirrors t) :=
  decidable_of_iff (a.engine.sent.any (fun r => decide (r.task = t) && r.isMirrored) = true)
    (by simp [Attempt.Mirrors])

namespace Attempt.Ran

theorem sent_perm (ha : a.Ran p) (hr : a.ending = .ok r) :
    (a.engine.sent.map Result.task).Perm a.set.tasks ∧
      a.engine.aggregator.tally =
        (Tally.start a.set).addAll a.set a.engine.sent.reverse := by
  obtain ⟨cancelled, hreach⟩ := ha.reachable
  obtain ⟨hperm, -, -, -, htally⟩ := hreach.tally_of_finished (ha.report r hr).1
  exact ⟨hperm, htally⟩

/-- The records name the tasks that are left, in the order of their results. -/
theorem map_task_errors (ha : a.Ran p) (hr : a.ending = .ok r) :
    r.errors.map Record.task =
      (a.engine.sent.reverse.filter Result.isUnresolved).map Result.task := by
  obtain ⟨-, runId, attempt, elapsed, log, -, hreport⟩ := ha.report r hr
  rw [hreport, Run.report, (ha.sent_perm hr).2]
  exact Tally.map_task_errors_start _ _

theorem unresolved_eq (ha : a.Ran p) (hr : a.ending = .ok r) :
    unresolved r = a.engine.sent.countP Result.isUnresolved := by
  obtain ⟨-, runId, attempt, elapsed, log, -, hreport⟩ := ha.report r hr
  rw [hreport, Run.report, unresolved, (ha.sent_perm hr).2]
  exact (Tally.unresolved_start _ _).trans (List.countP_reverse)

/-- Where nothing is left to do, every task that was meant to be copied was. -/
theorem succeeded_eq_eligible (ha : a.Ran p) (hr : a.ending = .ok r) (hnone : unresolved r = 0) :
    r.statistics.succeeded = r.statistics.eligible := by
  obtain ⟨-, runId, attempt, elapsed, log, -, hreport⟩ := ha.report r hr
  obtain ⟨hperm, htally⟩ := ha.sent_perm hr
  have htotal := Tally.total_addAll a.set (Tally.start a.set) a.engine.sent.reverse
  have hendings := ((Tally.balances_start a.set).addAll a.set a.engine.sent.reverse).received
  have hlen := hperm.length_eq
  rw [Tally.received_addAll, Tally.received_start, ← htally] at hendings
  rw [← htally] at htotal
  rw [hreport, Run.report, unresolved] at hnone
  rw [hreport, Run.report, Statistics.eligible]
  simp only [Tally.start, Statistics.empty, List.length_reverse, List.length_map]
    at htotal hendings hlen hnone ⊢
  omega

theorem outcome_of_nothing_left (ha : a.Ran p) (hr : a.ending = .ok r)
    (hp : p.policy.IsUsable) (hnone : unresolved r = 0) : r.outcome = .success := by
  have hcomplete := ha.succeeded_eq_eligible hr hnone
  obtain ⟨-, runId, attempt, elapsed, log, -, hreport⟩ := ha.report r hr
  have hclean : r.statistics.isClean = true := by
    unfold unresolved at hnone
    simp only [Statistics.isClean, Bool.and_eq_true, beq_iff_eq]
    omega
  have hjudge := hp.judge_of_complete hcomplete hclean
  rw [hreport] at hjudge ⊢
  exact congrArg (fun v => Outcome.ofVerdict v _ _) hjudge

theorem unresolved_pos (ha : a.Ran p) (hr : a.ending = .ok r) (hp : p.policy.IsUsable)
    (hf : r.outcome.isHardFailure = true) : 0 < unresolved r := by
  apply Nat.pos_of_ne_zero
  intro hnone
  rw [ha.outcome_of_nothing_left hr hp hnone] at hf
  cases hf

theorem unresolved_of_success (ha : a.Ran p) (hr : a.ending = .ok r)
    (hs : r.outcome = .success) : unresolved r = 0 := by
  obtain ⟨-, runId, attempt, elapsed, log, -, hreport⟩ := ha.report r hr
  rw [hreport, Run.report] at hs
  simp only [Policy.judge] at hs
  split at hs
  · cases hs
  · split at hs
    · rename_i hclean
      simp only [Statistics.isClean, Bool.and_eq_true, beq_iff_eq] at hclean
      rw [hreport, Run.report, unresolved]
      simp only
      omega
    · cases hs

theorem leaves_or_mirrors (ha : a.Ran p) (hr : a.ending = .ok r) {t : Task}
    (ht : t ∈ a.set.tasks) : a.leaves t = true ∨ a.Mirrors t := by
  obtain ⟨res, hres, rfl⟩ := List.mem_map.mp ((ha.sent_perm hr).1.mem_iff.mpr ht)
  cases hu : res.isUnresolved with
  | true => exact .inl (List.any_eq_true.mpr ⟨res, hres, by simp [hu]⟩)
  | false => exact .inr ⟨res, hres, rfl, by simp [Result.isMirrored, hu]⟩

theorem unresolved_pos_of_leaves (ha : a.Ran p) (hr : a.ending = .ok r) {t : Task}
    (ht : a.leaves t = true) : 0 < unresolved r := by
  obtain ⟨res, hres, hleft⟩ := List.any_eq_true.mp ht
  simp only [Bool.and_eq_true] at hleft
  rw [ha.unresolved_eq hr]
  exact List.countP_pos_iff.mpr ⟨res, hres, hleft.2⟩

theorem mem_of_leaves (ha : a.Ran p) (hr : a.ending = .ok r) {t : Task}
    (ht : a.leaves t = true) : t ∈ a.set.tasks := by
  obtain ⟨res, hres, hleft⟩ := List.any_eq_true.mp ht
  simp only [Bool.and_eq_true, decide_eq_true_eq] at hleft
  exact hleft.1 ▸ (ha.sent_perm hr).1.mem_iff.mp (List.mem_map_of_mem hres)

theorem length_filter_leaves (ha : a.Ran p) (hr : a.ending = .ok r) (hn : a.set.tasks.Nodup) :
    (a.set.tasks.filter a.leaves).length = unresolved r := by
  have hperm := (ha.sent_perm hr).1
  have hinj : (a.engine.sent.map Result.task).Nodup := hperm.nodup_iff.mpr hn
  rw [ha.unresolved_eq hr, ← List.countP_eq_length_filter, ← hperm.countP_eq, List.countP_map]
  apply List.countP_congr
  intro res hres
  constructor
  · intro hleft
    obtain ⟨res', hres', he⟩ := List.any_eq_true.mp hleft
    simp only [Bool.and_eq_true, decide_eq_true_eq] at he
    rw [← List.inj_on_of_nodup_map hinj hres' hres he.1]
    exact he.2
  · intro hu
    exact List.any_eq_true.mpr ⟨res, hres, by simp [hu]⟩

end Attempt.Ran

end ImageBatch.Session
