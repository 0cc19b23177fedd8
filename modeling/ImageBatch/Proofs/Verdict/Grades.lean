import ImageBatch.Proofs.Aggregator.Order
import ImageBatch.Proofs.Verdict

/-!
# Grades of runs

A finished run fails, is warned of or succeeds, by its rate and its counts alone. The rate is a
number of 64 bits: a quotient next to a boundary may be rounded to the boundary. Rounding keeps the
order, so a run of as many tasks with more successes is never graded lower, and neither is a run by
a policy with a lower threshold.
-/

namespace ImageBatch

open Binary64 (one IsExact quotientUnits)

variable {n n' : Statistics} {p q : Policy} {b : Tiers} {r r' : Binary64} {t : Tier}

/-! ## Finished runs -/

namespace Statistics

/-- What an aggregator ends with once every result is in, and whatever time the run took. -/
def IsOfRun (n : Statistics) : Prop :=
  ∃ (set : TaskSet) (policy : SkipPolicy) (ls : List Aggregator.Input) (x : Aggregator.Intake)
    (d : Span), (Aggregator.Intake.start set policy).steps? ls = some x ∧
      x.aggregator.phase = .finished ∧ set.tasks.length < countBound ∧
      n = { x.aggregator.tally.statistics with elapsed := d }

/-- Every task is counted once. -/
structure IsComplete (n : Statistics) : Prop where
  total : n.total = n.succeeded + n.failed + n.skipped + n.bypassed
  bound : n.total < countBound

theorem IsOfRun.isComplete (h : n.IsOfRun) : n.IsComplete := by
  obtain ⟨set, policy, ls, x, d, hs, hf, hbound, rfl⟩ := h
  have hkeeps := (Aggregator.Intake.start_keeps set policy).steps hs
  have htally := hkeeps.tally_of_finished hf
  have hbalances : x.aggregator.tally.Balances := by
    rw [htally]
    exact (Tally.balances_start set).addAll set _
  have hreceived := hkeeps.received_of_finished hf
  have htotal : x.aggregator.tally.statistics.total = set.tasks.length := by
    rw [htally, Tally.total_addAll]
    rfl
  exact ⟨htotal.trans (hreceived.symm.trans hbalances.received), htotal ▸ hbound⟩

namespace IsComplete

theorem eligible (h : n.IsComplete) : n.eligible = n.succeeded + n.failed + n.skipped := by
  have htotal := h.total
  unfold Statistics.eligible
  omega

theorem eligible_lt (h : n.IsComplete) : n.eligible < countBound :=
  Nat.lt_of_le_of_lt (Nat.sub_le _ _) h.bound

theorem succeeded_le (h : n.IsComplete) : n.succeeded ≤ n.eligible := by
  have heligible := h.eligible
  omega

/-- A run is clean just if every task succeeded that was meant to be copied. -/
theorem isClean_iff (h : n.IsComplete) : n.isClean = true ↔ n.succeeded = n.eligible := by
  rw [h.eligible]
  simp only [isClean, Bool.and_eq_true, beq_iff_eq]
  omega

end IsComplete

/-! ## Rates -/

/-- The rate of a run, in units: the quotient of the counts as far as a number can hold it. -/
structure IsRated (n : Statistics) (units : Nat) : Prop where
  rate : n.rate = .finite false units
  quotient : n.eligible ≠ 0 → n.rate = .ofNat n.succeeded / .ofNat n.eligible
  empty : n.eligible = 0 → units = one
  exact : IsExact units
  le_one : units ≤ one
  /-- No number lies between the quotient and the rate. -/
  least : n.eligible ≠ 0 → n.eligible < 2 ^ 53 → ∀ v, IsExact v →
    v * n.eligible ≤ n.succeeded * one → v ≤ units
  greatest : n.eligible ≠ 0 → n.eligible < 2 ^ 53 → ∀ v, IsExact v →
    n.succeeded * one ≤ v * n.eligible → units ≤ v

theorem rate_of_eligible (h : n.eligible ≠ 0) :
    n.rate = .ofNat n.succeeded / .ofNat n.eligible := by
  rw [rate, if_neg h]

theorem rate_of_empty (h : n.eligible = 0) : n.rate = .finite false one := by
  rw [rate, if_pos h]
  exact Binary64.ofNat_one

theorem IsComplete.rate_eq (h : n.IsComplete) (hsome : n.eligible ≠ 0) :
    n.rate = .finite false (quotientUnits n.succeeded n.eligible) := by
  rw [rate_of_eligible hsome]
  exact Binary64.div_ofNat h.succeeded_le (Nat.pos_of_ne_zero hsome) h.eligible_lt

theorem IsComplete.exists_isRated (h : n.IsComplete) : ∃ units, n.IsRated units := by
  by_cases hnone : n.eligible = 0
  · exact ⟨one, rate_of_empty hnone, fun hsome => (hsome hnone).elim, fun _ => rfl,
      Binary64.isExact_one, Nat.le_refl one, fun hsome => (hsome hnone).elim,
      fun hsome => (hsome hnone).elim⟩
  · have hpos : 0 < n.eligible := Nat.pos_of_ne_zero hnone
    have hle := h.succeeded_le
    have hone : quotientUnits n.succeeded n.eligible ≤ one :=
      Binary64.quotientUnits_self hpos ▸ Binary64.quotientUnits_mono hpos hle
    exact ⟨_, h.rate_eq hnone, rate_of_eligible, fun hno => (hnone hno).elim,
      Binary64.isExact_quotientUnits hpos, hone,
      fun _ hsmall v hv => Binary64.le_quotientUnits (Nat.lt_of_le_of_lt hle hsmall) hsmall hpos hv,
      fun _ hsmall v hv => Binary64.quotientUnits_le (Nat.lt_of_le_of_lt hle hsmall) hsmall hpos hv⟩

theorem IsComplete.rate_mono (h : n.IsComplete) (h' : n'.IsComplete)
    (heligible : n.eligible = n'.eligible) (hle : n.succeeded ≤ n'.succeeded) :
    n.rate.le n'.rate = true := by
  by_cases hnone : n.eligible = 0
  · rw [rate_of_empty hnone, rate_of_empty (heligible ▸ hnone)]
    exact Binary64.le_finite.mpr (Nat.le_refl one)
  · rw [h.rate_eq hnone, h'.rate_eq (heligible ▸ hnone), heligible]
    exact Binary64.le_finite.mpr
      (Binary64.quotientUnits_mono (heligible ▸ Nat.pos_of_ne_zero hnone) hle)

end Statistics

/-! ## Tiers -/

/-- Where the boundaries put a rate. -/
def Tiers.Allot (b : Tiers) (r : Binary64) : Tier → Prop
  | .excellent => b.excellent.le r = true
  | .minorWarning => b.minorWarningAbove.lt r = true ∧ r.lt b.excellent = true
  | .significantWarning => r.le b.minorWarningAbove = true ∧ r.lt b.excellent = true

theorem Policy.IsUsable.tier_eq_iff (hp : p.IsUsable) (hr : r.place?.isSome = true) :
    p.tier r = t ↔ p.tiers.Allot r t := by
  obtain ⟨-, hordered, hone⟩ := hp.ordered
  have hbelow : r.lt p.tiers.excellent = !p.tiers.excellent.le r :=
    Binary64.lt_eq_not_le hr (Binary64.isSome_place?_of_le hone).1
  have habove : p.tiers.minorWarningAbove.lt r = !r.le p.tiers.minorWarningAbove :=
    Binary64.lt_eq_not_le (Binary64.isSome_place?_of_le hordered).1 hr
  rw [tier, habove]
  cases t <;> simp only [Tiers.Allot, hbelow, habove] <;>
    cases p.tiers.excellent.le r <;> cases r.le p.tiers.minorWarningAbove <;> simp

/-- The place of a tier among the verdicts. -/
def Tier.grade : Tier → Nat
  | .significantWarning => 1
  | .minorWarning => 2
  | .excellent => 3

theorem Tier.grade_pos (t : Tier) : 0 < t.grade := by cases t <;> decide

theorem Tier.grade_le (t : Tier) : t.grade ≤ 3 := by cases t <;> decide

theorem Policy.tier_mono (p : Policy) (h : r.le r' = true) :
    (p.tier r).grade ≤ (p.tier r').grade := by
  by_cases hexcellent : p.tiers.excellent.le r = true
  · rw [tier, tier, if_pos hexcellent, if_pos (Binary64.le_trans hexcellent h)]
  · by_cases hminor : p.tiers.minorWarningAbove.lt r = true
    · rw [tier, tier, if_neg hexcellent, if_pos hminor,
        if_pos (Binary64.lt_of_lt_of_le hminor h)]
      split
      · decide
      · exact Nat.le_refl _
    · rw [tier, if_neg hexcellent, if_neg hminor]
      exact (p.tier r').grade_pos

/-! ## Verdicts -/

/-- Too few tasks succeeded, for the threshold or for the floor. -/
def Policy.Fails (p : Policy) (r : Binary64) : Prop :=
  r.lt p.threshold = true ∨ r.lt p.tiers.hardFloor = true

instance (p : Policy) (r : Binary64) : Decidable (p.Fails r) := inferInstanceAs (Decidable (_ ∨ _))

theorem Policy.judge_eq (p : Policy) (n : Statistics) : p.judge n =
    if p.Fails n.rate then .hardFailure n.rate
    else if n.isClean = true then .success else .warning n.rate (p.tier n.rate) := by
  rw [judge]
  exact if_congr (by rw [Fails, Bool.or_eq_true]) rfl rfl

/-- Every run is judged in just one way, by its rate and by whether anything went wrong. -/
structure Policy.Judges (p : Policy) (n : Statistics) : Prop where
  failure : ∀ r, p.judge n = .hardFailure r ↔ r = n.rate ∧ p.Fails n.rate
  success : p.judge n = .success ↔ n.failed = 0 ∧ n.skipped = 0
  warning : ∀ r t, p.judge n = .warning r t ↔
    r = n.rate ∧ ¬ p.Fails n.rate ∧ ¬ (n.failed = 0 ∧ n.skipped = 0) ∧ p.tiers.Allot n.rate t

theorem Policy.IsUsable.judges (hp : p.IsUsable) (hn : n.IsComplete) : p.Judges n := by
  obtain ⟨units, hrated⟩ := hn.exists_isRated
  have hplace : n.rate.place?.isSome = true := by
    rw [hrated.rate]
    rfl
  have hclean : n.isClean = true ↔ n.failed = 0 ∧ n.skipped = 0 := by
    simp only [Statistics.isClean, Bool.and_eq_true, beq_iff_eq]
  have hspared : n.isClean = true → ¬ p.Fails n.rate := by
    intro h hfails
    have hjudge := hp.judge_of_complete (hn.isClean_iff.mp h) h
    rw [p.judge_eq, if_pos hfails] at hjudge
    cases hjudge
  by_cases hfails : p.Fails n.rate
  · have hjudge : p.judge n = .hardFailure n.rate := by rw [p.judge_eq, if_pos hfails]
    have hunclean : ¬ (n.failed = 0 ∧ n.skipped = 0) := fun h => hspared (hclean.mpr h) hfails
    constructor
    · simp [hjudge, hfails, eq_comm]
    · simp only [hjudge, hunclean, reduceCtorEq]
    · simp [hjudge, hfails]
  · by_cases hwell : n.failed = 0 ∧ n.skipped = 0
    · have hjudge : p.judge n = .success := by
        rw [p.judge_eq, if_neg hfails, if_pos (hclean.mpr hwell)]
      constructor
      · simp [hjudge, hfails]
      · simp only [hjudge, hwell, and_self]
      · simp [hjudge, hwell]
    · have hjudge : p.judge n = .warning n.rate (p.tier n.rate) := by
        rw [p.judge_eq, if_neg hfails, if_neg (mt hclean.mp hwell)]
      constructor
      · simp [hjudge, hfails]
      · simp only [hjudge, hwell, reduceCtorEq]
      · intro r t
        rw [hjudge, Verdict.warning.injEq, hp.tier_eq_iff hplace, eq_comm]
        simp only [hfails, hwell, not_false_eq_true, true_and]

/-- The order of verdicts: a hard failure is the worst, then come the tiers, and a success is best.
-/
def Verdict.grade : Verdict → Nat
  | .hardFailure _ => 0
  | .warning _ t => t.grade
  | .success => 4

/-- A rate that is no lower gets no worse a verdict, if the run is as clean. -/
theorem Policy.judge_mono (p : Policy) (hrate : n.rate.le n'.rate = true)
    (hclean : n.isClean = true → n'.isClean = true) : (p.judge n).grade ≤ (p.judge n').grade := by
  have hfails : p.Fails n'.rate → p.Fails n.rate :=
    Or.imp (Binary64.lt_of_le_of_lt hrate) (Binary64.lt_of_le_of_lt hrate)
  rw [p.judge_eq n, p.judge_eq n']
  by_cases hfail : p.Fails n.rate
  · rw [if_pos hfail]
    exact Nat.zero_le _
  · rw [if_neg hfail, if_neg (mt hfails hfail)]
    by_cases hwell : n'.isClean = true
    · rw [if_pos hwell]
      split
      · exact Nat.le_refl 4
      · exact Nat.le_succ_of_le (Tier.grade_le _)
    · rw [if_neg hwell, if_neg (mt hclean hwell)]
      exact p.tier_mono hrate

theorem Policy.judge_antitone (htiers : q.tiers = p.tiers)
    (hthreshold : p.threshold.le q.threshold = true) (n : Statistics) :
    (q.judge n).grade ≤ (p.judge n).grade := by
  have hfails : p.Fails n.rate → q.Fails n.rate := by
    rw [Fails, Fails, htiers]
    exact Or.imp_left (fun hlt => Binary64.lt_of_lt_of_le hlt hthreshold)
  have htier : q.tier n.rate = p.tier n.rate := by rw [tier, tier, htiers]
  rw [q.judge_eq, p.judge_eq]
  by_cases hfail : q.Fails n.rate
  · rw [if_pos hfail]
    exact Nat.zero_le _
  · rw [if_neg hfail, if_neg (mt hfails hfail), htier]

/-- Every finished run is judged by its rate and its counts. Of as many tasks more successes get no
worse a verdict, and a higher threshold gives no better one. -/
theorem Policy.IsUsable.judges_runs (hp : p.IsUsable) (hn : n.IsOfRun) :
    (∃ units, n.IsRated units) ∧ p.Judges n ∧
      (∀ n' : Statistics, n'.IsOfRun → n.eligible = n'.eligible → n.succeeded ≤ n'.succeeded →
        (p.judge n).grade ≤ (p.judge n').grade) ∧
      ∀ q : Policy, q.tiers = p.tiers → p.threshold.le q.threshold = true →
        (q.judge n).grade ≤ (p.judge n).grade := by
  have hcomplete := hn.isComplete
  refine ⟨hcomplete.exists_isRated, hp.judges hcomplete, ?_, ?_⟩
  · intro n' hn' heligible hle
    have hcomplete' := hn'.isComplete
    refine p.judge_mono (hcomplete.rate_mono hcomplete' heligible hle) fun hwell => ?_
    have hall := hcomplete.isClean_iff.mp hwell
    exact hcomplete'.isClean_iff.mpr
      (Nat.le_antisymm hcomplete'.succeeded_le (heligible ▸ hall ▸ hle))
  · intro q htiers hthreshold
    exact Policy.judge_antitone htiers hthreshold n

/-! ## Next to a boundary -/

def sixImages : TaskSet := .ofTasks (["a", "b", "c", "d", "e", "f"].map Engine.plainImage)

/-- All of six images arrive but the last. -/
def fiveOfSix : List Aggregator.Input :=
  (["a", "b", "c", "d", "e"].flatMap fun name =>
    [.result (.success (Engine.plainImage name) 1), .step]) ++
    [.result (.failure (Engine.plainImage "f") ⟨.network, "timeout"⟩ 3), .step]

/-- The statistics of six images of which five arrived. -/
def IsFiveOfSix (n : Statistics) : Prop :=
  ∃ x, (Aggregator.Intake.start sixImages ⟨.mirrorToMirror, false⟩).steps? fiveOfSix = some x ∧
    x.aggregator.phase = .finished ∧ n = { x.aggregator.tally.statistics with elapsed := ⟨0⟩ }

theorem IsFiveOfSix.isOfRun (h : IsFiveOfSix n) : n.IsOfRun := by
  obtain ⟨x, hs, hf, hn⟩ := h
  exact ⟨sixImages, _, fiveOfSix, x, _, hs, hf, by decide, hn⟩

theorem exists_isFiveOfSix :
    ∃ n, IsFiveOfSix n ∧ n.succeeded = 5 ∧ n.failed = 1 ∧ n.eligible = 6 := by
  have hrun : ((Aggregator.Intake.start sixImages ⟨.mirrorToMirror, false⟩).steps? fiveOfSix).map
      (fun x => (x.aggregator.phase, x.aggregator.tally.statistics.succeeded,
        x.aggregator.tally.statistics.failed, x.aggregator.tally.statistics.eligible)) =
      some (.finished, 5, 1, 6) := by
    decide +kernel
  obtain ⟨x, hs, hends⟩ := Option.map_eq_some_iff.mp hrun
  simp only [Prod.mk.injEq] at hends
  obtain ⟨hf, hsucceeded, hfailed, heligible⟩ := hends
  exact ⟨_, ⟨x, hs, hf, rfl⟩, hsucceeded, hfailed, heligible⟩

/-- A threshold of 0.8333333333333334, which is the number nearest to five sixths. -/
def fiveSixths : Policy := ⟨.ofDecimal false ⟨8333333333333334, -16⟩, .standard⟩

theorem isUsable_fiveSixths : fiveSixths.IsUsable := by
  let c : Config := { Config.standard ⟨none, none⟩ with
    batch := { BatchSettings.standard with threshold := fiveSixths.threshold } }
  have hc : c.fault? = none ∧ c.policy = fiveSixths := by decide +kernel
  exact ⟨c, hc⟩

/-- The threshold is above five sixths, but the quotient of five and six is not below it. -/
theorem rate_of_fiveSixths :
    fiveSixths.threshold =
        .finite false (Binary64.roundedUnits (8333333333333334 * one) (10 ^ 16)) ∧
      5 * one < Binary64.roundedUnits (8333333333333334 * one) (10 ^ 16) * 6 ∧
      ¬ fiveSixths.Fails (.ofNat 5 / .ofNat 6) ∧
      fiveSixths.tier (.ofNat 5 / .ofNat 6) = .significantWarning := by
  decide +kernel

/-- Five out of six are fewer than the threshold asks for, but the quotient is rounded to it. So the
run is warned of and does not fail. -/
theorem warned_of_fiveOfSix : ∃ n : Statistics, IsFiveOfSix n ∧ fiveSixths.IsUsable ∧
    (∃ u, fiveSixths.threshold = .finite false u ∧ n.succeeded * one < u * n.eligible) ∧
    fiveSixths.judge n = .warning n.rate .significantWarning := by
  obtain ⟨n, hn, hsucceeded, hfailed, heligible⟩ := exists_isFiveOfSix
  obtain ⟨hthreshold, habove, hspared, htier⟩ := rate_of_fiveSixths
  have hrate : n.rate = .ofNat 5 / .ofNat 6 := by
    rw [Statistics.rate_of_eligible (by omega), hsucceeded, heligible]
  have hunclean : ¬ n.isClean = true := by
    rw [Statistics.isClean, hfailed]
    exact Bool.false_ne_true
  refine ⟨n, hn, isUsable_fiveSixths, ⟨_, hthreshold, ?_⟩, ?_⟩
  · rw [hsucceeded, heligible]
    exact habove
  · rw [Policy.judge_eq, hrate, if_neg hspared, if_neg hunclean, htier]

/-- A stricter policy does no better by that run. -/
theorem judges_runs_of_fiveOfSix : ∃ n, IsFiveOfSix n ∧ (∃ units, n.IsRated units) ∧
    fiveSixths.Judges n ∧
    (Policy.judge ⟨1, .standard⟩ n).grade ≤ (fiveSixths.judge n).grade := by
  obtain ⟨n, hn, -⟩ := exists_isFiveOfSix
  obtain ⟨hrated, hjudges, -, hstricter⟩ := isUsable_fiveSixths.judges_runs hn.isOfRun
  exact ⟨n, hn, hrated, hjudges,
    hstricter ⟨1, .standard⟩ rfl isUsable_fiveSixths.threshold_le_one⟩

end ImageBatch
