import ImageBatch.Config.Basic
import ImageBatch.Proofs.Binary64.Order

/-!
# Verdicts on clean runs

A run in which every eligible task succeeded has the rate one, and no policy that a configuration
may ask for fails it.
-/

namespace ImageBatch

theorem Binary64.div_self (x : Binary64) : div x x = ofNat 1 ∨ div x x = .nan := by
  cases x with
  | nan => exact .inr rfl
  | infinite s => exact .inr rfl
  | finite s a =>
      by_cases ha : a = 0
      · refine .inr ?_
        rw [div, if_pos ha, if_pos ha]
      · refine .inl ?_
        rw [div, if_neg ha, bne_self_eq_false, ofUnits, roundedUnits_self (Nat.pos_of_ne_zero ha),
          ofNat_one]
        exact if_pos one_lt_tooLarge

/-- A policy that a configuration may ask for. -/
def Policy.IsUsable (p : Policy) : Prop := ∃ c : Config, c.fault? = none ∧ c.policy = p

theorem Policy.isUsable_standard : Policy.standard.IsUsable := by
  have hc : (Config.standard ⟨none, none⟩).fault? = none ∧
      (Config.standard ⟨none, none⟩).policy = Policy.standard := by decide +kernel
  exact ⟨_, hc⟩

theorem Policy.IsUsable.threshold_le_one {p : Policy} (h : p.IsUsable) :
    p.threshold.le 1 = true := by
  obtain ⟨c, hc, rfl⟩ := h
  unfold Config.fault? at hc
  split at hc
  · cases hc
  · rename_i hrate
    simp only [Bool.not_eq_true', Bool.not_eq_false, Config.isRate, Bool.and_eq_true] at hrate
    exact hrate.2

/-- The boundaries of tiers come one after another, and none is above one. -/
theorem Policy.IsUsable.ordered {p : Policy} (h : p.IsUsable) :
    p.tiers.hardFloor.le p.tiers.minorWarningAbove = true ∧
      p.tiers.minorWarningAbove.le p.tiers.excellent = true ∧ p.tiers.excellent.le 1 = true := by
  obtain ⟨c, hc, rfl⟩ := h
  unfold Config.fault? at hc
  split at hc
  · cases hc
  · split at hc
    · cases hc
    · split at hc
      · cases hc
      · split at hc
        · cases hc
        · rename_i htiers
          simp only [Bool.not_eq_true', Bool.not_eq_false, Config.areOrdered, Bool.and_eq_true]
            at htiers
          obtain ⟨⟨⟨-, hfloor⟩, hminor⟩, hexcellent⟩ := htiers
          exact ⟨hfloor, hminor, hexcellent⟩

theorem Policy.IsUsable.floor_le_one {p : Policy} (h : p.IsUsable) :
    p.tiers.hardFloor.le 1 = true := by
  obtain ⟨hfloor, hminor, hexcellent⟩ := h.ordered
  exact Binary64.le_trans (Binary64.le_trans hfloor hminor) hexcellent

/-- Where every eligible task succeeded, the rate is one, or there is none. -/
theorem Statistics.rate_of_complete {s : Statistics} (h : s.succeeded = s.eligible) :
    s.rate = 1 ∨ s.rate = .nan := by
  unfold Statistics.rate
  split
  · exact .inl rfl
  · rw [h]
    exact Binary64.div_self _

/-- A usable policy does not fail a run in which every eligible task succeeded. -/
theorem Policy.IsUsable.judge_of_complete {p : Policy} (h : p.IsUsable) {s : Statistics}
    (hs : s.succeeded = s.eligible) (hclean : s.isClean = true) : p.judge s = .success := by
  have hnot : (s.rate.lt p.threshold || s.rate.lt p.tiers.hardFloor) = false := by
    rcases Statistics.rate_of_complete hs with he | he
    · rw [he, Binary64.lt_eq_false_of_le h.threshold_le_one,
        Binary64.lt_eq_false_of_le h.floor_le_one]
      rfl
    · rw [he]
      rfl
  rw [Policy.judge, hnot, hclean]
  rfl

end ImageBatch
