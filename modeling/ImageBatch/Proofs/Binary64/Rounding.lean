import ImageBatch.Binary64.Decimal
import ImageBatch.Text.Number
import Mathlib.Data.Nat.Log

/-!
# Rounding

A count of units is never rounded to more than its double, so all counts that a machine holds are
finite numbers.
-/

namespace ImageBatch.Binary64

theorem halfEven_le (num den : Nat) : halfEven num den ≤ num / den + 1 := by
  have hmod := Nat.mod_lt (num / den) (by decide : 0 < 2)
  simp only [halfEven]
  split
  · omega
  · split <;> omega

theorem roundedUnits_le (num : Nat) : roundedUnits num 1 ≤ 2 * num := by
  by_cases hzero : num = 0
  · subst hzero
    decide
  · have hspacing : 2 ^ spacing num ≤ num :=
      (Nat.pow_le_pow_right (by decide) (Nat.sub_le _ _)).trans (Nat.log2_self_le hzero)
    simp only [roundedUnits, Nat.div_one, Nat.one_mul, Nat.pow_eq]
    calc halfEven num (2 ^ spacing num) * 2 ^ spacing num
        ≤ (num / 2 ^ spacing num + 1) * 2 ^ spacing num := Nat.mul_le_mul_right _ (halfEven_le _ _)
      _ = num / 2 ^ spacing num * 2 ^ spacing num + 2 ^ spacing num := Nat.succ_mul _ _
      _ ≤ num + num := Nat.add_le_add (Nat.div_mul_le_self _ _) hspacing
      _ = 2 * num := (Nat.two_mul num).symm

theorem double_count_le {k m : Nat} (h : 65 + k ≤ m) :
    2 * (countBound * Nat.pow 2 k) ≤ Nat.pow 2 m := by
  have hcount : countBound = 2 ^ 64 := rfl
  rw [hcount, Nat.pow_eq, Nat.pow_eq, ← Nat.pow_add, ← Nat.pow_succ']
  exact Nat.pow_le_pow_right (by decide) (by omega)

theorem pow_two_pos (k : Nat) : 0 < Nat.pow 2 k := Nat.two_pow_pos k

theorem one_pos : 0 < one := by
  unfold one
  apply pow_two_pos

theorem double_count_le_tooLarge : 2 * (countBound * one) ≤ tooLarge := by
  unfold one tooLarge
  apply double_count_le
  decide

theorem roundedUnits_lt_tooLarge {n : Nat} (h : n < countBound) :
    roundedUnits (n * one) 1 < tooLarge :=
  calc roundedUnits (n * one) 1 ≤ 2 * (n * one) := roundedUnits_le _
    _ < 2 * (countBound * one) :=
      Nat.mul_lt_mul_of_pos_left (Nat.mul_lt_mul_of_pos_right h one_pos) (by decide)
    _ ≤ tooLarge := double_count_le_tooLarge

theorem exists_ofDecimal_eq_finite (negative : Bool) {n : Nat} (h : n < countBound) :
    ∃ units, ofDecimal negative ⟨n, 0⟩ = finite negative units := by
  by_cases hzero : n = 0
  · exact ⟨0, if_pos hzero⟩
  · have hlen : (Nat.toDigits 10 n).length ≤ 20 :=
      (Nat.length_toDigits_le_iff (by decide) (by decide)).mpr
        (h.trans_le (by decide : countBound ≤ 10 ^ 20))
    have hunits : roundedUnits (n * one) 1 < tooLarge := roundedUnits_lt_tooLarge h
    have hsame : n * Nat.pow 10 0 = n := Nat.mul_one n
    refine ⟨roundedUnits (n * one) 1, ?_⟩
    simp only [ofDecimal, if_neg hzero]
    rw [if_neg (by omega), if_neg (by omega), if_pos (Int.le_refl 0), Int.toNat_zero, hsame,
      ofUnits]
    exact if_pos hunits

end ImageBatch.Binary64
