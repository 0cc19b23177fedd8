import ImageBatch.Proofs.Binary64.Rounding
import Mathlib.Algebra.GroupWithZero.Nat

/-!
# The order of rounded numbers

Rounding keeps the order of quotients, and a count of units that a number can hold is not rounded at
all. So no number lies between a quotient and what it is rounded to.
-/

namespace ImageBatch.Binary64

/-! ## Comparing numbers -/

section Compare

variable {x y z : Binary64}

theorem lt_eq_false_of_le (h : x.le y = true) : y.lt x = false := by
  unfold le at h
  unfold lt
  cases hx : x.place? <;> cases hy : y.place? <;> simp_all

theorem le_trans (hxy : x.le y = true) (hyz : y.le z = true) : x.le z = true := by
  unfold le at *
  cases hx : x.place? <;> cases hy : y.place? <;> cases hz : z.place? <;> simp_all
  omega

theorem lt_of_le_of_lt (hxy : x.le y = true) (hyz : y.lt z = true) : x.lt z = true := by
  unfold le at hxy
  unfold lt at *
  cases hx : x.place? <;> cases hy : y.place? <;> cases hz : z.place? <;> simp_all
  omega

theorem lt_of_lt_of_le (hxy : x.lt y = true) (hyz : y.le z = true) : x.lt z = true := by
  unfold le at hyz
  unfold lt at *
  cases hx : x.place? <;> cases hy : y.place? <;> cases hz : z.place? <;> simp_all
  omega

/-- Of two numbers that have a place one is below the other or not above it. -/
theorem lt_eq_not_le (hx : x.place?.isSome = true) (hy : y.place?.isSome = true) :
    x.lt y = !y.le x := by
  obtain ⟨a, ha⟩ := Option.isSome_iff_exists.mp hx
  obtain ⟨b, hb⟩ := Option.isSome_iff_exists.mp hy
  simp only [lt, le, ha, hb, ← decide_not, Int.not_le]

theorem isSome_place?_of_le (h : x.le y = true) :
    x.place?.isSome = true ∧ y.place?.isSome = true := by
  unfold le at h
  cases hx : x.place? <;> cases hy : y.place? <;> simp_all

theorem le_finite {a b : Nat} : (finite false a).le (finite false b) = true ↔ a ≤ b := by
  simp [le, place?]

end Compare

variable {a b c d m n u v : Nat}

/-! ## Nearest whole numbers -/

/-- What is nearest is above a whole number from half a step on, and at just half a step if that
number is odd. -/
theorem lt_halfEven_iff (hb : 0 < b) :
    m < halfEven a b ↔
      (2 * m + 1) * b < 2 * a ∨ (2 * m + 1) * b = 2 * a ∧ m % 2 = 1 := by
  have hsplit : b * (a / b) + a % b = a := Nat.div_add_mod a b
  have hrest : a % b < b := Nat.mod_lt a hb
  have hstep : (2 * m + 1) * b = 2 * (m * b) + b := by
    rw [Nat.add_mul, Nat.one_mul, Nat.mul_assoc]
  simp only [halfEven, hstep]
  generalize a / b = q at *
  generalize a % b = r at *
  rw [Nat.mul_comm] at hsplit
  rcases Nat.lt_trichotomy m q with hlt | rfl | hgt
  · have hle : (m + 1) * b ≤ q * b := Nat.mul_le_mul_right b hlt
    rw [Nat.succ_mul] at hle
    split
    · omega
    · split <;> omega
  · split
    · omega
    · split <;> omega
  · have hle : (q + 1) * b ≤ m * b := Nat.mul_le_mul_right b hgt
    rw [Nat.succ_mul] at hle
    split
    · omega
    · split <;> omega

theorem halfEven_mono (hb : 0 < b) (hd : 0 < d) (h : a * d ≤ c * b) :
    halfEven a b ≤ halfEven c d := by
  have hcross : 2 * a * d ≤ 2 * c * b := by
    rw [Nat.mul_assoc, Nat.mul_assoc]
    exact Nat.mul_le_mul_left 2 h
  by_contra hlt
  have habove := (lt_halfEven_iff hb).mp (Nat.not_le.mp hlt)
  refine Nat.lt_irrefl (halfEven c d) ((lt_halfEven_iff hd).mpr ?_)
  generalize halfEven c d = m at habove ⊢
  rcases habove with hmore | ⟨hequal, hodd⟩
  · refine .inl (Nat.lt_of_mul_lt_mul_right (a := b) ?_)
    calc (2 * m + 1) * d * b = (2 * m + 1) * b * d := Nat.mul_right_comm _ d b
      _ < 2 * a * d := Nat.mul_lt_mul_of_pos_right hmore hd
      _ ≤ 2 * c * b := hcross
  · have hle : (2 * m + 1) * d ≤ 2 * c := by
      refine Nat.le_of_mul_le_mul_right ?_ hb
      calc (2 * m + 1) * d * b = (2 * m + 1) * b * d := Nat.mul_right_comm _ d b
        _ = 2 * a * d := by rw [hequal]
        _ ≤ 2 * c * b := hcross
    rcases Nat.lt_or_eq_of_le hle with hmore | hsame
    · exact .inl hmore
    · exact .inr ⟨hsame, hodd⟩

theorem halfEven_mul (hb : 0 < b) (m : Nat) : halfEven (m * b) b = m := by
  rw [halfEven, Nat.mul_div_cancel m hb, Nat.mul_mod_left]
  exact if_pos hb

/-! ## Numbers with 53 significant bits -/

theorem roundedUnits_eq (a b : Nat) : roundedUnits a b =
    halfEven a (b * 2 ^ spacing (a / b)) * 2 ^ spacing (a / b) := rfl

theorem lt_two_pow_spacing (n : Nat) : n < 2 ^ (53 + spacing n) :=
  Nat.lt_log2_self.trans_le (Nat.pow_le_pow_right (by decide) (by unfold spacing; omega))

theorem two_pow_spacing_le (h : spacing n ≠ 0) : 2 ^ (52 + spacing n) ≤ n := by
  have hlog : 52 + spacing n = n.log2 := by
    unfold spacing at *
    omega
  have hn : n ≠ 0 := by
    rintro rfl
    exact h rfl
  exact hlog ▸ Nat.log2_self_le hn

theorem spacing_le (h : n < 2 ^ (53 + m)) : spacing n ≤ m := by
  by_cases hn : n = 0
  · subst hn
    exact Nat.zero_le m
  · have hlog := (Nat.log2_lt hn).mpr h
    unfold spacing
    omega

theorem spacing_mono (h : m ≤ n) : spacing m ≤ spacing n :=
  spacing_le (h.trans_lt (lt_two_pow_spacing n))

theorem roundedUnits_le_two_pow (hb : 0 < b) :
    roundedUnits a b ≤ 2 ^ (53 + spacing (a / b)) := by
  have hlt : a < 2 ^ (53 + spacing (a / b)) * b :=
    (Nat.div_lt_iff_lt_mul hb).mp (lt_two_pow_spacing (a / b))
  have hnearest : halfEven a (b * 2 ^ spacing (a / b)) ≤ 2 ^ 53 := by
    rw [← halfEven_mul Nat.one_pos (2 ^ 53)]
    refine halfEven_mono (Nat.mul_pos hb (Nat.two_pow_pos _)) Nat.one_pos ?_
    rw [Nat.mul_one, Nat.mul_one, ← Nat.mul_assoc, Nat.mul_right_comm, ← Nat.pow_add]
    exact Nat.le_of_lt hlt
  rw [roundedUnits_eq, Nat.pow_add]
  exact Nat.mul_le_mul_right _ hnearest

theorem two_pow_le_roundedUnits (hb : 0 < b) (h : spacing (a / b) ≠ 0) :
    2 ^ (52 + spacing (a / b)) ≤ roundedUnits a b := by
  have hle : 2 ^ (52 + spacing (a / b)) * b ≤ a :=
    (Nat.le_div_iff_mul_le hb).mp (two_pow_spacing_le h)
  have hnearest : 2 ^ 52 ≤ halfEven a (b * 2 ^ spacing (a / b)) := by
    rw [← halfEven_mul Nat.one_pos (2 ^ 52)]
    refine halfEven_mono Nat.one_pos (Nat.mul_pos hb (Nat.two_pow_pos _)) ?_
    rw [Nat.mul_one, Nat.mul_one, ← Nat.mul_assoc, Nat.mul_right_comm, ← Nat.pow_add]
    exact hle
  rw [roundedUnits_eq, Nat.pow_add]
  exact Nat.mul_le_mul_right _ hnearest

theorem roundedUnits_mono (hb : 0 < b) (hd : 0 < d) (h : a * d ≤ c * b) :
    roundedUnits a b ≤ roundedUnits c d := by
  have hquotients : a / b ≤ c / d := by
    refine (Nat.le_div_iff_mul_le hd).mpr (Nat.le_of_mul_le_mul_right ?_ hb)
    calc a / b * d * b = a / b * b * d := Nat.mul_right_comm _ d b
      _ ≤ a * d := Nat.mul_le_mul_right d (Nat.div_mul_le_self a b)
      _ ≤ c * b := h
  rcases Nat.lt_or_eq_of_le (spacing_mono hquotients) with hlt | heq
  · -- A power of two stands between numbers of different spacings.
    have hbelow : roundedUnits a b ≤ 2 ^ (53 + spacing (a / b)) := roundedUnits_le_two_pow hb
    have habove : 2 ^ (52 + spacing (c / d)) ≤ roundedUnits c d :=
      two_pow_le_roundedUnits hd (by omega)
    have hbetween : 2 ^ (53 + spacing (a / b)) ≤ 2 ^ (52 + spacing (c / d)) :=
      Nat.pow_le_pow_right (by decide) (by omega)
    exact hbelow.trans (hbetween.trans habove)
  · rw [roundedUnits_eq, roundedUnits_eq, heq]
    refine Nat.mul_le_mul_right _ (halfEven_mono (Nat.mul_pos hb (Nat.two_pow_pos _))
      (Nat.mul_pos hd (Nat.two_pow_pos _)) ?_)
    rw [← Nat.mul_assoc, ← Nat.mul_assoc]
    exact Nat.mul_le_mul_right _ h

/-- A count of units that a number can hold. -/
def IsExact (units : Nat) : Prop := roundedUnits units 1 = units

theorem isExact_of_dvd (h : 2 ^ spacing u ∣ u) : IsExact u := by
  have hpos : 0 < 2 ^ spacing u := Nat.two_pow_pos _
  rw [IsExact, roundedUnits_eq, Nat.div_one, Nat.one_mul]
  generalize 2 ^ spacing u = step at *
  obtain ⟨k, rfl⟩ := h
  rw [Nat.mul_comm step k, halfEven_mul hpos]

theorem isExact_mul_two_pow (h : m < 2 ^ 53) (k : Nat) : IsExact (m * 2 ^ k) := by
  have hlt : m * 2 ^ k < 2 ^ (53 + k) :=
    Nat.pow_add 2 53 k ▸ Nat.mul_lt_mul_of_pos_right h (Nat.two_pow_pos k)
  have hdvd : 2 ^ spacing (m * 2 ^ k) ∣ 2 ^ k := Nat.pow_dvd_pow 2 (spacing_le hlt)
  exact isExact_of_dvd (Nat.dvd_mul_left_of_dvd hdvd m)

theorem isExact_two_pow (k : Nat) : IsExact (2 ^ k) := by
  have hexact := isExact_mul_two_pow (by decide : 1 < 2 ^ 53) k
  rwa [Nat.one_mul] at hexact

theorem isExact_roundedUnits (hb : 0 < b) : IsExact (roundedUnits a b) := by
  have hle := roundedUnits_le_two_pow (a := a) hb
  rw [roundedUnits_eq, Nat.pow_add] at hle
  rw [roundedUnits_eq]
  rcases Nat.lt_or_eq_of_le (Nat.le_of_mul_le_mul_right hle (Nat.two_pow_pos _)) with hlt | htop
  · exact isExact_mul_two_pow hlt _
  · rw [htop, ← Nat.pow_add]
    exact isExact_two_pow _

theorem one_eq : one = 2 ^ 1074 := by
  unfold one
  generalize 1074 = k
  exact Nat.pow_eq

theorem isExact_one : IsExact one := by
  rw [one_eq]
  exact isExact_two_pow 1074

theorem isExact_count (h : n < 2 ^ 53) : IsExact (n * one) := by
  rw [one_eq]
  exact isExact_mul_two_pow h 1074

theorem le_roundedUnits (hb : 0 < b) (hv : IsExact v) (h : v * b ≤ a) : v ≤ roundedUnits a b := by
  rw [← hv]
  exact roundedUnits_mono Nat.one_pos hb (by rwa [Nat.mul_one])

theorem roundedUnits_le_of_le (hb : 0 < b) (hv : IsExact v) (h : a ≤ v * b) :
    roundedUnits a b ≤ v := by
  rw [← hv]
  exact roundedUnits_mono hb Nat.one_pos (by rwa [Nat.mul_one])

/-! ## Quotients of counts -/

/-- The units of the quotient of two counts, each of which is rounded first. -/
def quotientUnits (m n : Nat) : Nat :=
  roundedUnits (roundedUnits (m * one) 1 * one) (roundedUnits (n * one) 1)

theorem roundedUnits_self (hm : 0 < m) : roundedUnits (m * one) m = one :=
  Nat.le_antisymm (roundedUnits_le_of_le hm isExact_one (Nat.le_of_eq (Nat.mul_comm m one)))
    (le_roundedUnits hm isExact_one (Nat.le_of_eq (Nat.mul_comm one m)))

theorem count_pos (hn : 0 < n) : 0 < roundedUnits (n * one) 1 := by
  refine Nat.lt_of_lt_of_le one_pos (le_roundedUnits Nat.one_pos isExact_one ?_)
  rw [Nat.mul_one]
  exact Nat.le_mul_of_pos_left one hn

theorem count_mono (h : m ≤ n) : roundedUnits (m * one) 1 ≤ roundedUnits (n * one) 1 :=
  roundedUnits_mono Nat.one_pos Nat.one_pos
    (Nat.mul_le_mul_right 1 (Nat.mul_le_mul_right one h))

theorem quotientUnits_mono (hn : 0 < n) (h : u ≤ v) : quotientUnits u n ≤ quotientUnits v n :=
  roundedUnits_mono (count_pos hn) (count_pos hn)
    (Nat.mul_le_mul_right _ (Nat.mul_le_mul_right one (count_mono h)))

theorem quotientUnits_self (hn : 0 < n) : quotientUnits n n = one :=
  roundedUnits_self (count_pos hn)

theorem isExact_quotientUnits (hn : 0 < n) : IsExact (quotientUnits m n) :=
  isExact_roundedUnits (count_pos hn)

theorem quotientUnits_of_small (hm : m < 2 ^ 53) (hn : n < 2 ^ 53) :
    quotientUnits m n = roundedUnits (m * one * one) (n * one) := by
  have hexact : ∀ k < 2 ^ 53, roundedUnits (k * one) 1 = k * one := fun k hk => isExact_count hk
  rw [quotientUnits, hexact m hm, hexact n hn]

/-- No number lies between the quotient of small counts and what it is rounded to. -/
theorem le_quotientUnits (hm : m < 2 ^ 53) (hn : n < 2 ^ 53) (hpos : 0 < n) (hv : IsExact v)
    (h : v * n ≤ m * one) : v ≤ quotientUnits m n := by
  rw [quotientUnits_of_small hm hn]
  refine le_roundedUnits (Nat.mul_pos hpos one_pos) hv ?_
  rw [← Nat.mul_assoc]
  exact Nat.mul_le_mul_right one h

theorem quotientUnits_le (hm : m < 2 ^ 53) (hn : n < 2 ^ 53) (hpos : 0 < n) (hv : IsExact v)
    (h : m * one ≤ v * n) : quotientUnits m n ≤ v := by
  rw [quotientUnits_of_small hm hn]
  refine roundedUnits_le_of_le (Nat.mul_pos hpos one_pos) hv ?_
  rw [← Nat.mul_assoc]
  exact Nat.mul_le_mul_right one h

theorem ofNat_eq (h : n < countBound) : ofNat n = finite false (roundedUnits (n * one) 1) := by
  rw [ofNat, ofUnits]
  exact if_pos (roundedUnits_lt_tooLarge h)

theorem one_lt_tooLarge : one < tooLarge := by
  have hone := roundedUnits_lt_tooLarge (by decide : 1 < countBound)
  rwa [roundedUnits_self Nat.one_pos] at hone

theorem ofNat_one : ofNat 1 = finite false one := by
  rw [ofNat_eq (by decide), roundedUnits_self Nat.one_pos]

theorem div_ofNat (hle : m ≤ n) (hpos : 0 < n) (hn : n < countBound) :
    ofNat m / ofNat n = finite false (quotientUnits m n) := by
  have hbelow : quotientUnits m n < tooLarge :=
    calc quotientUnits m n ≤ quotientUnits n n := quotientUnits_mono hpos hle
      _ = one := quotientUnits_self hpos
      _ < tooLarge := one_lt_tooLarge
  rw [ofNat_eq (Nat.lt_of_le_of_lt hle hn), ofNat_eq hn]
  show div _ _ = _
  rw [div, if_neg (Nat.ne_of_gt (count_pos hpos)), ofUnits]
  exact if_pos hbelow

end ImageBatch.Binary64
