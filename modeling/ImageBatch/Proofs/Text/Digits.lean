import ImageBatch.Text.Number
import ImageBatch.Time.Instant
import Mathlib.Data.List.Lex
import Mathlib.Data.String.Basic

/-!
# Digits

A number in base ten is read back from its digits, and numbers with equally many digits sort as
their texts do.
-/

namespace ImageBatch.Text

/-! ## Texts of equal length -/

theorem append_lt_append_iff {s s' t t' : List Char} (h : s.length = s'.length) :
    s ++ t < s' ++ t' ↔ s < s' ∨ s = s' ∧ t < t' := by
  induction s generalizing s' with
  | nil =>
      have hnil : s' = [] := List.length_eq_zero_iff.mp h.symm
      simp [hnil]
  | cons c s ih =>
      cases s' with
      | nil => cases h
      | cons d s' =>
          rw [List.cons_append, List.cons_append, List.cons_lt_cons_iff, List.cons_lt_cons_iff,
            ih (Nat.succ.inj h), List.cons.injEq]
          tauto

/-! ## The value of digits -/

theorem valueOf_eq (ds : List Char) : digitsValue ds = Nat.ofDigitChars 10 ds 0 := by
  rw [digitsValue, Nat.ofDigitChars_eq_foldl]
  congr 1
  funext n c
  rw [Nat.mul_comm]
  rfl

theorem digitsValue_toDigits (n : Nat) : digitsValue (Nat.toDigits 10 n) = n := by
  rw [valueOf_eq, Nat.ofDigitChars_ten_toDigits]

theorem digitsValue_cons (c : Char) (ds : List Char) :
    digitsValue (c :: ds) = 10 ^ ds.length * (c.toNat - 48) + digitsValue ds := by
  rw [valueOf_eq, valueOf_eq, Nat.ofDigitChars_cons, Nat.ofDigitChars_eq_ofDigitChars_zero]
  simp

theorem isDigit_toNat {c : Char} (h : c.isDigit = true) : 48 ≤ c.toNat ∧ c.toNat ≤ 57 :=
  Char.isDigit_iff_toNat.mp h

theorem digitsValue_lt {ds : List Char} (h : ∀ c ∈ ds, c.isDigit = true) :
    digitsValue ds < 10 ^ ds.length := by
  induction ds with
  | nil => decide
  | cons c ds ih =>
      obtain ⟨hc, hds⟩ := List.forall_mem_cons.mp h
      have hlt := ih hds
      have hle := (isDigit_toNat hc).2
      have hmul : 10 ^ ds.length * (c.toNat - 48) ≤ 10 ^ ds.length * 9 :=
        Nat.mul_le_mul_left _ (by omega)
      rw [digitsValue_cons, List.length_cons, Nat.pow_succ]
      omega

/-- No digit stands in front. -/
def EndsNumber (rest : List Char) : Prop := ∀ c ∈ rest.head?, c.isDigit = false

theorem takeWhile_digits {ds rest : List Char} (hds : ∀ c ∈ ds, c.isDigit = true)
    (hend : EndsNumber rest) : (ds ++ rest).takeWhile Char.isDigit = ds := by
  rw [List.takeWhile_append_of_pos hds]
  cases rest with
  | nil => simp
  | cons c rest => simp [hend c rfl]

theorem dropWhile_digits {ds rest : List Char} (hds : ∀ c ∈ ds, c.isDigit = true)
    (hend : EndsNumber rest) : (ds ++ rest).dropWhile Char.isDigit = rest := by
  rw [List.dropWhile_append_of_pos hds]
  cases rest with
  | nil => rfl
  | cons c rest => simp [hend c rfl]

theorem digits_lt_iff {ds es : List Char} (hds : ∀ c ∈ ds, c.isDigit = true)
    (hes : ∀ c ∈ es, c.isDigit = true) (hlen : ds.length = es.length) :
    ds < es ↔ digitsValue ds < digitsValue es := by
  induction ds generalizing es with
  | nil =>
      have hnil : es = [] := List.length_eq_zero_iff.mp hlen.symm
      simp [hnil]
  | cons c ds ih =>
      cases es with
      | nil => cases hlen
      | cons d es =>
          obtain ⟨hc, hds⟩ := List.forall_mem_cons.mp hds
          obtain ⟨hd, hes⟩ := List.forall_mem_cons.mp hes
          have hlen : ds.length = es.length := Nat.succ.inj hlen
          have hltds := digitsValue_lt hds
          have hltes := digitsValue_lt hes
          have hc48 := (isDigit_toNat hc).1
          have hd48 := (isDigit_toNat hd).1
          rw [List.cons_lt_cons_iff, ih hds hes hlen, digitsValue_cons, digitsValue_cons, hlen]
          rw [hlen] at hltds
          rcases Nat.lt_trichotomy c.toNat d.toNat with hcd | hcd | hcd
          · have hmul : 10 ^ es.length * (c.toNat - 48) + 10 ^ es.length ≤
                10 ^ es.length * (d.toNat - 48) := by
              rw [← Nat.mul_succ]
              exact Nat.mul_le_mul_left _ (by omega)
            exact iff_of_true (.inl hcd) (by omega)
          · have hsame : c = d := Char.toNat_inj.mp hcd
            subst hsame
            simp
          · have hmul : 10 ^ es.length * (d.toNat - 48) + 10 ^ es.length ≤
                10 ^ es.length * (c.toNat - 48) := by
              rw [← Nat.mul_succ]
              exact Nat.mul_le_mul_left _ (by omega)
            refine iff_of_false ?_ (by omega)
            rintro (hlt | ⟨rfl, -⟩)
            · exact Nat.lt_asymm hcd hlt
            · exact Nat.lt_irrefl _ hcd

/-! ## Numbers of a fixed width -/

/-- The digits of a number, with zeros in front. -/
def paddedDigits (width n : Nat) : List Char :=
  List.replicate (width - (Nat.toDigits 10 n).length) '0' ++ Nat.toDigits 10 n

theorem toList_padded (width n : Nat) : (padded width n).toList = paddedDigits width n :=
  String.toList_ofList

theorem isDigit_of_mem_paddedDigits {width n : Nat} :
    ∀ c ∈ paddedDigits width n, c.isDigit = true := by
  intro c hc
  rcases List.mem_append.mp hc with hc | hc
  · rw [(List.mem_replicate.mp hc).2]
    rfl
  · exact Nat.isDigit_of_mem_toDigits (by decide) (by decide) hc

theorem paddedDigits_ne_nil (width n : Nat) : paddedDigits width n ≠ [] :=
  List.append_ne_nil_of_right_ne_nil _ (List.ne_nil_of_length_pos Nat.length_toDigits_pos)

theorem length_paddedDigits {width n : Nat} (hw : 0 < width) (hn : n < 10 ^ width) :
    (paddedDigits width n).length = width := by
  have hlen := (Nat.length_toDigits_le_iff (by decide) hw).mpr hn
  rw [paddedDigits, List.length_append, List.length_replicate]
  omega

theorem digitsValue_paddedDigits (width n : Nat) : digitsValue (paddedDigits width n) = n := by
  rw [valueOf_eq, paddedDigits, Nat.ofDigitChars_append, Nat.ofDigitChars_replicate_zero,
    Nat.mul_zero, Nat.ofDigitChars_ten_toDigits]

theorem paddedDigits_lt_iff {width a b : Nat} (hw : 0 < width) (ha : a < 10 ^ width)
    (hb : b < 10 ^ width) : paddedDigits width a < paddedDigits width b ↔ a < b := by
  have hlen : (paddedDigits width a).length = (paddedDigits width b).length :=
    (length_paddedDigits hw ha).trans (length_paddedDigits hw hb).symm
  rw [digits_lt_iff isDigit_of_mem_paddedDigits isDigit_of_mem_paddedDigits hlen,
    digitsValue_paddedDigits, digitsValue_paddedDigits]

theorem paddedDigits_inj {width a b : Nat} (h : paddedDigits width a = paddedDigits width b) :
    a = b := by
  rw [← digitsValue_paddedDigits width a, h, digitsValue_paddedDigits]

/-! ## Nines -/

theorem toDigits_nines (k : Nat) :
    Nat.toDigits 10 (10 ^ (k + 1) - 1) = List.replicate (k + 1) '9' := by
  induction k with
  | zero => rfl
  | succ k ih =>
      have hpos : 1 < 10 ^ (k + 1) := Nat.one_lt_pow (Nat.succ_ne_zero k) (by decide)
      have hstep : 10 ^ (k + 2) - 1 = 10 * (10 ^ (k + 1) - 1) + 9 := by
        rw [Nat.pow_succ 10 (k + 1)]
        omega
      rw [hstep, ← Nat.toDigits_append_toDigits (by decide) (by omega) (by decide), ih,
        List.replicate_succ' (n := k + 1)]
      rfl

theorem lt_nines {ds : List Char} (h : ∀ c ∈ ds, c.isDigit = true) :
    ds < List.replicate ds.length '9' ∨ ds = List.replicate ds.length '9' := by
  induction ds with
  | nil => exact .inr rfl
  | cons c ds ih =>
      obtain ⟨hc, hds⟩ := List.forall_mem_cons.mp h
      rw [List.length_cons, List.replicate_succ, List.cons_lt_cons_iff, List.cons.injEq]
      by_cases hnine : c = '9'
      · rcases ih hds with hlt | heq
        · exact .inl (.inr ⟨hnine, hlt⟩)
        · exact .inr ⟨hnine, heq⟩
      · have hle : c.toNat ≤ '9'.toNat := (isDigit_toNat hc).2
        have hne : c.toNat ≠ '9'.toNat := fun he => hnine (Char.toNat_inj.mp he)
        exact .inl (.inl (Nat.lt_of_le_of_ne hle hne))

end ImageBatch.Text
