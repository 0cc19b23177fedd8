import ImageBatch.ErrorLog.Name
import ImageBatch.Proofs.Text.Digits
import ImageBatch.Proofs.Time.Calendar
import Mathlib.Data.List.Forall2

/-!
# How the names of logs sort

The time in a name has a fixed width, so names of different milliseconds sort as these do.
Within a millisecond the names sort by the text of their numbers, and ten comes before two.
-/

namespace ImageBatch

/-! ## Instants in order -/

/-- One reading of a clock is not after another. -/
instance : LE Instant :=
  ⟨fun s t => s.seconds < t.seconds ∨ s.seconds = t.seconds ∧ s.nanos ≤ t.nanos⟩

instance (s t : Instant) : Decidable (s ≤ t) :=
  inferInstanceAs (Decidable (_ ∨ _))

namespace Instant

theorem le_iff {s t : Instant} :
    s ≤ t ↔ s.seconds < t.seconds ∨ s.seconds = t.seconds ∧ s.nanos ≤ t.nanos := Iff.rfl

def sameMillisecond (s t : Instant) : Bool :=
  s.seconds == t.seconds && s.nanos / 1000000 == t.nanos / 1000000

/-- A clock can show the instant, and its year needs no sign. -/
structure IsUsual (t : Instant) : Prop where
  shown : t.IsShown
  year : 0 ≤ t.date.year ∧ t.date.year ≤ 9999

theorem sameMillisecond_iff {s t : Instant} : s.sameMillisecond t = true ↔
    s.seconds = t.seconds ∧ s.nanos / 1000000 = t.nanos / 1000000 := by
  simp [sameMillisecond]

theorem sameMillisecond_self (t : Instant) : t.sameMillisecond t = true :=
  sameMillisecond_iff.mpr ⟨rfl, rfl⟩

theorem sameMillisecond_comm (s t : Instant) : s.sameMillisecond t = t.sameMillisecond s := by
  rw [Bool.eq_iff_iff, sameMillisecond_iff, sameMillisecond_iff, eq_comm,
    eq_comm (a := s.nanos / 1000000)]

theorem le_total (s t : Instant) : s ≤ t ∨ t ≤ s := by
  rw [le_iff, le_iff]
  omega

end Instant

namespace ErrorLog

/-! ## Fields of a fixed width -/

/-- Numbers laid out in fields, with something in front of each. -/
def laidOut : List (List Char × Nat) → List Nat → List Char
  | (gap, width) :: fields, n :: ns => gap ++ Text.paddedDigits width n ++ laidOut fields ns
  | _, _ => []

/-- Each number fits its field. -/
abbrev FitsFields (fields : List (List Char × Nat)) (ns : List Nat) : Prop :=
  List.Forall₂ (fun f n => 0 < f.2 ∧ n < 10 ^ f.2) fields ns

theorem laidOut_lt_iff {fields : List (List Char × Nat)} {as bs : List Nat}
    (ha : FitsFields fields as) (hb : FitsFields fields bs) :
    laidOut fields as < laidOut fields bs ↔ as < bs := by
  induction ha generalizing bs with
  | nil =>
      cases hb
      simp
  | @cons f a fields as hfit ha ih =>
      cases hb with
      | cons hfit' hb =>
          rename_i b bs
          have hlen : (f.1 ++ Text.paddedDigits f.2 a).length =
              (f.1 ++ Text.paddedDigits f.2 b).length := by
            rw [List.length_append, List.length_append,
              Text.length_paddedDigits hfit.1 hfit.2, Text.length_paddedDigits hfit.1 hfit'.2]
          have hinj : Text.paddedDigits f.2 a = Text.paddedDigits f.2 b ↔ a = b :=
            ⟨Text.paddedDigits_inj, fun h => h ▸ rfl⟩
          rw [laidOut, laidOut, Text.append_lt_append_iff hlen, Text.append_lt_append_iff rfl,
            Text.paddedDigits_lt_iff hfit.1 hfit.2 hfit'.2, ih hb, List.cons_lt_cons_iff,
            List.append_cancel_left_eq, hinj]
          simp

/-- The room that fields take. -/
def fieldsWidth : List (List Char × Nat) → Nat
  | [] => 0
  | f :: fields => f.1.length + f.2 + fieldsWidth fields

theorem length_laidOut {fields : List (List Char × Nat)} {ns : List Nat}
    (h : FitsFields fields ns) : (laidOut fields ns).length = fieldsWidth fields := by
  induction h with
  | nil => rfl
  | cons hfit h ih =>
      rw [laidOut, List.length_append, List.length_append, Text.length_paddedDigits hfit.1 hfit.2,
        ih, fieldsWidth]

/-! ## Times in names -/

/-- The fields of the time in a name. -/
def timeFields : List (List Char × Nat) :=
  [([], 4), ([], 2), ([], 2), (['_'], 2), ([], 2), ([], 2), (['_'], 3)]

def timeNumbers (t : Instant) : List Nat :=
  [t.date.year.toNat, t.date.month, t.date.day, t.hour, t.minute, t.second, t.millis]

variable {s t : Instant}

theorem toList_timeText (h : t.IsUsual) :
    (timeText t).toList = laidOut timeFields (timeNumbers t) := by
  have hyear : yearText t.date.year = padded 4 t.date.year.toNat := if_pos h.year
  simp [timeText, hyear, laidOut, timeFields, timeNumbers, Text.toList_padded]

theorem fitsFields_timeNumbers (h : t.IsUsual) : FitsFields timeFields (timeNumbers t) := by
  have hyear := h.year
  have hmonth := (Date.month_ofDays (t.seconds / 86400)).2
  have hday := Date.day_ofDays_le (t.seconds / 86400)
  have hhour := t.hour_lt
  have hminute := t.minute_lt
  have hsecond := h.shown.second_le.1
  have hmillis : t.millis < 1000 := by
    have hsub := t.subsecond_lt
    unfold Instant.millis
    omega
  simp only [FitsFields, timeFields, timeNumbers, List.forall₂_cons, List.Forall₂.nil, and_true]
  refine ⟨⟨?_, ?_⟩, ⟨?_, ?_⟩, ⟨?_, ?_⟩, ⟨?_, ?_⟩, ⟨?_, ?_⟩, ⟨?_, ?_⟩, ⟨?_, ?_⟩⟩
  all_goals
    simp only [Instant.date] at *
    omega

/-- The clock is later by a whole millisecond: a field of the time is greater, and those before it
are equal. -/
theorem timeNumbers_lt (hs : s.IsUsual) (ht : t.IsUsual) (hle : s ≤ t)
    (hne : s.sameMillisecond t = false) : timeNumbers s < timeNumbers t := by
  have hsame : ¬ (s.seconds = t.seconds ∧ s.nanos / 1000000 = t.nanos / 1000000) := by
    rw [← Instant.sameMillisecond_iff, hne]
    exact Bool.false_ne_true
  have hsyear := hs.year
  have htyear := ht.year
  have hsleap := (Instant.isShown_iff.mp hs.shown).2
  have htleap := (Instant.isShown_iff.mp ht.shown).2
  have horder := Instant.le_iff.mp hle
  simp only [timeNumbers, List.cons_lt_cons_iff, List.not_lt_nil, and_false, or_false]
  by_cases hday : s.seconds / 86400 < t.seconds / 86400
  · have hlt := Date.ofDays_lt hday
    unfold Instant.date at *
    omega
  · have hsameDay : s.seconds / 86400 = t.seconds / 86400 := by omega
    have hdate : s.date = t.date := congrArg Date.ofDays hsameDay
    rw [hdate]
    simp only [Nat.lt_irrefl, false_or, true_and]
    unfold Instant.hour Instant.minute Instant.second Instant.millis Instant.subsecond
    by_cases hclock : s.seconds < t.seconds
    · have hlt : s.secondOfDay < t.secondOfDay := by
        unfold Instant.secondOfDay
        omega
      -- Only the last second of a minute can have a leap second, and that is not `s` then.
      have hplain : s.secondOfDay / 60 = t.secondOfDay / 60 → s.nanos < 1000000000 := by
        unfold Instant.secondOfDay
        omega
      omega
    · have hequal : s.secondOfDay = t.secondOfDay := by
        unfold Instant.secondOfDay
        omega
      rw [hequal]
      omega

theorem timeText_of_sameMillisecond (h : s.sameMillisecond t = true) : timeText s = timeText t := by
  obtain ⟨hseconds, hmillis⟩ := Instant.sameMillisecond_iff.mp h
  have hdate : s.date = t.date := by rw [Instant.date, hseconds, Instant.date]
  have hclock : s.secondOfDay = t.secondOfDay := by
    rw [Instant.secondOfDay, hseconds, Instant.secondOfDay]
  have hleap : s.nanos / 1000000000 = t.nanos / 1000000000 := by omega
  have hsub : s.millis = t.millis := by
    unfold Instant.millis Instant.subsecond
    omega
  simp only [timeText, hdate, Instant.hour, Instant.minute, Instant.second, hclock, hleap, hsub]

/-- Times of different milliseconds differ in the order of the clock. -/
theorem timeText_lt (hs : s.IsUsual) (ht : t.IsUsual) (hle : s ≤ t)
    (hne : s.sameMillisecond t = false) : (timeText s).toList < (timeText t).toList := by
  rw [toList_timeText hs, toList_timeText ht,
    laidOut_lt_iff (fitsFields_timeNumbers hs) (fitsFields_timeNumbers ht)]
  exact timeNumbers_lt hs ht hle hne

theorem length_timeText (h : t.IsUsual) : (timeText t).toList.length = 19 := by
  rw [toList_timeText h, length_laidOut (fitsFields_timeNumbers h)]
  rfl

/-! ## Numbers in names -/

/-- What stands behind the time in the name of a log. -/
def numberText (n : Nat) : List Char :=
  (if n = 0 then [] else '_' :: Nat.toDigits 10 n) ++ nameEnd.toList

theorem toList_numberedName (t : Instant) (n : Nat) :
    (numberedName t n).toList = nameStart.toList ++ (timeText t).toList ++ numberText n := by
  by_cases h : n = 0
  · simp [numberedName, numberText, h]
  · simp [numberedName, numberText, h]

theorem numberedName_lt_iff (hs : s.IsUsual) (ht : t.IsUsual) {m n : Nat} :
    numberedName s m < numberedName t n ↔
      (timeText s).toList < (timeText t).toList ∨
        timeText s = timeText t ∧ numberText m < numberText n := by
  have hlen : (timeText s).toList.length = (timeText t).toList.length :=
    (length_timeText hs).trans (length_timeText ht).symm
  rw [String.lt_iff, toList_numberedName, toList_numberedName, List.append_assoc, List.append_assoc,
    Text.append_lt_append_iff rfl, Text.append_lt_append_iff hlen]
  simp [String.toList_inj]

/-- A number whose text sorts behind those of all smaller numbers: all its digits but the last are
nines. -/
def SortsLast (n : Nat) : Prop := ∃ j, n / 10 + 1 = 10 ^ j

theorem sortsLast_of_lt {n : Nat} (h : n < 10) : SortsLast n := ⟨0, by omega⟩

theorem not_sortsLast_ten : ¬ SortsLast 10 := by
  rintro ⟨j, hj⟩
  cases j with
  | zero => cases hj
  | succ j =>
      rw [Nat.pow_succ] at hj
      omega

theorem isDigit_toDigits {n : Nat} : ∀ c ∈ Nat.toDigits 10 n, c.isDigit = true := fun _ hc =>
  Nat.isDigit_of_mem_toDigits (by decide) (by decide) hc

theorem numberText_succ {n : Nat} (h : 0 < n) :
    numberText n = '_' :: (Nat.toDigits 10 n ++ nameEnd.toList) := by
  simp [numberText, Nat.ne_of_gt h]

theorem numberText_lt_of_length {m n : Nat} (hm : 0 < m) (hmn : m < n)
    (hlen : (Nat.toDigits 10 m).length = (Nat.toDigits 10 n).length) :
    numberText m < numberText n := by
  rw [numberText_succ hm, numberText_succ (hm.trans hmn), List.cons_lt_cons_self,
    Text.append_lt_append_iff hlen, Text.digits_lt_iff isDigit_toDigits isDigit_toDigits hlen,
    Text.digitsValue_toDigits, Text.digitsValue_toDigits]
  exact .inl hmn

theorem toDigits_of_sortsLast {n : Nat} (h : SortsLast n) (hn : 10 ≤ n) :
    ∃ j c, Nat.toDigits 10 n = List.replicate (j + 1) '9' ++ [c] ∧ c.isDigit = true := by
  obtain ⟨j, hj⟩ := h
  cases j with
  | zero => omega
  | succ j =>
      have hq : n / 10 = 10 ^ (j + 1) - 1 := by omega
      have hdigits := Nat.toDigits_of_base_le (by decide) hn
      rw [hq, Text.toDigits_nines] at hdigits
      refine ⟨j, _, hdigits, isDigit_toDigits (n := n) _ ?_⟩
      rw [hdigits]
      exact List.mem_append_right _ (List.mem_singleton_self _)

theorem numberText_lt_of_sortsLast {m n : Nat} (h : SortsLast n) (hmn : m < n) :
    numberText m < numberText n := by
  by_cases hm : m = 0
  · subst hm
    rw [numberText_succ hmn]
    exact List.cons_lt_cons_iff.mpr (.inl (by decide))
  have hpos : 0 < m := Nat.pos_of_ne_zero hm
  have hle : (Nat.toDigits 10 m).length ≤ (Nat.toDigits 10 n).length := by
    have hbound := (Nat.length_toDigits_le_iff (by decide) Nat.length_toDigits_pos).mp
      (Nat.le_refl (Nat.toDigits 10 n).length)
    exact (Nat.length_toDigits_le_iff (by decide) Nat.length_toDigits_pos).mpr (hmn.trans hbound)
  rcases Nat.lt_or_eq_of_le hle with hlt | heq
  · have hten : 10 ≤ n := by
      by_contra hlow
      have hone : (Nat.toDigits 10 n).length ≤ 1 :=
        (Nat.length_toDigits_le_iff (by decide) (by decide)).mpr (by omega)
      have hsome : 0 < (Nat.toDigits 10 m).length := Nat.length_toDigits_pos
      omega
    obtain ⟨j, c, hdigits, hc⟩ := toDigits_of_sortsLast h hten
    rw [hdigits, List.length_append, List.length_replicate, List.length_singleton] at hlt
    obtain ⟨k, hk⟩ := Nat.exists_eq_add_of_le (Nat.le_of_lt_succ hlt)
    have hsplit : List.replicate (j + 1) '9' =
        List.replicate (Nat.toDigits 10 m).length '9' ++ List.replicate k '9' := by
      rw [hk, List.replicate_add]
    rw [numberText_succ hpos, numberText_succ (hpos.trans hmn), List.cons_lt_cons_self, hdigits,
      hsplit, List.append_assoc, List.append_assoc,
      Text.append_lt_append_iff (List.length_replicate).symm]
    rcases Text.lt_nines (isDigit_toDigits (n := m)) with hnines | hnines
    · exact .inl hnines
    · refine .inr ⟨hnines, ?_⟩
      cases k with
      | zero =>
          have hdot : '.' < c := Nat.lt_of_lt_of_le (by decide) (Text.isDigit_toNat hc).1
          exact List.cons_lt_cons_iff.mpr (.inl hdot)
      | succ k => exact List.cons_lt_cons_iff.mpr (.inl (by decide))
  · exact numberText_lt_of_length hpos hmn heq

/-- A number of which this is not true comes before a smaller one: the greatest with a digit less.
-/
theorem exists_lt_of_not_sortsLast {n : Nat} (h : ¬ SortsLast n) :
    ∃ m < n, numberText n < numberText m := by
  have hten : 10 ≤ n := Nat.not_lt.mp fun hlow => h (sortsLast_of_lt hlow)
  obtain ⟨k, hk⟩ := Nat.exists_eq_add_of_le' (Nat.length_toDigits_pos (b := 10) (n := n / 10))
  have hdigits := Nat.toDigits_of_base_le (by decide) hten
  have hnines : (Nat.toDigits 10 (n / 10)).length = (List.replicate (k + 1) '9').length := by
    rw [List.length_replicate, hk]
  have hpos : 1 < 10 ^ (k + 1) := Nat.one_lt_pow (Nat.succ_ne_zero k) (by decide)
  have hne : Nat.toDigits 10 (n / 10) ≠ List.replicate (k + 1) '9' := by
    rw [← Text.toDigits_nines]
    intro he
    have hvalue := congrArg Text.digitsValue he
    rw [Text.digitsValue_toDigits, Text.digitsValue_toDigits] at hvalue
    exact h ⟨k + 1, by omega⟩
  have hbound : 10 ^ k ≤ n / 10 := by
    cases k with
    | zero => omega
    | succ k =>
        refine Nat.not_lt.mp fun hlow => ?_
        have hshort := (Nat.length_toDigits_le_iff (by decide) (Nat.succ_pos k)).mpr hlow
        omega
  have hpow : 10 ^ (k + 1) = 10 ^ k * 10 := Nat.pow_succ 10 k
  refine ⟨10 ^ (k + 1) - 1, by omega, ?_⟩
  rw [numberText_succ (by omega : 0 < 10 ^ (k + 1) - 1), numberText_succ (by omega : 0 < n),
    List.cons_lt_cons_self, hdigits, Text.toDigits_nines, List.append_assoc,
    Text.append_lt_append_iff hnines]
  have hlt := Text.lt_nines (isDigit_toDigits (n := n / 10))
  rw [hk] at hlt
  exact .inl (hlt.resolve_right hne)

end ErrorLog

end ImageBatch
