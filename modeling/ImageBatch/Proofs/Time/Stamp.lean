import ImageBatch.Proofs.Text.Digits
import ImageBatch.Proofs.Time.Calendar
import ImageBatch.Time.Stamp

/-!
# Stamps are read back

Reading undoes writing for every instant that a clock can show, leap seconds and signed years
included.
-/

namespace ImageBatch.Stamp

open Text

variable {ds rest : List Char}

/-! ## Numbers -/

theorem number_append {most : Nat} (hds : ∀ c ∈ ds, c.isDigit = true) (hne : ds ≠ [])
    (hmost : ds.length = most ∨ ds.length ≤ most ∧ EndsNumber rest) :
    number most (ds ++ rest) = some (digitsValue ds, rest) := by
  have hle : ds.length ≤ most := hmost.elim Nat.le_of_eq And.left
  have hends : EndsNumber (rest.take (most - ds.length)) := by
    rcases hmost with heq | ⟨-, hend⟩
    · simp [heq, EndsNumber]
    · cases rest with
      | nil => simp [EndsNumber]
      | cons c rest =>
          cases most - ds.length with
          | zero => simp [EndsNumber]
          | succ k => exact hend
  have hfront : ((ds ++ rest).take most).takeWhile Char.isDigit = ds := by
    rw [List.take_append, List.take_of_length_le hle, takeWhile_digits hds hends]
  have hsome : ds.isEmpty = false := by simpa using hne
  unfold number
  simp only [hfront, hsome, List.drop_left]
  rfl

theorem number_paddedDigits {width n : Nat} (hw : 0 < width) (hn : n < 10 ^ width)
    (rest : List Char) : number width (paddedDigits width n ++ rest) = some (n, rest) := by
  rw [number_append isDigit_of_mem_paddedDigits (paddedDigits_ne_nil width n)
    (.inl (length_paddedDigits hw hn)), digitsValue_paddedDigits]

theorem isBlank_of_isDigit {c : Char} (h : c.isDigit = true) : isBlank c = false := by
  have hc := isDigit_toNat h
  simp only [isBlank, Bool.or_eq_false_iff, Bool.and_eq_false_iff, decide_eq_false_iff_not,
    beq_eq_false_iff_ne]
  omega

theorem trimStart_cons {c : Char} (h : isBlank c = false) (cs : List Char) :
    trimStart (c :: cs) = c :: cs := by
  simp [trimStart, h]

theorem trimStart_digits (hds : ∀ c ∈ ds, c.isDigit = true) (hne : ds ≠ []) (rest : List Char) :
    trimStart (ds ++ rest) = ds ++ rest := by
  obtain ⟨c, ds, rfl⟩ := List.exists_cons_of_ne_nil hne
  exact trimStart_cons (isBlank_of_isDigit (hds c List.mem_cons_self)) _

theorem field_paddedDigits {width n : Nat} (hw : 0 < width) (hn : n < 10 ^ width)
    (rest : List Char) : field width (paddedDigits width n ++ rest) = some (n, rest) := by
  rw [field, trimStart_digits isDigit_of_mem_paddedDigits (paddedDigits_ne_nil width n),
    number_paddedDigits hw hn]

theorem mark_cons {c : Char} (h : isBlank c = false) (cs : List Char) :
    mark c (c :: cs) = some cs := by
  rw [mark, trimStart_cons h]
  exact if_pos rfl

/-! ## Years -/

theorem year_digits (hds : ∀ c ∈ ds, c.isDigit = true) (hne : ds ≠ []) (rest : List Char) :
    year (ds ++ rest) = (number 4 (ds ++ rest)).map (fun r => ((r.1 : Int), r.2)) := by
  rw [year, trimStart_digits hds hne]
  obtain ⟨c, ds, rfl⟩ := List.exists_cons_of_ne_nil hne
  have hc := hds c List.mem_cons_self
  split
  · rename_i heq
    rw [(List.cons.inj heq).1] at hc
    cases hc
  · rename_i heq
    rw [(List.cons.inj heq).1] at hc
    cases hc
  · rfl

theorem year_yearText (y : Int) (hend : EndsNumber rest) :
    year ((yearText y).toList ++ rest) = some (y, rest) := by
  have hdigits : ∀ n, ∀ c ∈ paddedDigits 4 n, c.isDigit = true := fun _ =>
    isDigit_of_mem_paddedDigits
  have hsigned : ∀ n, number (paddedDigits 4 n ++ rest).length (paddedDigits 4 n ++ rest) =
      some (n, rest) := by
    intro n
    rw [number_append (hdigits n) (paddedDigits_ne_nil 4 n) (.inr ⟨by simp, hend⟩),
      digitsValue_paddedDigits]
  by_cases hplain : 0 ≤ y ∧ y ≤ 9999
  · rw [yearText, if_pos hplain, toList_padded, year_digits (hdigits _) (paddedDigits_ne_nil 4 _),
      number_paddedDigits (by decide) (by omega), Option.map_some, Int.toNat_of_nonneg hplain.1]
  · rw [yearText, if_neg hplain, String.toList_append, toList_padded]
    by_cases hneg : y < 0
    · have hcast : -(y.natAbs : Int) = y := by omega
      rw [if_pos hneg]
      refine (congrArg (Option.map _) (hsigned y.natAbs)).trans ?_
      rw [Option.map_some, hcast]
    · have hcast : (y.natAbs : Int) = y := by omega
      rw [if_neg hneg]
      refine (congrArg (Option.map _) (hsigned y.natAbs)).trans ?_
      rw [Option.map_some, hcast]

/-! ## Fractions of a second -/

/-- The fraction of a second as a stamp has it. -/
def fractionText (n : Nat) : List Char :=
  if n = 0 then []
  else if n % 1000000 = 0 then '.' :: paddedDigits 3 (n / 1000000)
  else if n % 1000 = 0 then '.' :: paddedDigits 6 (n / 1000)
  else '.' :: paddedDigits 9 n

theorem fraction_paddedDigits {width k : Nat} (hw : 0 < width) (hwidth : width ≤ 9)
    (hk : k < 10 ^ width) (hend : EndsNumber rest) :
    fraction ('.' :: (paddedDigits width k ++ rest)) = some (k * 10 ^ (9 - width), rest) := by
  have hlen := length_paddedDigits hw hk
  have hnumber : number 9 (paddedDigits width k ++ rest) = some (k, rest) := by
    rw [number_append isDigit_of_mem_paddedDigits (paddedDigits_ne_nil width k)
      (.inr ⟨hlen.trans_le hwidth, hend⟩), digitsValue_paddedDigits]
  have hnone : ∀ c ∈ ([] : List Char), c.isDigit = true := nofun
  have hrest : rest.dropWhile Char.isDigit = rest := dropWhile_digits hnone hend
  rw [fraction]
  simp only [hnumber, bind, Option.bind, List.length_append, hlen, Nat.add_sub_cancel, hrest]
  rfl

theorem fraction_fractionText {n : Nat} (hn : n < 1000000000) (rest : List Char) :
    fraction (fractionText n ++ 'Z' :: rest) = some (n, 'Z' :: rest) := by
  have hend : EndsNumber ('Z' :: rest) := by
    rintro c hc
    cases hc
    rfl
  unfold fractionText
  split
  · rename_i hzero
    rw [hzero]
    rfl
  · split
    · rw [List.cons_append, fraction_paddedDigits (by decide) (by decide) (by omega) hend]
      congr 2
      omega
    · split
      · rw [List.cons_append, fraction_paddedDigits (by decide) (by decide) (by omega) hend]
        congr 2
        omega
      · rw [List.cons_append, fraction_paddedDigits (by decide) (by decide) hn hend]
        congr 2
        omega

/-! ## Stamps -/

theorem toList_stamp (t : Instant) : t.stamp.toList =
    (yearText t.date.year).toList ++ '-' :: (paddedDigits 2 t.date.month ++
      '-' :: (paddedDigits 2 t.date.day ++ 'T' :: (paddedDigits 2 t.hour ++
        ':' :: (paddedDigits 2 t.minute ++ ':' :: (paddedDigits 2 t.second ++
          (fractionText t.subsecond ++ ['Z'])))))) := by
  have hfraction : (if t.subsecond = 0 then ""
      else if t.subsecond % 1000000 = 0 then "." ++ padded 3 (t.subsecond / 1000000)
      else if t.subsecond % 1000 = 0 then "." ++ padded 6 (t.subsecond / 1000)
      else "." ++ padded 9 t.subsecond : String).toList = fractionText t.subsecond := by
    unfold fractionText
    split
    · rfl
    · split
      · rw [String.toList_append, toList_padded]
        rfl
      · split <;> (rw [String.toList_append, toList_padded]; rfl)
  rw [Instant.stamp, Instant.stampHead]
  simp only [String.toList_append, toList_padded, hfraction, List.append_assoc]
  rfl

theorem seconds_of_parts {t : Instant} (h : t.IsShown) :
    t.date.toDays * 86400 + (t.hour * 3600 + t.minute * 60 +
      (t.second - if t.second = 60 then 1 else 0) : Nat) - 0 = t.seconds := by
  have hdays : t.date.toDays = t.seconds / 86400 := Date.toDays_ofDays _
  have hsecond := h.second_le
  have hnanos := (Instant.isShown_iff.mp h).2.1
  rw [hdays]
  unfold Instant.hour Instant.minute Instant.second Instant.secondOfDay at *
  split <;> omega

theorem nanos_of_parts {t : Instant} (h : t.IsShown) :
    t.subsecond + (if t.second = 60 then 1 else 0) * 1000000000 = t.nanos := by
  have hsecond := h.second_le.2
  have hnanos := (Instant.isShown_iff.mp h).2.1
  unfold Instant.subsecond
  split <;> omega

theorem read_stamp {t : Instant} (h : t.IsShown) : read t.stamp.toList = some t := by
  have hyear := (Instant.isShown_iff.mp h).1
  have hsecond := h.second_le
  have hmonth := (Date.month_ofDays (t.seconds / 86400)).2
  have hday := Date.day_ofDays_le (t.seconds / 86400)
  have hhour := t.hour_lt
  have hminute := t.minute_lt
  have hdash : ∀ cs, EndsNumber ('-' :: cs) := by
    rintro cs c hc
    cases hc
    rfl
  have hfield : ∀ n < 100, ∀ cs, field 2 (paddedDigits 2 n ++ cs) = some (n, cs) := fun n hn cs =>
    field_paddedDigits (by decide) hn cs
  rw [toList_stamp, read]
  refine Option.bind_eq_some_iff.mpr ⟨_, year_yearText _ (hdash _), ?_⟩
  refine Option.bind_eq_some_iff.mpr ⟨_, mark_cons rfl _, ?_⟩
  refine Option.bind_eq_some_iff.mpr ⟨_, hfield _ (Nat.lt_of_le_of_lt hmonth (by decide)) _, ?_⟩
  refine Option.bind_eq_some_iff.mpr ⟨_, mark_cons rfl _, ?_⟩
  refine Option.bind_eq_some_iff.mpr ⟨_, hfield _ (Nat.lt_of_le_of_lt hday (by decide)) _, ?_⟩
  refine Option.bind_eq_some_iff.mpr ⟨_, rfl, ?_⟩
  refine Option.bind_eq_some_iff.mpr ⟨_, hfield _ (hhour.trans (by decide)) _, ?_⟩
  refine Option.bind_eq_some_iff.mpr ⟨_, mark_cons rfl _, ?_⟩
  refine Option.bind_eq_some_iff.mpr ⟨_, hfield _ (hminute.trans (by decide)) _, ?_⟩
  refine Option.bind_eq_some_iff.mpr ⟨_, mark_cons rfl _, ?_⟩
  refine Option.bind_eq_some_iff.mpr
    ⟨_, hfield _ (Nat.lt_of_le_of_lt hsecond.1 (by decide)) _, ?_⟩
  refine Option.bind_eq_some_iff.mpr ⟨_, fraction_fractionText t.subsecond_lt [], ?_⟩
  refine Option.bind_eq_some_iff.mpr ⟨((0 : Int), []), rfl, ?_⟩
  refine Option.bind_eq_some_iff.mpr ⟨(), if_pos ⟨rfl, hhour, hminute, hsecond.1⟩, ?_⟩
  refine Option.bind_eq_some_iff.mpr ⟨t.date, Date.of?_ofDays hyear, ?_⟩
  dsimp only
  rw [seconds_of_parts h, nanos_of_parts h]
  exact if_pos hyear

end ImageBatch.Stamp
