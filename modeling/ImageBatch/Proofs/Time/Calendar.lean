import ImageBatch.Time.Instant
import Mathlib.Order.Monotone.Basic

/-!
# The calendar

A date is one that exists, and the days up to it can be counted back. A later day has a later date.
Both are shown year by year: an era is 400 years long, years are counted from March, and within an
era the number of a year follows from the number of the day.
-/

namespace ImageBatch.Date

/-! ## Years of an era -/

/-- The year of an era in which a day of the era lies. -/
def eraYear (d : Nat) : Nat := (d - d / 1460 + d / 36524 - d / 146096) / 365

/-- The days of an era before one of its years. The last year ends with the era. -/
def eraStart (y : Nat) : Nat := 365 * y + y / 4 - y / 100 + y / 400

theorem eraYear_mono : Monotone eraYear := by
  refine monotone_nat_of_le_succ ?_
  intro d
  refine Nat.div_le_div_right ?_
  omega

theorem eraYear_eraStart : ∀ y < 400,
    eraYear (eraStart y) = y ∧ eraYear (eraStart (y + 1) - 1) = y ∧
      eraStart y < eraStart (y + 1) := by
  decide +kernel

theorem eraYear_lt {d : Nat} (hd : d < 146097) : eraYear d < 400 := by
  have hlast : eraYear 146096 = 399 := by decide
  have hle := eraYear_mono (Nat.le_of_lt_succ hd)
  omega

theorem eraStart_eraYear {d : Nat} (hd : d < 146097) :
    eraStart (eraYear d) ≤ d ∧ d < eraStart (eraYear d + 1) := by
  have hyear := eraYear_lt hd
  generalize hy : eraYear d = y at hyear
  constructor
  · by_contra hlt
    cases y with
    | zero => exact hlt (Nat.zero_le d)
    | succ y =>
        obtain ⟨-, hlast, -⟩ := eraYear_eraStart y (by omega)
        have hle := eraYear_mono (show d ≤ eraStart (y + 1) - 1 by omega)
        omega
  · by_contra hle
    by_cases hnext : y + 1 < 400
    · obtain ⟨hfirst, -, -⟩ := eraYear_eraStart (y + 1) hnext
      have hge := eraYear_mono (Nat.not_lt.mp hle)
      omega
    · have hy : y + 1 = 400 := by omega
      rw [hy] at hle
      exact hle hd

/-! ## Months of a year -/

/-- The month, counted from March, in which a day of a year lies. -/
def monthIndex (d : Nat) : Nat := (5 * d + 2) / 153

/-- The days of a year before one of its months. -/
def monthStart (m : Nat) : Nat := (153 * m + 2) / 5

theorem monthStart_monthIndex (d : Nat) : monthStart (monthIndex d) ≤ d := by
  unfold monthStart monthIndex
  omega

/-- The days of the calendar, by the year and the day of the year, both counted from March. -/
def ofMarch (year : Int) (d : Nat) : Date :=
  let m := monthIndex d
  let month := if m < 10 then m + 3 else m - 9
  ⟨year + (if month ≤ 2 then 1 else 0), month, d - monthStart m + 1⟩

/-- The months since the year zero. -/
def monthCount (d : Date) : Int := d.year * 12 + d.month

theorem monthIndex_lt {d : Nat} (hd : d < 366) : monthIndex d < 12 := by
  unfold monthIndex
  omega

theorem monthCount_ofMarch (year : Int) {d : Nat} (hd : d < 366) :
    (ofMarch year d).monthCount = year * 12 + monthIndex d + 3 := by
  have hlt := monthIndex_lt hd
  simp only [monthCount, ofMarch]
  split <;> split <;> omega

/-! ## Days and dates -/

/-- The era of a day, and which day of the era it is. -/
def era (days : Int) : Int := (days + 719468) / 146097

def eraDay (days : Int) : Nat := ((days + 719468) % 146097).toNat

/-- The year of a day, counted from March, and which day of the year it is. -/
def marchYear (days : Int) : Int := eraYear (eraDay days) + era days * 400

def yearDay (days : Int) : Nat := eraDay days - eraStart (eraYear (eraDay days))

theorem eraDay_lt (days : Int) : eraDay days < 146097 := by
  unfold eraDay
  omega

theorem era_eraDay (days : Int) : era days * 146097 + eraDay days - 719468 = days := by
  unfold era eraDay
  omega

theorem eraStart_of_lt {y : Nat} (hy : y < 400) : eraStart y = 365 * y + y / 4 - y / 100 := by
  unfold eraStart
  omega

theorem ofDays_eq (days : Int) : ofDays days = ofMarch (marchYear days) (yearDay days) := by
  have hstart := eraStart_of_lt (eraYear_lt (eraDay_lt days))
  simp only [ofMarch, yearDay, hstart]
  rfl

theorem eraStart_succ_le : ∀ y < 400, eraStart (y + 1) ≤ eraStart y + 366 ∧
    (eraStart (y + 1) = eraStart y + 366 → isLeapYear (y + 1) = true) := by
  intro y hy
  unfold eraStart
  refine ⟨by omega, fun hlong => ?_⟩
  rw [isLeapYear, Bool.and_eq_true, Bool.or_eq_true, beq_iff_eq, bne_iff_ne, beq_iff_eq]
  omega

theorem yearDay_lt (days : Int) : yearDay days < 366 := by
  have hlt := eraStart_eraYear (eraDay_lt days)
  have hlen := (eraStart_succ_le _ (eraYear_lt (eraDay_lt days))).1
  unfold yearDay
  omega

theorem toDays_ofMarch (year : Int) {d : Nat} (hd : d < 366) :
    (ofMarch year d).toDays = year / 400 * 146097 +
      (year % 400 * 365 + year % 400 / 4 - year % 400 / 100 + d) - 719468 := by
  have hlt := monthIndex_lt hd
  have hmonth := monthStart_monthIndex d
  unfold monthStart at hmonth
  simp only [toDays, ofMarch, monthStart]
  by_cases hten : monthIndex d < 10
  · have hlate : ¬ monthIndex d + 3 ≤ 2 := by omega
    have hindex : monthIndex d + 3 - 3 = monthIndex d := by omega
    simp only [if_pos hten, if_neg hlate, if_pos (Nat.not_le.mp hlate), hindex, Int.add_zero]
    omega
  · have hearly : monthIndex d - 9 ≤ 2 := by omega
    have hindex : monthIndex d - 9 + 9 = monthIndex d := by omega
    simp only [if_neg hten, if_pos hearly, if_neg (Nat.not_lt.mpr hearly), hindex,
      Int.add_sub_cancel]
    omega

theorem toDays_ofDays (days : Int) : (ofDays days).toDays = days := by
  have hyear := eraYear_lt (eraDay_lt days)
  have hstart := (eraStart_eraYear (eraDay_lt days)).1
  have hera := era_eraDay days
  rw [eraStart_of_lt hyear] at hstart
  rw [ofDays_eq, toDays_ofMarch _ (yearDay_lt days), yearDay, eraStart_of_lt hyear, marchYear]
  omega

/-- What a month is never shorter than. -/
def shortestLength (month : Nat) : Nat :=
  if month = 2 then 28 else if month = 4 ∨ month = 6 ∨ month = 9 ∨ month = 11 then 30 else 31

theorem shortestLength_le (year : Int) (month : Nat) :
    shortestLength month ≤ monthLength year month := by
  unfold shortestLength monthLength
  split
  · split <;> omega
  · exact Nat.le_refl _

/-- Every day of a year but the leap day is in its month, whatever the year. -/
theorem day_le_shortestLength :
    ∀ d < 365, (ofMarch 0 d).day ≤ shortestLength (ofMarch 0 d).month := by
  intro d hd
  have hlt := monthIndex_lt (Nat.lt_succ_of_lt hd)
  have hlast : 5 * d + 2 < 153 * monthIndex d + 153 := by
    unfold monthIndex
    omega
  simp only [ofMarch, shortestLength, monthStart]
  by_cases hten : monthIndex d < 10
  · simp only [if_pos hten]
    split
    · omega
    · split <;> omega
  · simp only [if_neg hten]
    split
    · omega
    · split <;> omega

theorem day_ofMarch_le {year : Int} {d : Nat} (hd : d < 366)
    (hleap : d = 365 → isLeapYear (year + 1) = true) :
    (ofMarch year d).day ≤ monthLength (ofMarch year d).year (ofMarch year d).month := by
  by_cases hlast : d = 365
  · subst hlast
    have hlength : monthLength (year + 1) 2 = 29 := by simp [monthLength, hleap rfl]
    exact Nat.le_of_eq hlength.symm
  · exact (day_le_shortestLength d (by omega)).trans (shortestLength_le _ _)

theorem month_ofMarch (year : Int) {d : Nat} (hd : d < 366) :
    1 ≤ (ofMarch year d).month ∧ (ofMarch year d).month ≤ 12 := by
  have hlt := monthIndex_lt hd
  simp only [ofMarch]
  split <;> omega

theorem isLeapYear_add_era (year k : Int) : isLeapYear (year + k * 400) = isLeapYear year := by
  have h₄ : (year + k * 400) % 4 = year % 4 := by omega
  have h₁₀₀ : (year + k * 400) % 100 = year % 100 := by omega
  have h₄₀₀ : (year + k * 400) % 400 = year % 400 := by omega
  rw [isLeapYear, isLeapYear, h₄, h₁₀₀, h₄₀₀]

theorem isLeapYear_of_yearDay {days : Int} (h : yearDay days = 365) :
    isLeapYear (marchYear days + 1) = true := by
  have hyear := eraYear_lt (eraDay_lt days)
  have hstart := eraStart_eraYear (eraDay_lt days)
  obtain ⟨hlen, hleap⟩ := eraStart_succ_le _ hyear
  unfold yearDay at h
  have hyear : marchYear days + 1 = (eraYear (eraDay days) + 1 : Int) + era days * 400 := by
    unfold marchYear
    omega
  rw [hyear, isLeapYear_add_era]
  exact hleap (by omega)

theorem of?_ofDays {days : Int} (hyear : hasYear (ofDays days).year = true) :
    of? (ofDays days).year (ofDays days).month (ofDays days).day = some (ofDays days) := by
  have hday := yearDay_lt days
  rw [ofDays_eq] at hyear ⊢
  obtain ⟨hfirst, hlast⟩ := month_ofMarch (marchYear days) hday
  exact if_pos
    ⟨hyear, hfirst, hlast, Nat.le_add_left 1 _, day_ofMarch_le hday isLeapYear_of_yearDay⟩

/-! ## Later days -/

theorem marchYear_mono {a b : Int} (h : a ≤ b) :
    marchYear a < marchYear b ∨ marchYear a = marchYear b ∧ yearDay a ≤ yearDay b := by
  have ha := eraYear_lt (eraDay_lt a)
  have hb := eraYear_lt (eraDay_lt b)
  have hera : era a < era b ∨ era a = era b ∧ eraDay a ≤ eraDay b := by
    unfold era eraDay
    omega
  unfold marchYear
  rcases hera with hera | ⟨hera, hday⟩
  · exact .inl (by omega)
  · have hyear := eraYear_mono hday
    rcases Nat.lt_or_eq_of_le hyear with hyear | hyear
    · exact .inl (by omega)
    · refine .inr ⟨by omega, ?_⟩
      rw [yearDay, yearDay, hyear]
      exact Nat.sub_le_sub_right hday _

theorem ofDays_mono {a b : Int} (h : a ≤ b) :
    (ofDays a).monthCount < (ofDays b).monthCount ∨
      (ofDays a).monthCount = (ofDays b).monthCount ∧ (ofDays a).day ≤ (ofDays b).day := by
  rw [ofDays_eq, ofDays_eq, monthCount_ofMarch _ (yearDay_lt a),
    monthCount_ofMarch _ (yearDay_lt b)]
  have ha := monthIndex_lt (yearDay_lt a)
  rcases marchYear_mono h with hyear | ⟨hyear, hday⟩
  · exact .inl (by omega)
  · have hmonth : monthIndex (yearDay a) ≤ monthIndex (yearDay b) := by
      unfold monthIndex
      omega
    rcases Nat.lt_or_eq_of_le hmonth with hmonth | hmonth
    · exact .inl (by omega)
    · refine .inr ⟨by omega, ?_⟩
      simp only [ofMarch, hmonth]
      omega

theorem ofDays_injective : Function.Injective ofDays := by
  intro a b h
  rw [← toDays_ofDays a, h, toDays_ofDays]

theorem month_ofDays (days : Int) : 1 ≤ (ofDays days).month ∧ (ofDays days).month ≤ 12 := by
  rw [ofDays_eq]
  exact month_ofMarch _ (yearDay_lt days)

/-- A day that is really later comes in a later year, or in a later month, or later in the month. -/
theorem ofDays_lt {a b : Int} (h : a < b) :
    (ofDays a).year < (ofDays b).year ∨ (ofDays a).year = (ofDays b).year ∧
      ((ofDays a).month < (ofDays b).month ∨ (ofDays a).month = (ofDays b).month ∧
        (ofDays a).day < (ofDays b).day) := by
  have ha := month_ofDays a
  have hb := month_ofDays b
  have hne : ¬ ((ofDays a).year = (ofDays b).year ∧ (ofDays a).month = (ofDays b).month ∧
      (ofDays a).day = (ofDays b).day) := by
    rintro ⟨hyear, hmonth, hday⟩
    have hdate : ofDays a = ofDays b := by
      rw [Date.mk.injEq]
      exact ⟨hyear, hmonth, hday⟩
    exact Int.ne_of_lt h (ofDays_injective hdate)
  have hmono := ofDays_mono (Int.le_of_lt h)
  unfold monthCount at hmono
  omega

theorem day_ofDays_le (days : Int) : (ofDays days).day ≤ 31 := by
  have hindex := monthIndex_lt (yearDay_lt days)
  rw [ofDays_eq]
  simp only [ofMarch, monthStart, monthIndex] at *
  omega

end ImageBatch.Date

/-! ## Clock readings -/

namespace ImageBatch.Instant

/-- A clock can show the instant. -/
def IsShown (t : Instant) : Prop := of? t.seconds t.nanos = some t

instance (t : Instant) : Decidable t.IsShown := inferInstanceAs (Decidable (_ = _))

variable {t : Instant}

theorem isShown_iff : t.IsShown ↔ Date.hasYear t.date.year ∧ t.nanos < 2000000000 ∧
    (t.nanos < 1000000000 ∨ t.seconds % 60 = 59) := by
  rw [IsShown, of?]
  exact ⟨fun h => (Option.ite_none_right_eq_some.mp h).1, fun h => if_pos h⟩

theorem secondOfDay_lt (t : Instant) : t.secondOfDay < 86400 := by
  unfold secondOfDay
  omega

theorem hour_lt (t : Instant) : t.hour < 24 := by
  have hday := t.secondOfDay_lt
  unfold hour
  omega

theorem minute_lt (t : Instant) : t.minute < 60 := Nat.mod_lt _ (by decide)

theorem subsecond_lt (t : Instant) : t.subsecond < 1000000000 := Nat.mod_lt _ (by decide)

theorem IsShown.second_le (h : t.IsShown) :
    t.second ≤ 60 ∧ (t.second = 60 ↔ 1000000000 ≤ t.nanos) := by
  obtain ⟨-, hnanos, hleap⟩ := isShown_iff.mp h
  have hmod : (t.secondOfDay : Int) % 60 = t.seconds % 60 := by
    unfold secondOfDay
    omega
  unfold second
  omega

end ImageBatch.Instant
