import ImageBatch.Proofs.ErrorLog.Names
import ImageBatch.Proofs.Text.Bytes
import Mathlib.Data.Prod.Lex

/-!
# Names in the order of time

The first log of a millisecond has a name that sorts by its bytes as the millisecond does among the
others, leap seconds included, and no other millisecond has that name.
-/

namespace ImageBatch

/-- A clock reading down to its whole milliseconds: the seconds, and the milliseconds behind them,
which go on counting in a leap second. -/
def Instant.inMillis (t : Instant) : Int ×ₗ Nat := toLex (t.seconds, t.nanos / 1000000)

namespace Instant

variable {s t : Instant}

theorem inMillis_lt_iff : s.inMillis < t.inMillis ↔
    s.seconds < t.seconds ∨ s.seconds = t.seconds ∧ s.nanos / 1000000 < t.nanos / 1000000 :=
  Prod.Lex.toLex_lt_toLex

theorem inMillis_eq_iff : s.inMillis = t.inMillis ↔ s.sameMillisecond t = true := by
  rw [sameMillisecond_iff, inMillis, inMillis, toLex_inj, Prod.mk.injEq]

end Instant

namespace ErrorLog

variable {s t : Instant}

theorem name_lt_of_inMillis_lt (hs : s.IsUsual) (ht : t.IsUsual) (h : s.inMillis < t.inMillis) :
    name s < name t := by
  have hne : s.sameMillisecond t = false := by
    rw [← Bool.not_eq_true, ← Instant.inMillis_eq_iff]
    exact ne_of_lt h
  have hle : s ≤ t := by
    rw [Instant.inMillis_lt_iff] at h
    rw [Instant.le_iff]
    omega
  exact (numberedName_lt_iff hs ht).mpr (.inl (timeText_lt hs ht hle hne))

theorem name_of_sameMillisecond (h : s.sameMillisecond t = true) : name s = name t := by
  rw [name, numberedName, timeText_of_sameMillisecond h, name, numberedName]

/-- The names of logs sort as the milliseconds of writing do, and they are the same just if the
milliseconds are. -/
theorem bytes_name_lt_iff (hs : s.IsUsual) (ht : t.IsUsual) :
    (Text.bytes (name s) < Text.bytes (name t) ↔ s.inMillis < t.inMillis) ∧
      (name s = name t ↔ s.inMillis = t.inMillis) := by
  rw [Text.bytes_lt_iff]
  rcases lt_trichotomy s.inMillis t.inMillis with hlt | heq | hgt
  · have hname := name_lt_of_inMillis_lt hs ht hlt
    exact ⟨iff_of_true hname hlt, iff_of_false hname.ne hlt.ne⟩
  · have hname := name_of_sameMillisecond (Instant.inMillis_eq_iff.mp heq)
    exact ⟨iff_of_false hname.not_lt heq.not_lt, iff_of_true hname heq⟩
  · have hname := name_lt_of_inMillis_lt ht hs hgt
    exact ⟨iff_of_false hname.asymm hgt.asymm, iff_of_false hname.ne' hgt.ne'⟩

/-- The leap second at the end of 2016 comes before the year 2017. -/
theorem bytes_name_lt_of_leapSecond :
    name ⟨1483228799, 1500000000⟩ = "mirroring_errors_20161231_235960_500.txt" ∧
      Text.bytes (name ⟨1483228799, 1500000000⟩) < Text.bytes (name ⟨1483228800, 0⟩) := by
  refine ⟨by decide +kernel, ?_⟩
  have hleap : (⟨1483228799, 1500000000⟩ : Instant).IsUsual :=
    ⟨by decide +kernel, by decide +kernel⟩
  have hnext : (⟨1483228800, 0⟩ : Instant).IsUsual := ⟨by decide +kernel, by decide +kernel⟩
  exact (bytes_name_lt_iff hleap hnext).1.mpr (Instant.inMillis_lt_iff.mpr (by decide))

end ErrorLog

end ImageBatch
