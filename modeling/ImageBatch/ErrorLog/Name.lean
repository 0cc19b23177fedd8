import ImageBatch.Time.Instant

/-!
# Names of error logs

The name of a log holds the time at which it was written, down to the millisecond. A second log of
the same millisecond gets a number behind the time.
-/

namespace ImageBatch.ErrorLog

/-- How the name of a log starts. -/
def nameStart : String := "mirroring_errors_"

/-- How the name of a log ends. -/
def nameEnd : String := ".txt"

/-- The time of writing as it stands in a name. -/
def timeText (t : Instant) : String :=
  yearText t.date.year ++ padded 2 t.date.month ++ padded 2 t.date.day ++ "_" ++ padded 2 t.hour ++
    padded 2 t.minute ++ padded 2 t.second ++ "_" ++ padded 3 t.millis

/-- The name of the log that is number so many of its millisecond, from zero. -/
def numberedName (t : Instant) (n : Nat) : String :=
  nameStart ++ timeText t ++ (if n = 0 then "" else "_" ++ toString n) ++ nameEnd

/-- The name of the first log of its millisecond. -/
def name (t : Instant) : String := numberedName t 0

/-- A file of this name counts as a log. -/
def isName (s : String) : Bool := s.startsWith nameStart && s.endsWith nameEnd

end ImageBatch.ErrorLog
