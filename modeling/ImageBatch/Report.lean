import ImageBatch.Result
import ImageBatch.Text.Paint
import ImageBatch.Verdict

/-!
# Reports

What a run leaves behind, and its summary for a terminal.
-/

namespace ImageBatch

structure Report where
  runId : String
  /-- The number of the run in its session, from one. -/
  attempt : Nat
  threshold : Binary64
  hardFloor : Binary64
  statistics : Statistics
  /-- The tasks that succeeded, in the order of their results. -/
  succeeded : List Task
  /-- The records, in the order of their results. -/
  errors : List Record
  outcome : Outcome

namespace Report

/-- A rate with two places. -/
def percentText (rate : Binary64) : String := Binary64.fixed 2 rate.percent ++ "%"

/-- How many tasks ended in which way. -/
def countsLine (s : Statistics) : String :=
  "  " ++ toString s.succeeded ++ " succeeded, " ++ toString s.failed ++ " failed, " ++
    toString s.skipped ++ " skipped"

/-- Where the error log is, if there is one. -/
def logLines (colour : Bool) (log : Option String) : List String :=
  log.toList.map fun path => "  error log: " ++ Text.paint colour .cyan path

/-- What a failed run fell short of. -/
def limit (r : Report) (rate : Binary64) : String :=
  if rate.lt r.threshold then percentText r.threshold ++ " threshold"
  else percentText r.hardFloor ++ " hard floor"

def outcomeLines (colour : Bool) (r : Report) : List String :=
  let s := r.statistics
  match r.outcome with
  | .success =>
    [Text.paint colour .green "✓" ++ " mirrored " ++ toString s.succeeded ++ "/" ++
      toString s.eligible ++ " images"]
  | .warning rate tier log =>
    [Text.paint colour .boldYellow "WARNING:" ++ " mirroring finished with " ++ percentText rate ++
      " success (" ++ tier.words ++ ")", countsLine s] ++
    (if 0 < s.critical then
      ["  " ++ toString s.critical ++ " critical failures (network or resource exhaustion)"]
    else []) ++
    s.shortfalls.map ("  " ++ ·) ++ logLines colour log
  | .hardFailure rate log _ =>
    [Text.paint colour .boldRed "ERROR:" ++ " mirroring failed: " ++ percentText rate ++
      " success is below the " ++ r.limit rate, countsLine s,
      "  failures by category: " ++ s.breakdown] ++
    s.shortfalls.map ("  " ++ ·) ++ logLines colour log

/-- The time that the run took, in tenths of a second. -/
def elapsedLine (colour : Bool) (r : Report) : String :=
  Text.paint colour .dimmed
    ("  elapsed: " ++ Binary64.fixed 1 r.statistics.elapsed.inSeconds ++ "s")

def summary (colour : Bool) (r : Report) : String :=
  "\n".intercalate (r.outcomeLines colour ++ [r.elapsedLine colour])

end Report

end ImageBatch
