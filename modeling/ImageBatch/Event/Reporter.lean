import ImageBatch.Event.Basic
import ImageBatch.Text.Paint

/-!
# The reporter

Tells the progress of a run line by line: one line for each task that is done, and one for each
attempt that will be made again.
-/

namespace ImageBatch

/-- How far the run is that the reporter tells about. -/
structure Reporter where
  total : Nat
  done : Nat
deriving DecidableEq, Repr

namespace Reporter

def start : Reporter := ⟨0, 0⟩

/-- How many tasks are done out of how many. -/
def counter (r : Reporter) : String := "[" ++ toString r.done ++ "/" ++ toString r.total ++ "]"

/-- One more task is done; the line says which, after the counter. -/
def finish (r : Reporter) (rest : String) : Reporter × Option String :=
  let r := { r with done := r.done + 1 }
  (r, some (r.counter ++ " " ++ rest))

/-- The line for a happening, if it has one. -/
def tell (colour : Bool) (r : Reporter) : Happening → Reporter × Option String
  | .runStarted total attempt =>
    (⟨total, 0⟩, some (Text.paint colour .bold "==>" ++ " mirroring " ++ toString total ++
      " images (attempt " ++ toString attempt ++ ")"))
  | .taskStarted .. => (r, none)
  | .taskRetrying origin attempt delay f =>
    (r, some (Text.paint colour .yellow "retry" ++ " " ++ origin ++ " attempt " ++
      toString attempt ++ " failed (" ++ f.category.label ++ "), retrying in " ++ toString delay ++
      "ms"))
  | .taskSucceeded origin _ => r.finish (Text.paint colour .green "ok" ++ " " ++ origin)
  | .taskFailed origin _ f =>
    r.finish (Text.paint colour .red "failed" ++ " " ++ origin ++ " (" ++ f.category.label ++
      "): " ++ f.message)
  | .taskSkipped origin (some reason) =>
    r.finish (Text.paint colour .yellow "skipped" ++ " " ++ origin ++ ": " ++ reason)
  | .taskSkipped origin none =>
    r.finish (Text.paint colour .dimmed "bypassed" ++ " " ++ origin)
  | .runCompleted succeeded failed skipped =>
    (r, some (Text.paint colour .bold "==>" ++ " " ++ toString succeeded ++ " succeeded, " ++
      toString failed ++ " failed, " ++ toString skipped ++ " skipped"))

end Reporter

end ImageBatch
