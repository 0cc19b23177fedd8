import ImageBatch.Event.Bus
import ImageBatch.Machine
import ImageBatch.Main
import ImageBatch.Proofs.Aggregator.Balance
import ImageBatch.Proofs.Engine.Dependents
import ImageBatch.Proofs.Engine.Sequential
import ImageBatch.Proofs.Engine.Timeline
import ImageBatch.Proofs.Session.Lost
import ImageBatch.Proofs.Session.OnHost
import ImageBatch.Proofs.Engine.Cancellation
import ImageBatch.Proofs.Engine.Progress
import ImageBatch.Proofs.Engine.Story
import ImageBatch.Proofs.Run.Events
import ImageBatch.Proofs.Session.Outcome
import ImageBatch.Proofs.Engine.Occupancy
import ImageBatch.Proofs.Engine.Overtaking
import ImageBatch.Proofs.Machine.Paths
import ImageBatch.Proofs.Text.Digits
import ImageBatch.Proofs.ErrorLog.Names
import ImageBatch.Proofs.Machine.Requests
import ImageBatch.Proofs.ErrorLog.Writes
import ImageBatch.Proofs.ErrorLog.Listing
import ImageBatch.Proofs.Time.Stamp
import ImageBatch.Proofs.Json.ReadBack
import ImageBatch.Proofs.Event.Entries
import ImageBatch.Proofs.Binary64.Rounding
import ImageBatch.Proofs.Event.Playback
import ImageBatch.Proofs.Aggregator.Order
import ImageBatch.Proofs.Tool.Words
import ImageBatch.Proofs.TaskSet.File
import ImageBatch.Proofs.Engine.Course
import ImageBatch.Proofs.Engine.Ledger
import ImageBatch.Proofs.Engine.Cut
import ImageBatch.Proofs.Aggregator.Reception
import ImageBatch.Proofs.Engine.Shortfalls
import ImageBatch.Proofs.Text.Bytes
import ImageBatch.Proofs.Skip
import ImageBatch.Proofs.TaskSet.Projection
import ImageBatch.Proofs.ErrorLog.Chronology
import ImageBatch.Proofs.Category.Search
import ImageBatch.Proofs.Verdict.Grades
import ImageBatch.Proofs.ErrorLog.Addition
import ImageBatch.Proofs.ErrorLog.Grammar
import ImageBatch.Proofs.TaskSet.Origins
import ImageBatch.Proofs.Config.LogLevel
import ImageBatch.Proofs.Engine.Clock
import ImageBatch.Proofs.Engine.Sleep
import ImageBatch.Proofs.Run.Completion
import ImageBatch.Proofs.Engine.Backoff
import ImageBatch.Proofs.Engine.Register
import ImageBatch.Proofs.Tool.Shortening
