import ImageBatch.Event.Basic
import ImageBatch.Json.Fields
import ImageBatch.Json.Reader
import ImageBatch.Json.Writer
import ImageBatch.Text.Number
import ImageBatch.Time.Stamp

/-!
# Events as JSON

An event is an object whose field `type` tells its kind, or a list with the kind in front and the
other values in order. An entry of an event log is an event with the time at which it was written.
-/

namespace ImageBatch

namespace Happening

/-- The fields beside the kind and the run, in order. -/
def fields : Happening → List (String × Json)
  | runStarted total attempt => [("total", .ofNat total), ("attempt", .ofNat attempt)]
  | taskStarted origin attempt => [("origin", .text origin), ("attempt", .ofNat attempt)]
  | taskRetrying origin attempt delay f =>
    [("origin", .text origin), ("attempt", .ofNat attempt), ("delay_ms", .ofNat delay),
      ("category", .text f.category.label), ("message", .text f.message)]
  | taskSucceeded origin attempts => [("origin", .text origin), ("attempts", .ofNat attempts)]
  | taskFailed origin attempts f =>
    [("origin", .text origin), ("attempts", .ofNat attempts),
      ("category", .text f.category.label), ("message", .text f.message)]
  | taskSkipped origin reason => [("origin", .text origin), ("reason", .ofOption reason)]
  | runCompleted succeeded failed skipped =>
    [("succeeded", .ofNat succeeded), ("failed", .ofNat failed), ("skipped", .ofNat skipped)]

/-- The names of the fields of a kind, the run first. -/
def fieldNames? : String → Option (List String)
  | "RunStarted" => some ["run_id", "total", "attempt"]
  | "TaskStarted" => some ["run_id", "origin", "attempt"]
  | "TaskRetrying" => some ["run_id", "origin", "attempt", "delay_ms", "category", "message"]
  | "TaskSucceeded" => some ["run_id", "origin", "attempts"]
  | "TaskFailed" => some ["run_id", "origin", "attempts", "category", "message"]
  | "TaskSkipped" => some ["run_id", "origin", "reason"]
  | "RunCompleted" => some ["run_id", "succeeded", "failed", "skipped"]
  | _ => none

end Happening

namespace Event

def json (e : Event) : Json :=
  .record (("type", .text e.what.label) :: ("run_id", .text e.runId) :: e.what.fields)

/-- A category: its label, or an object with the label as its one name and nothing in it. -/
def category? : Json → Option Category
  | .object [(some s, .object [])] => Category.ofLabel? s
  | j => Json.choice? Category.ofLabel? j

def count32? : Json → Option Nat := Json.count? attemptBound

def count64? : Json → Option Nat := Json.count? countBound

/-- The happening of a kind, from its fields. -/
def happening? (kind : String) (k : Json.Known) : Option Happening := do
  let origin := Json.required k "origin" Json.text?
  let failure : Option Failure := do
    some ⟨← Json.required k "category" category?, ← Json.required k "message" Json.text?⟩
  match kind with
  | "RunStarted" =>
    some (.runStarted (← Json.required k "total" count64?) (← Json.required k "attempt" count32?))
  | "TaskStarted" => some (.taskStarted (← origin) (← Json.required k "attempt" count32?))
  | "TaskRetrying" =>
    some (.taskRetrying (← origin) (← Json.required k "attempt" count32?)
      (← Json.required k "delay_ms" count64?) (← failure))
  | "TaskSucceeded" => some (.taskSucceeded (← origin) (← Json.required k "attempts" count32?))
  | "TaskFailed" =>
    some (.taskFailed (← origin) (← Json.required k "attempts" count32?) (← failure))
  | "TaskSkipped" =>
    some (.taskSkipped (← origin)
      (← Json.withDefault k "reason" none (Json.nullable Json.text?)))
  | "RunCompleted" =>
    some (.runCompleted (← Json.required k "succeeded" count64?)
      (← Json.required k "failed" count64?) (← Json.required k "skipped" count64?))
  | _ => none

def ofKnown? (kind : String) (k : Json.Known) : Option Event := do
  some ⟨← Json.required k "run_id" Json.text?, ← happening? kind k⟩

def ofJson? : Json → Option Event
  | .object fields => do
    let [(_, .text kind)] := fields.filter (fun f => f.1 == some "type") | none
    let k ← Json.pick (← Happening.fieldNames? kind) fields []
    ofKnown? kind k
  | .list (.text kind :: values) => do
    let names ← Happening.fieldNames? kind
    if names.length = values.length then ofKnown? kind (names.zip values) else none
  | _ => none

end Event

/-- An event with the time at which it was written. -/
structure LogEntry where
  written : Instant
  event : Event
deriving DecidableEq, Repr

namespace LogEntry

/-- How many lists and objects may stand inside one another around and in an event. -/
def depthLimit : Nat := 127

def json (e : LogEntry) : Json :=
  .record [("ts", .text e.written.stamp), ("event", e.event.json)]

/-- The line of an entry, without its end. -/
def line (e : LogEntry) : String := e.json.write

/-- The entry that a value is. An event must be sound as a whole, down to the fields that nobody
asks for. -/
def ofJson? (j : Json) : Option LogEntry := do
  let k ← j.known? ["ts", "event"]
  let stamp ← Json.required k "ts" Json.text?
  let event ← k.lookup "event"
  guard (event.isSound && event.depth < depthLimit)
  some ⟨← Stamp.read stamp.toList, ← Event.ofJson? event⟩

def ofLine? (line : String) : Option LogEntry := (Json.read? line).bind ofJson?

end LogEntry

end ImageBatch
