import ImageBatch.Json.Writer
import ImageBatch.Report
import ImageBatch.TaskSet

/-!
# Encoding

How tasks, records, statistics and reports are written as JSON. A field that may be missing is left
out of a task or record when it is empty; elsewhere it is null.
-/

namespace ImageBatch

def NameSet.json (s : NameSet) : Json := .ofNames s.toList

/-- A field of names, left out when there are none. -/
def namesField (name : String) (s : NameSet) : List (String × Json) :=
  if s.isEmpty then [] else [(name, s.json)]

def Task.json (t : Task) : Json :=
  .record ([("origin", .text t.origin), ("source", .text t.source),
    ("destination", .text t.destination), ("type", .text t.kind.label)] ++
    (t.rebuiltTag.toList.map fun tag => ("rebuilt-tag", .text tag)) ++
    namesField "operators" t.operators ++ namesField "bundles" t.bundles)

def KindCounts.json (counts : KindCounts) : Json :=
  .record (counts.toList.map fun e => (e.1.label, .ofNat e.2))

def Dependents.json (d : Dependents) : Json :=
  .record (d.toList.map fun e => (e.1, e.2.json))

def TaskSet.json (s : TaskSet) : Json :=
  .record [("tasks", .list (s.tasks.map Task.json)), ("expected", s.expected.json),
    ("bundle-dependencies", s.bundleDependents.json),
    ("operator-dependencies", s.operatorDependents.json)]

def Record.json (r : Record) : Json :=
  .record ([("task", r.task.json), ("kind", .text r.kind.label), ("message", .text r.message),
    ("category", .text r.category.label)] ++
    namesField "operators" r.operators ++ namesField "bundles" r.bundles)

def Span.json (s : Span) : Json :=
  .record [("secs", .ofNat s.seconds), ("nanos", .ofNat s.subsecond)]

def KindTally.json (t : KindTally) : Json :=
  .record [("succeeded", .ofNat t.succeeded), ("expected", .ofNat t.expected)]

def Statistics.json (s : Statistics) : Json :=
  .record [("total", .ofNat s.total), ("succeeded", .ofNat s.succeeded),
    ("failed", .ofNat s.failed), ("skipped", .ofNat s.skipped), ("bypassed", .ofNat s.bypassed),
    ("by_type", .record (s.byKind.toList.map fun e => (e.1.label, e.2.json))),
    ("failures_by_category",
      .record (s.failuresByCategory.toList.map fun e => (e.1.label, .ofNat e.2))),
    ("critical_failures", .ofNat s.critical), ("elapsed", s.elapsed.json)]

def Outcome.json : Outcome → Json
  | success => .record [("outcome", .text "success")]
  | warning rate tier log =>
    .record [("outcome", .text "success-with-warning"), ("rate", .ofBinary64 rate),
      ("tier", .text tier.label), ("log_path", .ofOption log)]
  | hardFailure rate log statistics =>
    .record [("outcome", .text "hard-failure"), ("rate", .ofBinary64 rate),
      ("log_path", .ofOption log), ("stats", statistics.json)]

def Report.json (r : Report) : Json :=
  .record [("run_id", .text r.runId), ("attempt", .ofNat r.attempt),
    ("threshold", .ofBinary64 r.threshold), ("hard_floor", .ofBinary64 r.hardFloor),
    ("stats", r.statistics.json), ("succeeded", .list (r.succeeded.map Task.json)),
    ("errors", .list (r.errors.map Record.json)), ("outcome", r.outcome.json)]

end ImageBatch
