import ImageBatch.Decoding
import ImageBatch.Host
import ImageBatch.Json.Reader
import ImageBatch.Yaml.Fields

/-!
# Files of tasks

A task set comes from a file, in JSON if the file's name says so and in YAML otherwise. A set with
an unusable origin is refused, and expectations that the file leaves out are filled in.
-/

namespace ImageBatch

open Yaml (Read)

def Task.ofYaml : Read Task := fun d n => do
  let k ← Read.known fieldNames d n
  some {
    origin := ← Read.required d k "origin" Read.text
    source := ← Read.required d k "source" Read.text
    destination := ← Read.required d k "destination" Read.text
    kind := ← Read.required d k "type" (Read.choice ImageKind.ofLabel?)
    rebuiltTag := ← Read.withDefault d k "rebuilt-tag" none (Read.nullable Read.text)
    operators := ← Read.withDefault d k "operators" ∅ Read.names
    bundles := ← Read.withDefault d k "bundles" ∅ Read.names }

def KindCounts.ofYaml : Read KindCounts := fun d n =>
  (Read.entries (Read.choice ImageKind.ofLabel?) (Read.count countBound) d n).map SortedMap.ofList

def Dependents.ofYaml : Read Dependents := fun d n =>
  (Read.entries Read.text Read.names d n).map SortedMap.ofList

def TaskSet.ofYaml : Read TaskSet := fun d n => do
  let k ← Read.known fieldNames d n
  some {
    tasks := ← Read.withDefault d k "tasks" [] (Read.items Task.ofYaml)
    expected := ← Read.withDefault d k "expected" ∅ KindCounts.ofYaml
    bundleDependents := ← Read.withDefault d k "bundle-dependencies" ∅ Dependents.ofYaml
    operatorDependents := ← Read.withDefault d k "operator-dependencies" ∅ Dependents.ofYaml }

namespace TaskSet

/-- Why a file gives no task set. -/
inductive FileFault where
  | unread (path : String) (cause : FileError)
  /-- The file holds something else. -/
  | malformed (path : String)
  | origin (cause : OriginError)
deriving DecidableEq

/-- What went wrong, and then why. -/
def FileFault.messages : FileFault → List String
  | unread path cause =>
    ["Failed to read task file " ++ path ++ ": " ++ cause.message, cause.message]
  | malformed path => ["Failed to parse task file " ++ path ++ ": not a task set"]
  | origin cause => [cause.message]

def fileName (path : String) : List Char :=
  ((path.toList.splitOn '/').filter (fun n => !n.isEmpty && n != ['.'])).getLastD []

/-- What stands behind the last point of a name, if anything stands before it. -/
def extension? (name : List Char) : Option (List Char) :=
  match (name.splitOn '.').reverse with
  | last :: previous :: more => if more.isEmpty && previous.isEmpty then none else some last
  | _ => none

/-- The name of a file says that it holds JSON. -/
def isJsonFile (path : String) : Bool :=
  match extension? (fileName path) with
  | some e => e.map Char.toLower == ['j', 's', 'o', 'n']
  | none => false

/-- The task set that a text holds. -/
def ofText? (asJson : Bool) (text : String) : Option TaskSet :=
  if asJson then (Json.read? text).bind ofJson? else Read.ofText? ofYaml text

/-- The task set that a file with this text gives. -/
def ofFile (path text : String) : Except FileFault TaskSet :=
  match ofText? (isJsonFile path) text with
  | none => .error (.malformed path)
  | some s =>
    match s.fault? with
    | some e => .error (.origin e)
    | none => .ok s.fillExpected

variable {m : Type → Type} {η : Type} [Monad m] [Host m η]

def load (path : String) : m (Except FileFault TaskSet) := do
  match ← Host.readText path with
  | .error e => return .error (.unread path e)
  | .ok text => return ofFile path text

end TaskSet

end ImageBatch
