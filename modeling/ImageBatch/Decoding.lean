import ImageBatch.Json.Fields
import ImageBatch.TaskSet
import ImageBatch.Text.Number

/-!
# Decoding

How tasks and task sets are read from JSON.
-/

namespace ImageBatch

def Task.fieldNames : List String :=
  ["origin", "source", "destination", "type", "rebuilt-tag", "operators", "bundles"]

def Task.ofJson? (j : Json) : Option Task := do
  let k ← j.known? fieldNames
  some {
    origin := ← Json.required k "origin" Json.text?
    source := ← Json.required k "source" Json.text?
    destination := ← Json.required k "destination" Json.text?
    kind := ← Json.required k "type" (Json.choice? ImageKind.ofLabel?)
    rebuiltTag := ← Json.withDefault k "rebuilt-tag" none (Json.nullable Json.text?)
    operators := ← Json.withDefault k "operators" ∅ Json.names?
    bundles := ← Json.withDefault k "bundles" ∅ Json.names? }

def KindCounts.ofJson? (j : Json) : Option KindCounts :=
  (j.entries? ImageKind.ofLabel? (Json.count? countBound)).map SortedMap.ofList

def Dependents.ofJson? (j : Json) : Option Dependents :=
  (j.entries? some Json.names?).map SortedMap.ofList

def TaskSet.fieldNames : List String :=
  ["tasks", "expected", "bundle-dependencies", "operator-dependencies"]

def TaskSet.ofJson? (j : Json) : Option TaskSet := do
  let k ← j.known? fieldNames
  some {
    tasks := ← Json.withDefault k "tasks" [] (Json.items? Task.ofJson?)
    expected := ← Json.withDefault k "expected" ∅ KindCounts.ofJson?
    bundleDependents := ← Json.withDefault k "bundle-dependencies" ∅ Dependents.ofJson?
    operatorDependents := ← Json.withDefault k "operator-dependencies" ∅ Dependents.ofJson? }

end ImageBatch
