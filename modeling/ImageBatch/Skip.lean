import ImageBatch.Result

/-!
# Skipping

Just before its turn a task may be passed over. The graph of releases is not copied on the way to
or from a disk unless the run is for an enclave, and a bundle is given up once an image that it
needs has a record.
-/

namespace ImageBatch

/-- What becomes of a task whose turn has come. -/
inductive Decision where
  | proceed
  | bypass
  | skip (reason : String)
deriving DecidableEq, Repr

def Decision.isProceed : Decision → Bool
  | proceed => true
  | _ => false

structure SkipPolicy where
  mode : Mode
  enclave : Bool
deriving DecidableEq, Repr

namespace SkipPolicy

/-- The task is a release graph that this run leaves out. -/
def bypasses (p : SkipPolicy) (t : Task) : Bool :=
  t.kind == .releaseGraph && (p.mode == .toDisk || p.mode == .toMirror) && !p.enclave

/-- The first bundle of a record that is this bundle or one of its names. -/
def hit? (t : Task) (names : NameSet) (r : Record) : Option String :=
  r.bundles.toList.find? (fun b => b == t.origin || decide (b ∈ names))

/-- Why a bundle is given up. -/
def reason (bundle : String) (dependency : String) : String :=
  "bundle " ++ bundle ++ " skipped: dependency " ++ dependency ++ " failed to mirror"

/-- The first record that names the bundle gives the reason. -/
def blocked? (t : Task) (names : NameSet) (prior : List Record) : Option String :=
  prior.findSome? (fun r => (hit? t names r).map (fun b => reason b r.task.origin))

/-- Decides from the records so far. The names are those under which the task is known as a
bundle. -/
def decide (p : SkipPolicy) (t : Task) (names : NameSet) (prior : List Record) : Decision :=
  if p.bypasses t then .bypass
  else if t.kind = .operatorBundle then
    match blocked? t names prior with
    | some reason => .skip reason
    | none => .proceed
  else .proceed

end SkipPolicy

end ImageBatch
