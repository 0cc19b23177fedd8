import ImageBatch.Task
import ImageBatch.Time.Span

/-!
# Arguments of the copy tool

One call of the tool copies an image or deletes one. The batch passes its options on without
looking at them.
-/

namespace ImageBatch

/-- What a call passes on to the tool. -/
structure ToolOptions where
  credentials : Option String
  /-- Registry certificates are checked. -/
  tlsVerify : Bool
  /-- The folder in which the tool works. -/
  workspace : Option String
  timeout : Span
  /-- Arguments passed on as they are. -/
  extra : List String
deriving DecidableEq, Inhabited

def ToolOptions.standard : ToolOptions := ⟨none, true, none, .ofSeconds 600, []⟩

structure Request where
  source : String
  destination : String
  mode : Mode
  options : ToolOptions
deriving DecidableEq

namespace Request

/-- An argument that names the credentials, if there are any. -/
def credential (flag : String) (o : ToolOptions) : List String :=
  o.credentials.toList.map (flag ++ "=" ++ ·)

/-- An argument that says whether certificates are checked. -/
def tls (flag : String) (o : ToolOptions) : String :=
  flag ++ "=" ++ (if o.tlsVerify then "true" else "false")

/-- The arguments of a call, without the tool's name. -/
def arguments (r : Request) : List String :=
  let o := r.options
  if r.mode = .delete then
    ["delete"] ++ credential "--authfile" o ++ [tls "--tls-verify" o] ++ o.extra ++ [r.destination]
  else
    ["copy", "--all"] ++ credential "--src-authfile" o ++ credential "--dest-authfile" o ++
      [tls "--src-tls-verify" o, tls "--dest-tls-verify" o] ++ o.extra ++ [r.source, r.destination]

end Request

end ImageBatch
