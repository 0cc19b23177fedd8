import ImageBatch.Host

/-!
# Places

Where a user keeps configurations and data. The environment may name both places; where it does not,
they lie in the home of the user.
-/

namespace ImageBatch

/-- Where a user keeps configurations and data, as far as it is known. -/
structure Places where
  config? : Option String
  data? : Option String
deriving DecidableEq, Repr

namespace Places

/-- The place that a variable names by an absolute path, or else a folder in the home. -/
def place? (look : String → Option String) (variable_ inHome : String) : Option String :=
  match (look variable_).filter (·.startsWith "/") with
  | some path => some path
  | none => ((look "HOME").filter (!·.isEmpty)).map fun home => joinPath home inHome

def ofEnvironment (look : String → Option String) : Places :=
  ⟨place? look "XDG_CONFIG_HOME" ".config", place? look "XDG_DATA_HOME" ".local/share"⟩

/-- The name under which the program keeps its files in these places. -/
def ownName : String := "mirrorbatch"

/-- The folder of error logs that is used if no other is given. -/
def errorFolder (p : Places) : String :=
  match p.data? with
  | some d => joinPath (joinPath d ownName) "errors"
  | none => "mirrorbatch-errors"

/-- The folder of the log of the program itself. -/
def logFolder (p : Places) : String := joinPath (joinPath (p.data?.getD ".") ownName) "logs"

end Places

end ImageBatch
