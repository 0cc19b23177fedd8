import ImageBatch.Category
import ImageBatch.Engine.Worker
import ImageBatch.Shell.Run
import ImageBatch.Text.Blank

/-!
# Calls of the copy tool

The tool is a command of the host. All that is known of a failed call is how it ended and what the
tool wrote, so the category of the failure is read off its words.
-/

namespace ImageBatch.Tool

inductive Launched where
  | refused (cause : FileError)
  | late
  | ended (e : Shell.Ended)

/-- The most bytes of the tool's words that are kept. -/
def wordsBound : Nat := 4000

/-- A text that is cut, if it is too long, behind its last whole character within the bound. -/
def shortened (cs : List Char) : List Char :=
  if wordsBound < Text.byteLength cs then
    Text.takeBytes wordsBound cs ++ "... [truncated]".toList
  else cs

/-- What a tool that ended had to say: its words about errors, or else its output. -/
def words (e : Shell.Ended) : List Char :=
  let errors := Text.trim (Text.decodeLoosely e.errors.toList)
  if errors.isEmpty then Text.trim (Text.decodeLoosely e.output.toList) else errors

/-- The status of a tool, or -1 if a signal ended it. -/
def statusText : Option Nat → String
  | some n => toString n
  | none => "-1"

/-- What is said of a tool that ended without success. -/
def complaint (command : String) (e : Shell.Ended) : String :=
  let cs := words e
  if cs.isEmpty then command ++ " exited with status " ++ statusText e.status
  else String.ofList (shortened cs)

/-- The failure that a call is, if it is one. -/
def failure? (command : String) (time : Span) : Launched → Option Failure
  | .refused .missing =>
    some ⟨.notFoundOrInvalid, "executor command " ++ command ++ " does not exist"⟩
  | .refused e => some ⟨.other, "failed to run " ++ command ++ ": " ++ e.message⟩
  | .late => some ⟨.network, command ++ " timed out after " ++ time.text⟩
  | .ended e => if e.status = some 0 then none else some (.ofMessage (complaint command e))

def answer (command : String) (time : Span) (l : Launched) : Engine.Answer :=
  match failure? command time l with
  | none => .success
  | some f => .failure f

/-- The commands that the host knows. -/
def knownCommands : List String := ["true", "false", "sh"]

/-- The texts of a call cannot hold the character that ends them. -/
def isSound (s : String) : Bool := !s.toList.contains '\x00'

section

variable {m : Type → Type} {η : Type} [Monad m] [Host m η]

def runScript (folder name : String) (arguments : List String) (time : Span) : m Launched := do
  let ended (status : Nat) (words : String) : Launched :=
    .ended ⟨some status, ByteArray.empty, (words ++ "\n").toUTF8⟩
  match ← Host.read (joinPath folder name) with
  | .error _ => return ended 2 ("sh: 0: cannot open " ++ name ++ ": No such file")
  | .ok bytes =>
    match Shell.Script.ofText? (String.ofList (Text.decodeLoosely bytes.toList)) with
    | none => return ended 2 (name ++ ": Syntax error")
    | some s =>
      match ← s.run folder name arguments time with
      | none => return .late
      | some e => return .ended e

/-- Runs a command by its name. A file may not be run as a command, and no command comes to its
end in no time. -/
def runCommand (folder command : String) (arguments : List String) (time : Span) :
    m Launched := do
  let ended (status : Nat) : Launched := .ended ⟨some status, ByteArray.empty, ByteArray.empty⟩
  if command.isEmpty then return .refused .missing
  else if command.toList.contains '/' then
    match ← Host.read (joinPath folder command) with
    | .error .isFolder => return .refused .denied
    | .error e => return .refused e
    | .ok _ => return .refused .denied
  else if command = "." || command = ".." then return .refused .denied
  else if 255 < command.utf8ByteSize then return .refused .nameTooLong
  else if time.nanos = 0 && command ∈ knownCommands then return .late
  else
    match command, arguments with
    | "true", _ => return ended 0
    | "false", _ => return ended 1
    | "sh", name :: rest => runScript folder name rest time
    | "sh", [] => return ended 0
    | _, _ => return .refused .missing

def launch (command : String) (r : Request) : m Launched := do
  let o := r.options
  if !(isSound command && r.arguments.all isSound && o.workspace.all isSound) then
    return .refused (.other "nul byte found in provided data")
  else
    match o.workspace with
    | none => runCommand "" command r.arguments o.timeout
    | some folder =>
      match ← Host.list folder with
      | .error e => return .refused e
      | .ok _ => runCommand folder command r.arguments o.timeout

end

end ImageBatch.Tool
