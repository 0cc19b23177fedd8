import ImageBatch.Task
import ImageBatch.Text.Number

/-!
# The command line

The words that a user types name a command with its options. Options may come in any order, with
their values behind them or behind an equals sign, and two dashes end them. What is wrong with a
command line is found in the order in which its words are taken in.
-/

namespace ImageBatch

/-- How the reports of a session are written. -/
inductive Format where
  | text
  | json
deriving DecidableEq, Repr

namespace Format

def all : List Format := [text, json]

def label : Format → String
  | text => "text"
  | json => "json"

def names : Format → List String
  | text => ["text", "plain"]
  | json => ["json"]

/-- A name in any letter case. -/
def parse? (s : String) : Option Format :=
  let name := Text.lowered s
  all.find? (fun f => f.names.any (fun n => n.toList == name))

/-- What is said of a name that no format has. -/
def unknown (s : String) : String := "Unknown format: " ++ s ++ ". Use: text or json"

end Format

namespace CommandLine

/-- What is wrong with a command line, or that help was asked for. -/
inductive UsageError where
  | unknownArgument
  | invalidSubcommand
  | missingSubcommand
  | missingArgument
  | conflict
  | tooManyValues
  | invalidValue
  | unreadableValue
  | help
  | version
  /-- Nothing was asked for at all. -/
  | helpForNothing
deriving DecidableEq, Repr

/-- Everything that can be said on a command line. -/
inductive Key where
  | config
  | logLevel
  | tasks
  | mode
  | concurrency
  | threshold
  | maxAttempts
  | retryInterval
  | enclave
  | noRetry
  | format
  | dir
  | latest
  | help
  | version
deriving DecidableEq, Repr

inductive Value where
  | on
  | text (s : String)
  | mode (m : Mode)
  | count (n : Nat)
  | number (x : Binary64)
  | format (f : Format)
deriving DecidableEq

namespace Key

/-- The key stands for itself and takes no value. -/
def isFlag : Key → Bool
  | enclave | noRetry | latest | help | version => true
  | _ => false

def short? : Key → Option Char
  | config => some 'c'
  | logLevel => some 'l'
  | mode => some 'm'
  | format => some 'f'
  | dir => some 'd'
  | help => some 'h'
  | version => some 'V'
  | _ => none

/-- The name behind two dashes. -/
def long? : Key → Option String
  | config => some "config"
  | logLevel => some "log-level"
  | tasks => none
  | mode => some "mode"
  | concurrency => some "concurrency"
  | threshold => some "threshold"
  | maxAttempts => some "max-attempts"
  | retryInterval => some "retry-interval"
  | enclave => some "enclave"
  | noRetry => some "no-retry"
  | format => some "format"
  | dir => some "dir"
  | latest => some "latest"
  | help => some "help"
  | version => some "version"

/-- Reads the value of a key. A path must not be empty. -/
def read (k : Key) (s : String) : Except UsageError Value :=
  let orUnreadable (v : Option Value) : Except UsageError Value :=
    v.elim (.error .unreadableValue) .ok
  match k with
  | config | tasks | dir => if s.isEmpty then .error .invalidValue else .ok (.text s)
  | logLevel => .ok (.text s)
  | mode => orUnreadable ((Mode.parse? s).map .mode)
  | format => orUnreadable ((Format.parse? s).map .format)
  | concurrency | retryInterval => orUnreadable ((Text.count? countBound s).map .count)
  | maxAttempts => orUnreadable ((Text.count? attemptBound s).map .count)
  | threshold => orUnreadable ((Text.binary64? s).map .number)
  | enclave | noRetry | latest | help | version => .ok .on

end Key

inductive Verb where
  | run
  | errors
  | validate
deriving DecidableEq, Repr

namespace Verb

def all : List Verb := [run, errors, validate]

def name : Verb → String
  | run => "run"
  | errors => "errors"
  | validate => "validate"

def ofName? (s : String) : Option Verb := all.find? (fun v => v.name == s)

end Verb

/-- The command that explains the others. -/
def helpName : String := "help"

/-- What may be said at one level: before the command, or behind it. -/
structure Level where
  options : List Key
  positional : Option Key
  hasCommands : Bool

def Level.root : Level := ⟨[.config, .logLevel, .help, .version], none, true⟩

def Level.of : Verb → Level
  | .run => ⟨[.config, .logLevel, .help, .mode, .concurrency, .threshold, .maxAttempts,
      .retryInterval, .enclave, .noRetry, .format], some .tasks, false⟩
  | .errors => ⟨[.config, .logLevel, .help, .dir, .latest], none, false⟩
  | .validate => ⟨[.config, .logLevel, .help], some .tasks, false⟩

/-- What was said at one level so far. -/
structure Said where
  values : List (Key × Value)
  /-- A key whose value is not read yet, with the value if it is there. -/
  pending : Option (Key × Option String)
  /-- The pending key still wants its value. -/
  wants : Bool
  /-- Two dashes have come. -/
  trailing : Bool
  /-- The positional argument has come. -/
  placed : Bool

namespace Said

def start : Said := ⟨[], none, false, false, false⟩

def has (x : Said) (k : Key) : Bool := x.values.any (fun v => v.1 == k)

/-- Takes in a key with its value. Each key may come once. -/
def put (x : Said) (k : Key) (value : Option String) : Except UsageError Said :=
  match k, value with
  | .help, _ => .error .help
  | .version, _ => .error .version
  | k, value =>
    if !k.isFlag && value.isNone then .error .invalidValue
    else if x.has k then .error .conflict
    else (k.read (value.getD "")).map (fun v => { x with values := x.values ++ [(k, v)] })

/-- Takes in the key that is pending. -/
def settle (x : Said) : Except UsageError Said :=
  match x.pending with
  | none => .ok x
  | some (k, value) => { x with pending := none, wants := false }.put k value

/-- A key with a value in the same word. -/
def putAttached (x : Said) (k : Key) (value : String) : Except UsageError Said := do
  let x ← x.settle
  let x ← x.put k (some value)
  return { x with wants := false }

/-- A key without a value in the same word. -/
def putBare (x : Said) (k : Key) : Except UsageError Said := do
  let x ← x.settle
  if k.isFlag then
    let x ← x.put k none
    return { x with wants := false }
  else return { x with pending := some (k, none), wants := true }

/-- A word behind two dashes as a name, with the value behind an equals sign. -/
def long (level : Level) (x : Said) (word : List Char) : Except UsageError Said :=
  let (name, rest) := word.span (· != '=')
  match level.options.find? (fun k => k.long? == some (String.ofList name)), rest with
  | none, _ => .error .unknownArgument
  | some k, [] => x.putBare k
  | some k, _ :: value =>
    if k.isFlag then .error .tooManyValues else x.putAttached k (String.ofList value)

/-- A word behind one dash: a letter, with the value behind it. -/
def short (level : Level) (x : Said) : List Char → Except UsageError Said
  | [] => .ok x
  | c :: rest =>
    match level.options.find? (fun k => k.short? == some c) with
    | none => .error .unknownArgument
    | some k =>
      match rest with
      | [] => x.putBare k
      | '=' :: value => x.putAttached k (String.ofList value)
      | value => x.putAttached k (String.ofList value)

def positional (level : Level) (x : Said) (word : String) : Except UsageError Said :=
  match level.positional, x.placed with
  | some k, false => do
    let x ← x.settle
    return { x with pending := some (k, some word), wants := false, placed := true }
  | _, _ =>
    .error (if level.hasCommands &&
        !(x.trailing && ((Verb.ofName? word).isSome || word == helpName))
      then .invalidSubcommand else .unknownArgument)

/-- Takes in one word that is not the name of a command. -/
def word (level : Level) (x : Said) (w : String) : Except UsageError Said :=
  if x.trailing then x.positional level w
  else
    match w.toList with
    | ['-', '-'] => .ok { x with trailing := true }
    | '-' :: '-' :: rest => x.long level rest
    | '-' :: c :: rest => x.short level (c :: rest)
    | _ =>
      match x.wants, x.pending with
      | true, some (k, _) => .ok { x with pending := some (k, some w), wants := false }
      | _, _ => x.positional level w

/-- The word is taken as the name of a command. -/
def namesCommand (level : Level) (x : Said) (w : String) : Bool :=
  level.hasCommands && !x.trailing && !x.wants && ((Verb.ofName? w).isSome || w == helpName)

/-- Takes in words up to the name of a command, which comes back with the words behind it. -/
def words (level : Level) (x : Said) : List String →
    Except UsageError (Said × Option (String × List String))
  | [] => .ok (x, none)
  | w :: ws =>
    if x.namesCommand level w then .ok (x, some (w, ws))
    else do
      let x ← x.word level w
      x.words level ws

def value? (x : Said) (k : Key) : Option Value := x.values.lookup k

def text? (x : Said) (k : Key) : Option String :=
  match x.value? k with
  | some (.text s) => some s
  | _ => none

def count? (x : Said) (k : Key) : Option Nat :=
  match x.value? k with
  | some (.count n) => some n
  | _ => none

end Said

/-- What a run is asked to do. -/
structure RunRequest where
  tasks : String
  mode : Mode
  concurrency : Option Nat
  threshold : Option Binary64
  maxAttempts : Option Nat
  retryInterval : Option Nat
  enclave : Bool
  noRetry : Bool
  format : Format
deriving DecidableEq

/-- A command with what was said to it. -/
inductive Command where
  | run (r : RunRequest)
  /-- Lists the error logs, or the origins that the latest one names. -/
  | errors (dir : Option String) (latest : Bool)
  | validate (tasks : String)
deriving DecidableEq

structure Invocation where
  config : Option String
  logLevel : Option String
  command : Command
deriving DecidableEq

/-- The command, if nothing that it needs is missing and nothing stands against it. -/
def command (v : Verb) (x : Said) : Except UsageError Command :=
  let need {α : Type} (a : Option α) : Except UsageError α := a.elim (.error .missingArgument) .ok
  match v with
  | .run =>
    if x.has .noRetry && x.has .maxAttempts then .error .conflict
    else do
      let tasks ← need (x.text? .tasks)
      let mode ← need (match x.value? .mode with | some (.mode m) => some m | _ => none)
      return .run {
        tasks := tasks
        mode := mode
        concurrency := x.count? .concurrency
        threshold := match x.value? .threshold with | some (.number n) => some n | _ => none
        maxAttempts := x.count? .maxAttempts
        retryInterval := x.count? .retryInterval
        enclave := x.has .enclave
        noRetry := x.has .noRetry
        format := match x.value? .format with | some (.format f) => f | _ => .text }
  | .errors => return .errors (x.text? .dir) (x.has .latest)
  | .validate => do return .validate (← need (x.text? .tasks))

def behind (v : Verb) (ws : List String) : Except UsageError (Said × Command) := do
  let (x, _) ← Said.start.words (Level.of v) ws
  let x ← x.settle
  return (x, ← command v x)

/-- Help for a command, if there is one of this name and nothing more is said. -/
def helpFor : List String → UsageError
  | [] => .help
  | [w] => if (Verb.ofName? w).isSome || w == helpName then .help else .invalidSubcommand
  | _ => .invalidSubcommand

/-- The command line of these words, without the name of the program. What is said behind a command
goes before what is said in front of it. -/
def parse (ws : List String) : Except UsageError Invocation := do
  let (x, rest) ← Said.start.words Level.root ws
  match rest with
  | none =>
    let x ← x.settle
    .error (if x.values.isEmpty then .helpForNothing else .missingSubcommand)
  | some (name, ws) =>
    match Verb.ofName? name with
    | none => .error (helpFor ws)
    | some v =>
      let (y, c) ← behind v ws
      let x ← x.settle
      let either (k : Key) := y.text? k <|> x.text? k
      return ⟨either .config, either .logLevel, c⟩

end CommandLine

end ImageBatch
