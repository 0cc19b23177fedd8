import ImageBatch.Host
import ImageBatch.Shell.Script
import ImageBatch.Text.Number

/-!
# Running scripts

A script works in a folder of the host. It ends with a status, by a signal, or because its time is
over; what it wrote until then is kept.
-/

namespace ImageBatch.Shell

/-- How a script stops before its last command. -/
inductive Halt where
  | exit (status : Nat)
  | signal (number : Nat)
  | late
deriving DecidableEq, Repr

/-- Where the output of a command goes. -/
inductive Sink (η : Type) where
  | stream (s : Stream)
  | file (f : η)

structure State (η : Type) where
  /-- The folder in which it works. -/
  folder : String
  vars : List (String × String)
  /-- The name of the script, and then its arguments. -/
  name : String
  arguments : List String
  /-- How the last command ended. -/
  status : Nat
  input : ByteArray
  output : Sink η
  errors : Sink η
  /-- What was written as output. -/
  shown : ByteArray
  /-- What was written about errors. -/
  complaints : ByteArray
  left : Span

abbrev Act (m : Type → Type) (η : Type) := ExceptT Halt (StateT (State η) m)

/-- A pattern: characters that stand for themselves if they are marked. -/
abbrev Field := List (Char × Bool)

/-- A text has the form of a pattern: a star stands for any text and a question mark for any
character. -/
def fits : Field → List Char → Bool
  | [], s => s.isEmpty
  | ('*', false) :: p, [] => fits p []
  | ('*', false) :: p, c :: s => fits p (c :: s) || fits (('*', false) :: p) s
  | ('?', false) :: p, _ :: s => fits p s
  | (x, _) :: p, c :: s => x == c && fits p s
  | _ :: _, [] => false
termination_by p s => p.length + s.length

/-- The fields of a word: those that are finished, last first, and the one that is not. -/
structure Fields where
  finished : List Field
  current : Option Field

namespace Fields

def none : Fields := ⟨[], .none⟩

def add (f : Fields) (quoted : Bool) (cs : List Char) : Fields :=
  { f with current := some (f.current.getD [] ++ cs.map (fun c => (c, quoted))) }

def close (f : Fields) : Fields :=
  match f.current with
  | some x => ⟨x :: f.finished, .none⟩
  | .none => f

def isGap (c : Char) : Bool := c == ' ' || c == '\t' || c == '\n'

/-- Adds a text that is cut at blanks. -/
def addCut (f : Fields) (cs : List Char) : Fields :=
  cs.foldl (fun f c => if isGap c then f.close else f.add false [c]) f

/-- Adds texts as fields of their own; the first one continues what there is. -/
def addEach (f : Fields) (cut : Bool) : List String → Fields
  | [] => f
  | s :: rest =>
    let f := if cut then f.addCut s.toList else f.add true s.toList
    if rest.isEmpty then f else addEach f.close cut rest

def toList (f : Fields) : List Field := f.close.finished.reverse

end Fields

def Field.text (f : Field) : String := String.ofList (f.map (·.1))

/-- The number by which a script knows itself. -/
def ownNumber : String := "1"

/-- Signals that by themselves do not end a script. -/
def harmlessSignals : List Nat := [0, 17, 18, 23, 28]

/-- What a number of seconds comes to. -/
def seconds? (s : String) : Option Span := do
  let d ← Text.decimal? s.toList
  let places := if d.exponent < 0 then Nat.pow 10 d.exponent.natAbs else 1
  let whole := if d.exponent < 0 then d.digits else d.digits * Nat.pow 10 d.exponent.natAbs
  some ⟨whole * 1000000000 / places⟩

/-- A whole number with an optional minus sign. -/
def integer? (s : String) : Option Int :=
  match s.toList with
  | '-' :: cs => (Text.digits? cs).map (fun n => -(n : Int))
  | cs => (Text.digits? cs).map Int.ofNat

section

variable {m : Type → Type} {η : Type} [Monad m]

def ask {α : Type} (x : m α) : Act m η α := ExceptT.lift (StateT.lift x)

variable [Host m η]

def write (s : Stream) (bytes : ByteArray) : Act m η Unit := do
  let x ← getThe (State η)
  match (match s with | .output => x.output | .errors => x.errors) with
  | .stream .output => set { x with shown := x.shown ++ bytes }
  | .stream .errors => set { x with complaints := x.complaints ++ bytes }
  | .file f =>
    let _ ← ask (Host.write f (String.ofList (Text.decodeLoosely bytes.toList)))
    return

def say (text : String) : Act m η Unit := write .output text.toUTF8

def complain (text : String) (status : Nat) : Act m η Nat := do
  write .errors (text ++ "\n").toUTF8
  return status

/-- The path of a file as the script means it. -/
def pathOf (name : String) : Act m η String := do
  return joinPath (← getThe (State η)).folder name

/-- Writes files one after another; a dash stands for the input. -/
def showFiles : List String → Nat → Act m η Nat
  | [], status => return status
  | name :: rest, status => do
    if name = "-" then
      write .output (← getThe (State η)).input
      showFiles rest status
    else
      match ← ask (Host.read (m := m) (η := η) (← pathOf name)) with
      | .ok bytes =>
        write .output bytes
        showFiles rest status
      | .error e =>
        let reason := (e.message.splitOn " (os error").headD ""
        showFiles rest (← complain ("cat: " ++ name ++ ": " ++ reason) 1)

/-- Lets time pass, as far as there is any left. -/
def sleep (d : Span) : Act m η Unit := do
  let x ← getThe (State η)
  if x.left.nanos ≤ d.nanos then
    ask (Host.rest x.left)
    throw .late
  else
    ask (Host.rest d)
    set { x with left := ⟨x.left.nanos - d.nanos⟩ }

def comparison? : String → Option (Int → Int → Bool)
  | "-eq" => some (fun a b => a == b)
  | "-ne" => some (fun a b => a != b)
  | "-lt" => some (fun a b => a < b)
  | "-le" => some (fun a b => a ≤ b)
  | "-gt" => some (fun a b => b < a)
  | "-ge" => some (fun a b => b ≤ a)
  | _ => none

/-- Whether a test holds; there is no answer to what is no test. -/
def holds : List String → Act m η (Option Bool)
  | [] => return some false
  | [s] => return some (!s.isEmpty)
  | ["!", s] => return some s.isEmpty
  | [op, s] => do
    if op = "-n" then return some (!s.isEmpty)
    else if op = "-z" then return some s.isEmpty
    else if op ∈ ["-e", "-f", "-d"] then
      let kind ← ask (Host.kind? (m := m) (η := η) (← pathOf s))
      return some (if op = "-e" then kind.isSome
        else kind == some (if op = "-f" then .file else .folder))
    else return none
  | "!" :: rest => do return (← holds rest).map (!·)
  | [a, op, b] =>
    if op = "=" then return some (a == b)
    else if op = "!=" then return some (a != b)
    else
      match comparison? op, integer? a, integer? b with
      | some f, some x, some y => return some (f x y)
      | _, _, _ => return none
  | _ => return none

def test (args : List String) : Act m η Nat := do
  match ← holds args with
  | some true => return 0
  | some false => return 1
  | none => complain "test: bad expression" 2

/-- The commands of the shell, by their names. -/
def builtin? : String → Option (List String → Act m η Nat)
  | ":" | "true" => some fun _ => return 0
  | "false" => some fun _ => return 1
  | "echo" => some fun args => do
    let (args, ending) := if args.head? = some "-n" then (args.drop 1, "") else (args, "\n")
    say (" ".intercalate args ++ ending)
    return 0
  | "cat" => some fun args => showFiles (if args.isEmpty then ["-"] else args) 0
  | "wc" => some fun args => do
    let input := (← getThe (State η)).input
    let lines := input.toList.countP (· == 10)
    if args = ["-l"] then
      say (toString lines ++ "\n")
      return 0
    else if args = ["-c"] then
      say (toString input.size ++ "\n")
      return 0
    else complain "wc: only the input can be counted" 1
  | "test" => some test
  | "[" => some fun args =>
    if args.getLast? = some "]" then test args.dropLast else complain "[: missing ]" 2
  | "exit" => some fun args => do
    match args with
    | [] => throw (.exit (← getThe (State η)).status)
    | s :: _ =>
      match Text.digits? s.toList with
      | some n => throw (.exit (n % 256))
      | none =>
        let status ← complain ("exit: Illegal number: " ++ s) 2
        throw (.exit status)
  | "sleep" => some fun args => do
    match args with
    | [s] =>
      match seconds? s with
      | some d =>
        sleep d
        return 0
      | none => complain ("sleep: invalid time interval " ++ s) 1
    | _ => complain "sleep: missing operand" 1
  | "kill" => some fun args => do
    let (signal, target) := match args with
      | [s, t] => (Text.digits? (s.toList.drop 1), t)
      | [t] => (some 15, t)
      | _ => (none, "")
    match signal with
    | some n =>
      if target ≠ ownNumber then complain "kill: No such process" 1
      else if n ∈ harmlessSignals then return 0
      else throw (.signal n)
    | none => complain "kill: bad arguments" 2
  | "shift" => some fun _ => do
    modifyThe (State η) fun x => { x with arguments := x.arguments.drop 1 }
    return 0
  | _ => none

/-- The value of a parameter that is one text. -/
def State.value (x : State η) (name : String) : String :=
  if name = "#" then toString x.arguments.length
  else if name = "?" then toString x.status
  else if name = "$" then ownNumber
  else if name = "0" then x.name
  else
    match Text.digits? name.toList with
    | some n => x.arguments.getD (n - 1) ""
    | none => (x.vars.lookup name).getD ""

def setStatus (n : Nat) : Act m η Unit := modifyThe (State η) fun x => { x with status := n }

def setVariable (name value : String) : Act m η Unit :=
  modifyThe (State η) fun x =>
    { x with vars := (name, value) :: x.vars.filter (fun v => v.1 != name) }

/-- What a script writes, without the line breaks at its end. -/
def withoutLastBreaks (bytes : ByteArray) : List Char :=
  ((Text.decodeLoosely bytes.toList).reverse.dropWhile (· == '\n')).reverse

mutual

/-- The fields that a word stands for. -/
def fieldsOf (fuel : Nat) (w : Word) (f : Fields) : Act m η Fields :=
  match fuel with
  | 0 => throw .late
  | fuel + 1 =>
    match w with
    | [] => return f
    | .text quoted cs :: rest => fieldsOf fuel rest (f.add quoted cs)
    | .parameter quoted name :: rest => do
      let x ← getThe (State η)
      if name = "@" then fieldsOf fuel rest (f.addEach (!quoted) x.arguments)
      else
        let cs := if name = "*" then (" ".intercalate x.arguments).toList
          else (x.value name).toList
        fieldsOf fuel rest (if quoted then f.add true cs else f.addCut cs)
    | .output quoted script :: rest => do
      let cs ← outputOf fuel script
      fieldsOf fuel rest (if quoted then f.add true cs else f.addCut cs)

/-- What a script inside a word writes. It is a script of its own: what it sets is gone with it. -/
def outputOf (fuel : Nat) (s : Script) : Act m η (List Char) :=
  match fuel with
  | 0 => throw .late
  | fuel + 1 => do
    let x ← getThe (State η)
    set { x with output := .stream .output, shown := ByteArray.empty }
    let status ← tryCatch (do runAll fuel s; return (← getThe (State η)).status) fun h =>
      match h with
      | .exit n => return n
      | .signal n => return 128 + n
      | .late => throw .late
    let y ← getThe (State η)
    set { x with complaints := y.complaints, left := y.left, status := status }
    return withoutLastBreaks y.shown

/-- The text of a word that is not cut. -/
def textOf (fuel : Nat) (w : Word) : Act m η Field :=
  match fuel with
  | 0 => throw .late
  | fuel + 1 => do
    let fields ← fieldsOf fuel w .none
    return [(' ', true)].intercalate fields.toList

def wordsOf (fuel : Nat) (ws : List Word) : Act m η (List String) :=
  match fuel with
  | 0 => throw .late
  | fuel + 1 =>
    match ws with
    | [] => return []
    | w :: rest => do
      let fields ← fieldsOf fuel w .none
      return fields.toList.map Field.text ++ (← wordsOf fuel rest)

/-- Runs a command with other places to read from or to write to. -/
def redirect (fuel : Nat) (rs : List Redirect) (c : Command) : Act m η Unit :=
  match fuel with
  | 0 => throw .late
  | fuel + 1 =>
    match rs with
    | [] => run fuel c
    | .toStream s target :: rest => do
      modifyThe (State η) fun x =>
        let sink := match target with | .output => x.output | .errors => x.errors
        match s with
        | .output => { x with output := sink }
        | .errors => { x with errors := sink }
      redirect fuel rest c
    | .fromFile path :: rest => do
      let name := (← textOf fuel path).text
      match ← ask (Host.read (m := m) (η := η) (← pathOf name)) with
      | .ok bytes =>
        modifyThe (State η) fun x => { x with input := bytes }
        redirect fuel rest c
      | .error _ => setStatus (← complain ("cannot open " ++ name ++ ": No such file") 2)
    | .toFile s atEnd path :: rest => do
      let name := (← textOf fuel path).text
      let full ← pathOf name
      match ← ask (if atEnd then Host.openAtEnd full else Host.openAfresh full) with
      | .ok f =>
        modifyThe (State η) fun x =>
          match s with
          | .output => { x with output := .file f }
          | .errors => { x with errors := .file f }
        redirect fuel rest c
      | .error _ => setStatus (← complain ("cannot create " ++ name) 2)

def settings (fuel : Nat) (ss : List (String × Word)) : Act m η Unit :=
  match fuel with
  | 0 => throw .late
  | fuel + 1 =>
    match ss with
    | [] => return ()
    | (name, w) :: rest => do
      setVariable name (← textOf fuel w).text
      settings fuel rest

def forEach (fuel : Nat) (name : String) (items : List String) (body : Script) : Act m η Unit :=
  match fuel with
  | 0 => throw .late
  | fuel + 1 =>
    match items with
    | [] => return ()
    | item :: rest => do
      setVariable name item
      runAll fuel body
      forEach fuel name rest body

/-- Runs a body as long as a condition asks for it. -/
def loop (fuel : Nat) (untilTrue : Bool) (condition body : Script) (status : Nat) : Act m η Unit :=
  match fuel with
  | 0 => throw .late
  | fuel + 1 => do
    runAll fuel condition
    if ((← getThe (State η)).status == 0) == untilTrue then setStatus status
    else
      runAll fuel body
      loop fuel untilTrue condition body (← getThe (State η)).status

/-- Runs what follows the first condition that succeeds. -/
def branch (fuel : Nat) (arms : List (Script × Script)) (otherwise : Script) : Act m η Unit :=
  match fuel with
  | 0 => throw .late
  | fuel + 1 =>
    match arms with
    | [] => do
      setStatus 0
      runAll fuel otherwise
    | (condition, body) :: rest => do
      runAll fuel condition
      if (← getThe (State η)).status = 0 then runAll fuel body else branch fuel rest otherwise

/-- Runs what follows the first pattern whose form a text has. -/
def select (fuel : Nat) (subject : List Char) (arms : List (List Word × Script)) : Act m η Unit :=
  match fuel with
  | 0 => throw .late
  | fuel + 1 =>
    match arms with
    | [] => setStatus 0
    | ([], _) :: rest => select fuel subject rest
    | (p :: ps, body) :: rest => do
      if fits (← textOf fuel p) subject then
        setStatus 0
        runAll fuel body
      else select fuel subject ((ps, body) :: rest)

def run (fuel : Nat) (c : Command) : Act m η Unit :=
  match fuel with
  | 0 => throw .late
  | fuel + 1 =>
    match c with
    | .simple ss ws => do
      setStatus 0
      settings fuel ss
      match ← wordsOf fuel ws with
      | [] => return ()
      | name :: args =>
        match builtin? name with
        | some f => setStatus (← f args)
        | none => setStatus (← complain (name ++ ": not found") 127)
    | .redirected c rs => do
      let x ← getThe (State η)
      redirect fuel rs c
      modifyThe (State η) fun y =>
        { y with input := x.input, output := x.output, errors := x.errors }
    | .negated c => do
      run fuel c
      modifyThe (State η) fun x => { x with status := if x.status = 0 then 1 else 0 }
    | .both a b => do
      run fuel a
      if (← getThe (State η)).status = 0 then run fuel b
    | .either a b => do
      run fuel a
      if (← getThe (State η)).status ≠ 0 then run fuel b
    | .group cs => runAll fuel cs
    | .branch arms otherwise => branch fuel arms otherwise
    | .forEach name items body => do
      let items ← match items with
        | some ws => wordsOf fuel ws
        | none => pure (← getThe (State η)).arguments
      setStatus 0
      forEach fuel name items body
    | .whileDo untilTrue condition body => loop fuel untilTrue condition body 0
    | .case_ subject arms => do
      let s ← textOf fuel subject
      select fuel (s.map (·.1)) arms

def runAll (fuel : Nat) (s : Script) : Act m η Unit :=
  match fuel with
  | 0 => throw .late
  | fuel + 1 =>
    match s with
    | [] => return ()
    | c :: rest => do
      run fuel c
      runAll fuel rest

end

/-- How a script ended: with a status unless a signal ended it, and with what it wrote. -/
structure Ended where
  status : Option Nat
  output : ByteArray
  errors : ByteArray

/-- A script that nests deeper than this does not come to an end in time. -/
def depthBound : Nat := 20000

/-- Runs a script in a folder; there is no ending if its time is over before. -/
def Script.run (s : Script) (folder name : String) (arguments : List String) (time : Span) :
    m (Option Ended) := do
  let start : State η := ⟨folder, [], name, arguments, 0, ByteArray.empty, .stream .output,
    .stream .errors, ByteArray.empty, ByteArray.empty, time⟩
  let (result, x) ← (runAll depthBound s : Act m η Unit).run start
  match result with
  | .ok () => return some ⟨some x.status, x.shown, x.complaints⟩
  | .error (.exit status) => return some ⟨some status, x.shown, x.complaints⟩
  | .error (.signal _) => return some ⟨none, x.shown, x.complaints⟩
  | .error .late => return none

end

end ImageBatch.Shell
