/-!
# Scripts

The commands of a small shell and how they are read: simple commands with redirections, lists,
conditions, loops and cases. What stands between quotes is text and nothing else.
-/

namespace ImageBatch.Shell

inductive Stream where
  | output
  | errors
deriving DecidableEq, Repr

mutual

/-- A piece of a word. What comes out of an unquoted piece is cut at blanks. -/
inductive Piece where
  | text (quoted : Bool) (cs : List Char)
  | parameter (quoted : Bool) (name : String)
  | output (quoted : Bool) (script : List Command)

/-- Another place to read from or to write to. -/
inductive Redirect where
  | fromFile (path : List Piece)
  | toFile (stream : Stream) (atEnd : Bool) (path : List Piece)
  | toStream (stream target : Stream)

inductive Command where
  | simple (settings : List (String × List Piece)) (words : List (List Piece))
  | redirected (command : Command) (redirects : List Redirect)
  | negated (command : Command)
  /-- The second command runs if the first one succeeds. -/
  | both (first second : Command)
  /-- The second command runs if the first one fails. -/
  | either (first second : Command)
  | group (commands : List Command)
  /-- Conditions with what follows each, and what follows if all of them fail. -/
  | branch (arms : List (List Command × List Command)) (otherwise : List Command)
  /-- Runs for each item; without a list of items, for each argument. -/
  | forEach (name : String) (items : Option (List (List Piece))) (body : List Command)
  /-- Runs as long as the condition succeeds, or as long as it fails. -/
  | whileDo (untilTrue : Bool) (condition body : List Command)
  | case_ (subject : List Piece) (arms : List (List (List Piece) × List Command))

end

instance : Inhabited Piece := ⟨.text false []⟩

instance : Inhabited Redirect := ⟨.toStream .output .errors⟩

instance : Inhabited Command := ⟨.group []⟩

abbrev Word := List Piece

abbrev Script := List Command

/-- A step over the text of a script. -/
abbrev Parse := StateT (List Char) Option

namespace Parse

def skip (n : Nat) : Parse Unit := modify (List.drop n)

/-- Takes a text if it stands here. -/
def skipIf (s : String) : Parse Bool := do
  if s.toList.isPrefixOf (← get) then
    skip s.length
    return true
  else return false

def isNameStart (c : Char) : Bool := c.isAlpha || c == '_'

def isNameChar (c : Char) : Bool := c.isAlphanum || c == '_'

def endsWord (c : Char) : Bool :=
  c ∈ [' ', '\t', '\n', ';', '&', '|', '<', '>', '(', ')']

def closingWords : List String := ["then", "else", "elif", "fi", "do", "done", "esac", "\x7d"]

def reservedWords : List String :=
  ["if", "for", "in", "case", "while", "until", "!", "\x7b"] ++ closingWords

/-- Passes over blanks, joined lines and a comment. -/
def skipBlanksFrom : List Char → List Char
  | ' ' :: cs => skipBlanksFrom cs
  | '\t' :: cs => skipBlanksFrom cs
  | '\\' :: '\n' :: cs => skipBlanksFrom cs
  | '#' :: cs => cs.dropWhile (· != '\n')
  | cs => cs

def skipBlanks : Parse Unit := modify skipBlanksFrom

/-- Passes over blanks, comments and empty lines. -/
def skipLines : Nat → Parse Unit
  | 0 => failure
  | fuel + 1 => do
    skipBlanks
    if ← skipIf "\n" then skipLines fuel

/-- The reserved word that stands here. -/
def reserved? : Parse (Option String) := do
  let w := String.ofList ((← get).takeWhile (fun c => !endsWord c))
  return if w ∈ reservedWords then some w else none

/-- A list of commands ends here. -/
def atListEnd : Parse Bool := do
  match ← get with
  | [] => return true
  | ')' :: _ => return true
  | ';' :: ';' :: _ => return true
  | _ =>
    match ← reserved? with
    | some w => return w ∈ closingWords
    | none => return false

/-- A reserved word has to stand here. -/
def expect (fuel : Nat) (w : String) : Parse Unit := do
  skipLines fuel
  if (← reserved?) = some w then skip w.length else failure

def isSpecial (c : Char) : Bool := c.isDigit || c ∈ ['@', '*', '#', '?', '$', '!']

def name? (cs : List Char) : Option String :=
  let n := cs.takeWhile isNameChar
  match n with
  | [] => none
  | c :: _ => if isNameStart c then some (String.ofList n) else none

/-- What stands between brackets after a dollar sign. -/
def braced? (cs : List Char) : Option String :=
  let n := cs.takeWhile (· != '\x7d')
  match n with
  | [c] => if isSpecial c || isNameStart c then some (String.ofList n) else none
  | _ => (name? n).bind fun s => if s.length = n.length then some s else none

def stream? : Char → Option Stream
  | '1' => some .output
  | '2' => some .errors
  | _ => none

mutual

/-- What a dollar sign stands for. -/
def dollar (fuel : Nat) (quoted : Bool) : Parse Piece :=
  match fuel with
  | 0 => failure
  | fuel + 1 => do
    match (← get).drop 1 with
    | '(' :: _ =>
      skip 2
      let s ← list fuel
      if ← skipIf ")" then return .output quoted s else failure
    | '\x7b' :: cs =>
      let some n := braced? cs | failure
      skip (n.length + 3)
      return .parameter quoted n
    | c :: cs =>
      if isSpecial c then
        skip 2
        return .parameter quoted (String.singleton c)
      else
        match name? (c :: cs) with
        | some n =>
          skip (n.length + 1)
          return .parameter quoted n
        | none =>
          skip 1
          return .text quoted ['$']
    | [] =>
      skip 1
      return .text quoted ['$']

/-- The pieces up to a double quote. -/
def inQuotes (fuel : Nat) : Parse Word :=
  match fuel with
  | 0 => failure
  | fuel + 1 => do
    match ← get with
    | [] => failure
    | '"' :: _ =>
      skip 1
      return []
    | '$' :: _ =>
      let p ← dollar fuel true
      return p :: (← inQuotes fuel)
    | '\\' :: c :: _ =>
      skip 2
      let cs := if c = '\n' then [] else if c ∈ ['$', '"', '\\', '\x60'] then [c] else ['\\', c]
      return .text true cs :: (← inQuotes fuel)
    | c :: _ =>
      skip 1
      return .text true [c] :: (← inQuotes fuel)

/-- The pieces of a word; there are none where no word begins. -/
def word (fuel : Nat) : Parse Word :=
  match fuel with
  | 0 => failure
  | fuel + 1 => do
    match ← get with
    | [] => return []
    | '\'' :: cs =>
      let quoted := cs.takeWhile (· != '\'')
      if quoted.length = cs.length then failure
      else
        skip (quoted.length + 2)
        return .text true quoted :: (← word fuel)
    | '"' :: _ =>
      skip 1
      let inner ← inQuotes fuel
      return .text true [] :: inner ++ (← word fuel)
    | '$' :: _ =>
      let p ← dollar fuel false
      return p :: (← word fuel)
    | '\\' :: '\n' :: _ =>
      skip 2
      word fuel
    | '\\' :: c :: _ =>
      skip 2
      return .text true [c] :: (← word fuel)
    | '\x60' :: _ => failure
    | c :: _ =>
      if endsWord c then return []
      else
        skip 1
        return .text false [c] :: (← word fuel)

def redirect? (fuel : Nat) : Parse (Option Redirect) :=
  match fuel with
  | 0 => failure
  | fuel + 1 => do
    let path : Parse Word := do
      skipBlanks
      let w ← word fuel
      if w.isEmpty then failure else return w
    let toward (s : Stream) : Parse (Option Redirect) := do
      if ← skipIf ">>" then return some (.toFile s true (← path))
      else if ← skipIf ">&" then
        match ← get with
        | c :: _ =>
          let some target := stream? c | failure
          skip 1
          return some (.toStream s target)
        | [] => failure
      else
        skip 1
        return some (.toFile s false (← path))
    match ← get with
    | '<' :: '<' :: _ => failure
    | '<' :: '&' :: _ => failure
    | '<' :: _ =>
      skip 1
      return some (.fromFile (← path))
    | '>' :: _ => toward .output
    | d :: '>' :: _ =>
      if d.isDigit then
        let some s := stream? d | failure
        skip 1
        toward s
      else return none
    | _ => return none

def redirects (fuel : Nat) : Parse (List Redirect) :=
  match fuel with
  | 0 => failure
  | fuel + 1 => do
    skipBlanks
    match ← redirect? fuel with
    | some r => return r :: (← redirects fuel)
    | none => return []

/-- The words of a simple command and its redirections; settings stand in front of the words. -/
def parts (fuel : Nat) (front : Bool) :
    Parse (List (String × Word) × List Word × List Redirect) :=
  match fuel with
  | 0 => failure
  | fuel + 1 => do
    skipBlanks
    match ← redirect? fuel with
    | some r =>
      let (ss, ws, rs) ← parts fuel front
      return (ss, ws, r :: rs)
    | none =>
      let cs ← get
      let setting := if front then (name? cs).bind (fun n =>
        if cs[n.length]? = some '=' then some n else none) else none
      match setting with
      | some n =>
        skip (n.length + 1)
        let value ← word fuel
        let (ss, ws, rs) ← parts fuel true
        return ((n, value) :: ss, ws, rs)
      | none =>
        let w ← word fuel
        if w.isEmpty then return ([], [], [])
        else
          let (ss, ws, rs) ← parts fuel false
          return (ss, w :: ws, rs)

/-- The words of a loop or of alternative patterns. -/
def words (fuel : Nat) : Parse (List Word) :=
  match fuel with
  | 0 => failure
  | fuel + 1 => do
    skipBlanks
    let w ← word fuel
    if w.isEmpty then return [] else return w :: (← words fuel)

/-- The patterns of a case, up to the bracket behind them. -/
def patterns (fuel : Nat) : Parse (List Word) :=
  match fuel with
  | 0 => failure
  | fuel + 1 => do
    skipBlanks
    let w ← word fuel
    if w.isEmpty then failure
    else
      skipBlanks
      if ← skipIf "|" then return w :: (← patterns fuel)
      else if ← skipIf ")" then return [w]
      else failure

def caseArms (fuel : Nat) : Parse (List (List Word × Script)) :=
  match fuel with
  | 0 => failure
  | fuel + 1 => do
    skipLines fuel
    if (← reserved?) = some "esac" then
      skip 4
      return []
    else
      let _ ← skipIf "("
      let ps ← patterns fuel
      let body ← list fuel
      skipLines fuel
      let _ ← skipIf ";;"
      return (ps, body) :: (← caseArms fuel)

/-- The arms of a condition behind its first word, and what follows if all of them fail. -/
def branchArms (fuel : Nat) : Parse (List (Script × Script) × Script) :=
  match fuel with
  | 0 => failure
  | fuel + 1 => do
    let condition ← list fuel
    expect fuel "then"
    let body ← list fuel
    skipLines fuel
    if (← reserved?) = some "elif" then
      skip 4
      let (arms, otherwise) ← branchArms fuel
      return ((condition, body) :: arms, otherwise)
    else if (← reserved?) = some "else" then
      skip 4
      let otherwise ← list fuel
      expect fuel "fi"
      return ([(condition, body)], otherwise)
    else
      expect fuel "fi"
      return ([(condition, body)], [])

def loopBody (fuel : Nat) : Parse Script :=
  match fuel with
  | 0 => failure
  | fuel + 1 => do
    expect fuel "do"
    let body ← list fuel
    expect fuel "done"
    return body

/-- A command that begins with a reserved word. -/
def compound (fuel : Nat) (w : String) : Parse Command :=
  match fuel with
  | 0 => failure
  | fuel + 1 => do
    skip w.length
    if w = "!" then
      skipBlanks
      return .negated (← command fuel)
    else if w = "\x7b" then
      let body ← list fuel
      expect fuel "\x7d"
      return .group body
    else if w = "if" then
      let (arms, otherwise) ← branchArms fuel
      return .branch arms otherwise
    else if w = "while" || w = "until" then
      let condition ← list fuel
      return .whileDo (w == "until") condition (← loopBody fuel)
    else if w = "for" then
      skipBlanks
      let some n := name? (← get) | failure
      skip n.length
      skipLines fuel
      let items ← if (← reserved?) = some "in" then
          skip 2
          pure (some (← words fuel))
        else pure none
      skipBlanks
      let _ ← skipIf ";"
      return .forEach n items (← loopBody fuel)
    else if w = "case" then
      skipBlanks
      let subject ← word fuel
      expect fuel "in"
      return .case_ subject (← caseArms fuel)
    else failure

def command (fuel : Nat) : Parse Command :=
  match fuel with
  | 0 => failure
  | fuel + 1 => do
    match ← reserved? with
    | some w =>
      let c ← compound fuel w
      let rs ← redirects fuel
      return if rs.isEmpty then c else .redirected c rs
    | none =>
      let (ss, ws, rs) ← parts fuel true
      if ss.isEmpty && ws.isEmpty && rs.isEmpty then failure
      else
        let c := Command.simple ss ws
        return if rs.isEmpty then c else .redirected c rs

/-- Commands that depend on what came before them. -/
def chain (fuel : Nat) (first : Command) : Parse Command :=
  match fuel with
  | 0 => failure
  | fuel + 1 => do
    skipBlanks
    if ← skipIf "&&" then
      skipLines fuel
      chain fuel (.both first (← command fuel))
    else if ← skipIf "||" then
      skipLines fuel
      chain fuel (.either first (← command fuel))
    else return first

def list (fuel : Nat) : Parse Script :=
  match fuel with
  | 0 => failure
  | fuel + 1 => do
    skipLines fuel
    if ← atListEnd then return []
    else
      let c ← chain fuel (← command fuel)
      skipBlanks
      match ← get with
      | ';' :: ';' :: _ => return [c]
      | ';' :: _ =>
        skip 1
        return c :: (← list fuel)
      | '\n' :: _ => return c :: (← list fuel)
      | _ => if ← atListEnd then return [c] else failure

end

end Parse

def Script.ofText? (text : String) : Option Script :=
  let cs := text.toList
  match (Parse.list (8 * cs.length + 16)).run cs with
  | some (s, []) => some s
  | _ => none

end ImageBatch.Shell
