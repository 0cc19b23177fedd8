import ImageBatch.Host

/-!
# A machine in memory

A host that is a value: a tree of folders and files, a clock that is set by hand, and the lines that
were written for the user. Requests can be made to fail. An open file is the number of its content,
so it can be written to after its name is gone.
-/

namespace ImageBatch

/-- The steps from the root to a thing in the tree. -/
abbrev TreePath := List String

inductive Node where
  | folder
  | file (id : Nat)
deriving DecidableEq, Repr

structure Machine where
  /-- All things in the tree but the root. -/
  nodes : List (TreePath × Node)
  /-- The contents of files, by number. -/
  contents : List ByteArray
  /-- Where relative paths start. -/
  home : TreePath
  clock : Instant
  runs : Nat
  /-- The requests to come that fail; one that is not listed does not. -/
  faults : List (Option FileError)
  printed : List String
  warned : List String

namespace Machine

def empty : Machine := ⟨[], [], [], ⟨0, 0⟩, 0, [], [], []⟩

/-- What stands at the end of a tree path. The root is a folder. -/
def node? (x : Machine) : TreePath → Option Node
  | [] => some .folder
  | p => x.nodes.lookup p

/-- The most bytes that a name may have. -/
def nameBound : Nat := 255

/-- The most bytes that a path may have. -/
def pathBound : Nat := 4095

/-- Follows names from a folder of the tree. All but the last must name folders; the last need not
name anything. -/
def walk (x : Machine) : TreePath → List String → Except FileError TreePath
  | here, [] => .ok here
  | here, name :: rest =>
    match x.node? here with
    | none => .error .missing
    | some (.file _) => .error .notFolder
    | some .folder =>
      if nameBound < name.utf8ByteSize then .error .nameTooLong
      else if name = ".." then walk x here.dropLast rest
      else walk x (here ++ [name]) rest

/-- The names in the text of a path. -/
def names (path : String) : List String :=
  ((path.toList.splitOn '/').map String.ofList).filter (fun n => !n.isEmpty && n != ".")

/-- The end of a path in the tree. -/
def resolve (x : Machine) (path : String) : Except FileError TreePath :=
  if path.isEmpty then .error .missing
  else if path.toList.contains '\x00' then .error .badName
  else if pathBound < path.utf8ByteSize then .error .nameTooLong
  else do
    let p ← x.walk (if path.startsWith "/" then [] else x.home) (names path)
    match path.endsWith "/", x.node? p with
    | true, some (.file _) => .error .notFolder
    | _, _ => .ok p

def kind? (x : Machine) (path : String) : Option FileKind :=
  match x.resolve path with
  | .error _ => none
  | .ok p => (x.node? p).map fun n =>
    match n with
    | .folder => .folder
    | .file _ => .file

def read (x : Machine) (path : String) : Except FileError ByteArray := do
  match x.node? (← x.resolve path) with
  | none => .error .missing
  | some .folder => .error .isFolder
  | some (.file id) => .ok (x.contents.getD id ByteArray.empty)

/-- The names of the things in a folder of the tree. -/
def children (x : Machine) (p : TreePath) : List String :=
  x.nodes.filterMap fun n =>
    if n.1.dropLast = p then n.1.getLast? else none

def list (x : Machine) (path : String) : Except FileError (List String) := do
  let p ← x.resolve path
  match x.node? p with
  | none => .error .missing
  | some (.file _) => .error .notFolder
  | some .folder => .ok (x.children p)

/-- Makes the folders along names, as far as they are missing. -/
def grow (x : Machine) : TreePath → List String → Except FileError Machine
  | _, [] => .ok x
  | here, name :: rest =>
    if nameBound < name.utf8ByteSize then .error .nameTooLong
    else
      let p := if name = ".." then here.dropLast else here ++ [name]
      match x.node? p with
      | some .folder => grow x p rest
      | some (.file _) => .error (if rest.isEmpty then .exists else .notFolder)
      | none => grow { x with nodes := (p, .folder) :: x.nodes } p rest

def makeFolders (x : Machine) (path : String) : Except FileError Machine :=
  if path.toList.contains '\x00' then .error .badName
  else if pathBound < path.utf8ByteSize then .error .nameTooLong
  else x.grow (if path.startsWith "/" then [] else x.home) (names path)

/-- Puts a new empty file into the tree. -/
def addFile (x : Machine) (p : TreePath) : Machine × Nat :=
  ({ x with
    nodes := (p, .file x.contents.length) :: x.nodes
    contents := x.contents ++ [ByteArray.empty] }, x.contents.length)

/-- Makes a file where there is nothing. -/
def create (x : Machine) (path : String) : Except FileError (Machine × Nat) := do
  let p ← x.resolve path
  match x.node? p with
  | some _ => .error .exists
  | none => .ok (x.addFile p)

/-- Tries paths from number `n` on, at most `tries` of them. -/
def createFrom (x : Machine) (path : Nat → String) :
    Nat → Nat → Except (Nat × FileError) (Machine × Nat × Nat)
  | 0, n => .error (n - 1, .exists)
  | tries + 1, n =>
    match x.create (path n) with
    | .ok (y, id) => .ok (y, n, id)
    | .error .exists => createFrom x path tries (n + 1)
    | .error e => .error (n, e)

/-- Different paths cannot all be taken, as there are only so many things; but no number is greater
than the last one. -/
def createFirst (x : Machine) (path : Nat → String) :
    Except (Nat × FileError) (Machine × Nat × Nat) :=
  x.createFrom path (min (x.nodes.length + 2) (lastNumber + 1)) 0

/-- Opens a file, or makes it. -/
def openFile (x : Machine) (path : String) : Except FileError (Machine × Nat) := do
  let p ← x.resolve path
  match x.node? p with
  | some .folder => .error .isFolder
  | some (.file id) => .ok (x, id)
  | none => .ok (x.addFile p)

def setContent (x : Machine) (id : Nat) (content : ByteArray) : Machine :=
  { x with contents := x.contents.set id content }

def append (x : Machine) (id : Nat) (bytes : ByteArray) : Machine :=
  x.setContent id (x.contents.getD id ByteArray.empty ++ bytes)

/-- Takes a thing and all that is in it out of the tree. -/
def remove (x : Machine) (path : String) : Machine :=
  match x.resolve path with
  | .error _ => x
  | .ok p => { x with nodes := x.nodes.filter (fun n => !p.isPrefixOf n.1) }

def put (x : Machine) (path : String) (content : ByteArray) : Machine :=
  match x.openFile path with
  | .error _ => x
  | .ok (y, id) => y.setContent id content

/-- The fault of this request, and those that are left. -/
def fault (x : Machine) : Option FileError × Machine :=
  match x.faults with
  | [] => (none, x)
  | f :: fs => (f, { x with faults := fs })

/-- A request that only looks, unless it is made to fail. -/
def look {α : Type} (f : Machine → Except FileError α) : StateM Machine (Except FileError α) :=
  fun x =>
    match x.fault with
    | (some e, y) => (.error e, y)
    | (none, y) => (f y, y)

/-- A request that changes the machine, unless it is made to fail. -/
def act {ε α : Type} (wrong : FileError → ε) (f : Machine → Except ε (Machine × α)) :
    StateM Machine (Except ε α) :=
  fun x =>
    match x.fault with
    | (some e, y) => (.error (wrong e), y)
    | (none, y) =>
      match f y with
      | .error e => (.error e, y)
      | .ok (z, a) => (.ok a, z)

instance : Host (StateM Machine) Nat where
  kind? path := fun x => (x.kind? path, x)
  read path := look (fun x => x.read path)
  list path := look (fun x => x.list path)
  makeFolders path := act id fun x => (x.makeFolders path).map (fun y => (y, ()))
  createFirst path := act (fun e => (0, e)) (fun x => x.createFirst path)
  openAtEnd path := act id (fun x => x.openFile path)
  openAfresh path := act id fun x =>
    (x.openFile path).map (fun (y, id) => (y.setContent id ByteArray.empty, id))
  write id text := act (fun e => e) fun x => .ok (x.append id text.toUTF8, ())
  now := fun x => (x.clock, x)
  newRunId := fun x => ("run-" ++ toString (x.runs + 1), { x with runs := x.runs + 1 })
  rest span := fun x =>
    let nanos := x.clock.nanos + span.nanos
    ((), { x with clock := ⟨x.clock.seconds + nanos / 1000000000, nanos % 1000000000⟩ })
  print line := fun x => ((), { x with printed := line :: x.printed })
  warn line := fun x => ((), { x with warned := line :: x.warned })

end Machine

end ImageBatch
