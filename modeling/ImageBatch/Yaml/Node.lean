import ImageBatch.Yaml.Token

/-!
# Nodes of YAML

A document is a tree of scalars, lists and maps. Where nothing is written there is an empty plain
scalar. A node may be given a name, and an alias then stands for it elsewhere in the tree.
-/

namespace ImageBatch.Yaml

/-- A node of a document. An alias carries the number of the node for which it stands. -/
inductive Node where
  | scalar (tag : Option String) (style : Style) (text : String)
  | list (tag : Option String) (items : List Node)
  | map (tag : Option String) (entries : List (Node × Node))
  | alias_ (number : Nat)
deriving Repr, Inhabited

/-- What stands where nothing is written. -/
def Node.nothing : Node := .scalar none .plain ""

/-- A node that was given a name. A number may be used again for a later node. -/
structure Anchored where
  number : Nat
  /-- How many names were given before. -/
  order : Nat
  node : Node
deriving Inhabited

/-- A document: its tree, and the nodes that aliases may stand for. -/
structure Document where
  root : Node
  anchored : List Anchored
deriving Inhabited

/-- The node that an alias stands for: of the nodes with its number, the one that began last. -/
def Document.target? (d : Document) (number : Nat) : Option Node :=
  let candidates := d.anchored.filter (fun a => a.number == number)
  (candidates.foldl (fun best a =>
    match best with
    | some b => if b.order < a.order then some a else best
    | none => some a) none).map Anchored.node

/-- The state between two nodes. -/
structure Composer where
  tokens : List Token
  /-- What the handles of tags stand for. -/
  handles : List (String × String)
  /-- The numbers of the names that were given, each name once. -/
  names : List (String × Nat)
  given : Nat
  anchored : List Anchored

/-- A step over tokens that may find them out of place. -/
abbrev Compose := StateT Composer Option

namespace Compose

def peek : Compose (Option Token) := do return (← get).tokens.head?

def skip : Compose Unit := modify fun c => { c with tokens := c.tokens.tail }

/-- Passes over a token if it is the next one. -/
def skipIf (t : Token) : Compose Bool := do
  if (← peek) == some t then
    skip
    return true
  else return false

/-- Nothing is written before one of these tokens. -/
def nothingBefore (ends : List Token) : Compose Bool := do
  match ← peek with
  | none => return false
  | some t => return t ∈ ends

def tagName (t : WrittenTag) : Compose String := do
  if t.handle.isEmpty then return t.suffix
  else
    match (← get).handles.lookup t.handle with
    | some target => return target ++ t.suffix
    | none => failure

/-- An anchor and a tag in front of a node, in either order. -/
def properties : Compose (Option String × Option String) := do
  match ← peek with
  | some (.anchor name) =>
    skip
    match ← peek with
    | some (.tag t) =>
      skip
      return (some name, some (← tagName t))
    | _ => return (some name, none)
  | some (.tag t) =>
    skip
    match ← peek with
    | some (.anchor name) =>
      skip
      return (some name, some (← tagName t))
    | _ => return (none, some (← tagName t))
  | _ => return (none, none)

/-- Gives a name to the node that begins here. Its number counts the other names so far; a name that
is given again counts, too. -/
def giveName : Option String → Compose (Option (Nat × Nat))
  | none => return none
  | some name => do
    let c ← get
    let number := c.names.length
    set { c with
      names := (name, number) :: c.names.filter (fun n => n.1 != name)
      given := c.given + 1 }
    return some (number, c.given)

/-- Keeps a node for aliases. -/
def keep (slot : Option (Nat × Nat)) (n : Node) : Compose Node := do
  if let some (number, order) := slot then
    modify fun c => { c with anchored := ⟨number, order, n⟩ :: c.anchored }
  return n

/-- The node that an alias stands for has to have begun before it. -/
def aliasOf (name : String) : Compose Node := do
  match (← get).names.lookup name with
  | some number => return .alias_ number
  | none => failure

/-- A lone exclamation mark says no more about a scalar than its style. -/
def scalarTag (tag : Option String) : Option String := if tag = some "!" then none else tag

mutual

/-- A node. Blocks may begin here or not, and a list may begin in the column of its key or not. -/
def node (fuel : Nat) (block flush : Bool) : Compose Node :=
  match fuel with
  | 0 => failure
  | fuel + 1 => do
    if let some (.alias_ name) ← peek then
      skip
      aliasOf name
    else
      let (name, tag) ← properties
      let next ← peek
      if flush && next == some .blockEntry then
        let slot ← giveName name
        keep slot (.list tag (← flushItems fuel))
      else
        match next with
        | some (.scalar style text) =>
          skip
          keep (← giveName name) (.scalar (scalarTag tag) style text)
        | some .flowSequenceStart =>
          skip
          let slot ← giveName name
          keep slot (.list tag (← flowItems fuel true))
        | some .flowMappingStart =>
          skip
          let slot ← giveName name
          keep slot (.map tag (← flowEntries fuel true))
        | other =>
          if block && other == some .blockSequenceStart then
            skip
            let slot ← giveName name
            keep slot (.list tag (← blockItems fuel))
          else if block && other == some .blockMappingStart then
            skip
            let slot ← giveName name
            keep slot (.map tag (← blockEntries fuel))
          else if name.isSome || tag.isSome then keep (← giveName name) (.scalar tag .plain "")
          else failure

/-- The items of a list that is further in than what is around it. -/
def blockItems (fuel : Nat) : Compose (List Node) :=
  match fuel with
  | 0 => failure
  | fuel + 1 => do
    match ← peek with
    | some .blockEnd =>
      skip
      return []
    | some .blockEntry =>
      skip
      let item ← if ← nothingBefore [.blockEntry, .blockEnd] then pure .nothing
        else node fuel true false
      return item :: (← blockItems fuel)
    | _ => failure

/-- The items of a list in the column of its key. -/
def flushItems (fuel : Nat) : Compose (List Node) :=
  match fuel with
  | 0 => failure
  | fuel + 1 => do
    if ← skipIf .blockEntry then
      let item ← if ← nothingBefore [.blockEntry, .key, .value, .blockEnd] then pure .nothing
        else node fuel true false
      return item :: (← flushItems fuel)
    else return []

/-- The entries of a map. A key without a value has nothing for it. -/
def blockEntries (fuel : Nat) : Compose (List (Node × Node)) :=
  match fuel with
  | 0 => failure
  | fuel + 1 => do
    let part : Compose Node := do
      if ← nothingBefore [.key, .value, .blockEnd] then return .nothing else node fuel true true
    match ← peek with
    | some .blockEnd =>
      skip
      return []
    | some .key =>
      skip
      let key ← part
      let value ← if ← skipIf .value then part else pure .nothing
      return (key, value) :: (← blockEntries fuel)
    | _ => failure

/-- The items of a list between brackets. -/
def flowItems (fuel : Nat) (first : Bool) : Compose (List Node) :=
  match fuel with
  | 0 => failure
  | fuel + 1 => do
    if ← skipIf .flowSequenceEnd then return []
    else
      unless first do
        unless ← skipIf .flowEntry do failure
      if ← skipIf .key then
        let pair ← flowPair fuel
        return .map none [pair] :: (← flowItems fuel false)
      else if ← skipIf .flowSequenceEnd then return []
      else
        let item ← node fuel false false
        return item :: (← flowItems fuel false)

/-- A single pair in a list. A mark that stands where the key should be takes its place. -/
def flowPair (fuel : Nat) : Compose (Node × Node) :=
  match fuel with
  | 0 => failure
  | fuel + 1 => do
    let key ← if ← nothingBefore [.value, .flowEntry, .flowSequenceEnd] then
        skip
        pure .nothing
      else node fuel false false
    if ← skipIf .value then
      if ← nothingBefore [.flowEntry, .flowSequenceEnd] then return (key, .nothing)
      else return (key, ← node fuel false false)
    else return (key, .nothing)

/-- The entries of a map between brackets. -/
def flowEntries (fuel : Nat) (first : Bool) : Compose (List (Node × Node)) :=
  match fuel with
  | 0 => failure
  | fuel + 1 => do
    if ← skipIf .flowMappingEnd then return []
    else
      unless first do
        unless ← skipIf .flowEntry do failure
      if ← skipIf .key then
        let key ← if ← nothingBefore [.value, .flowEntry, .flowMappingEnd] then pure .nothing
          else node fuel false false
        let value ←
          if ← skipIf .value then
            if ← nothingBefore [.flowEntry, .flowMappingEnd] then pure .nothing
            else node fuel false false
          else pure .nothing
        return (key, value) :: (← flowEntries fuel false)
      else if ← skipIf .flowMappingEnd then return []
      else
        let key ← node fuel false false
        return (key, .nothing) :: (← flowEntries fuel false)

end

/-- The handles that every document knows. -/
def usualHandles : List (String × String) := [("!", "!"), ("!!", "tag:yaml.org,2002:")]

/-- The directives in front of a document: the handles that they give, and whether there was a
version. -/
def directives : List Token → Bool → List (String × String) →
    Option (List (String × String) × List Token)
  | .versionDirective major minor :: ts, versioned, handles =>
    if versioned || major != 1 || (minor != 1 && minor != 2) then none
    else directives ts true handles
  | .tagDirective handle target :: ts, versioned, handles =>
    if (handles.lookup handle).isSome then none
    else directives ts versioned (handles ++ [(handle, target)])
  | ts, _, handles => some (handles, ts)

/-- A document begins with this token only if it has directives or a mark of its own. -/
def isOpening : Token → Bool
  | .versionDirective .. | .tagDirective .. | .documentStart => true
  | _ => false

/-- The node of a document behind its mark. -/
def content (fuel : Nat) : Compose Node := do
  match ← peek with
  | none => return .nothing
  | some t => if isOpening t || t == .documentEnd then return .nothing else node fuel true false

/-- The one document that tokens make up. No tokens make up an empty one. -/
def document (tokens : List Token) : Option Document := do
  let first ← match tokens with
    | [] => some true
    | t :: _ => some (isOpening t)
  let (handles, rest) ← directives tokens false []
  let rest ← if first && !tokens.isEmpty then
      match rest with
      | .documentStart :: rest => some rest
      | _ => none
    else some rest
  let fuel := 2 * tokens.length + 4
  let start : Composer := ⟨rest, handles ++ usualHandles, [], 0, []⟩
  let (root, c) ←
    if tokens.isEmpty then some (.nothing, start)
    else if first then (content fuel).run start
    else (node fuel true false).run start
  guard (c.tokens.all (· == .documentEnd))
  some ⟨root, c.anchored⟩

end Compose

def document? (text : String) : Option Document := (tokens? text).bind Compose.document

end ImageBatch.Yaml
