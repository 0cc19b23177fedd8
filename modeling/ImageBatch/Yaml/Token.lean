import ImageBatch.Yaml.Scalar

/-!
# Tokens of YAML

The lexer cuts a text into tokens and makes the structure that indentation gives explicit. A key is
known only by the colon behind it, so the places where a key may have begun are remembered, and the
tokens that open it are put in afterwards.
-/

namespace ImageBatch.Yaml

/-- A tag as it is written: its handle and what follows it. -/
structure WrittenTag where
  handle : String
  suffix : String
deriving DecidableEq, Repr

inductive Token where
  | versionDirective (major minor : Nat)
  | tagDirective (handle target : String)
  | documentStart
  | documentEnd
  | blockSequenceStart
  | blockMappingStart
  | blockEnd
  | flowSequenceStart
  | flowSequenceEnd
  | flowMappingStart
  | flowMappingEnd
  | blockEntry
  | flowEntry
  | key
  | value
  | alias_ (name : String)
  | anchor (name : String)
  | tag (t : WrittenTag)
  | scalar (style : Style) (text : String)
deriving DecidableEq, Repr

/-- A place where a key may have begun. -/
structure SimpleKey where
  possible : Bool
  /-- What begins here has to be a key. -/
  required : Bool
  /-- How many tokens came before it. -/
  token : Nat
  mark : Mark

def SimpleKey.none : SimpleKey := ⟨false, false, 0, .start⟩

/-- The state of the lexer between two tokens. -/
structure Lexer where
  cursor : Cursor
  tokens : Array Token
  /-- The column of the innermost block, or -1 outside of all blocks. -/
  indent : Int
  /-- The columns of the blocks around it. -/
  outer : List Int
  keyAllowed : Bool
  /-- The key that may have begun at this level of brackets. -/
  key : SimpleKey
  /-- Those of the levels around it. -/
  outerKeys : List SimpleKey

namespace Lexer

def start (text : List Char) : Lexer :=
  ⟨.start text, #[], -1, [], true, .none, []⟩

def inFlow (x : Lexer) : Bool := !x.outerKeys.isEmpty

def push (x : Lexer) (t : Token) : Lexer := { x with tokens := x.tokens.push t }

/-- The longest key, in characters. -/
def keyBound : Nat := 1024

/-- Passes over blanks, comments and line breaks. A new line allows a key outside of brackets. -/
def skipGaps : Nat → Lexer → Lexer
  | 0, x => x
  | fuel + 1, x =>
    let tabs := x.inFlow || !x.keyAllowed
    let c := if x.cursor.mark.index = 0 ∧ x.cursor.rest.head? = some '\uFEFF'
      then x.cursor.skip 1 else x.cursor
    let c := (c.span (fun y => y == ' ' || (tabs && y == '\t'))).2
    let c := c.skipComment
    if atLineEnd c.rest && !c.rest.isEmpty then
      skipGaps fuel { x with cursor := c.skipBreak.2, keyAllowed := x.keyAllowed || !x.inFlow }
    else { x with cursor := c }

/-- A key ends on the line on which it begins, and soon. -/
def stale (m : Mark) (k : SimpleKey) : Option SimpleKey :=
  if k.possible &&
      (decide (k.mark.line < m.line) || decide (k.mark.index + keyBound < m.index)) then
    if k.required then none else some { k with possible := false }
  else some k

def dropStale (x : Lexer) : Option Lexer := do
  let key ← stale x.cursor.mark x.key
  let outerKeys ← x.outerKeys.mapM (stale x.cursor.mark)
  some { x with key := key, outerKeys := outerKeys }

/-- Closes the blocks that are further in than a column. -/
def unroll (x : Lexer) (column : Int) : Lexer :=
  if x.inFlow then x else go x.outer x
where
  go : List Int → Lexer → Lexer
    | [], x => x
    | o :: os, x =>
      if column < x.indent then go os { x.push .blockEnd with indent := o, outer := os } else x

/-- Opens a block at a column if it is further in; the token goes to its place. -/
def roll (x : Lexer) (column place : Nat) (t : Token) : Lexer :=
  if !x.inFlow && decide (x.indent < column) then
    { x with
      indent := column
      outer := x.indent :: x.outer
      tokens := x.tokens.insertIdxIfInBounds place t }
  else x

/-- No key has begun here after all. -/
def dropKey (x : Lexer) : Option Lexer :=
  if x.key.possible && x.key.required then none
  else some { x with key := { x.key with possible := false } }

def saveKey (x : Lexer) : Option Lexer :=
  if x.keyAllowed then do
    let required := !x.inFlow && decide (x.indent = x.cursor.mark.column)
    let x ← x.dropKey
    some { x with key := ⟨true, required, x.tokens.size, x.cursor.mark⟩ }
  else some x

/-- Takes a token of so many characters. -/
def take (x : Lexer) (n : Nat) (t : Token) : Lexer :=
  { x.push t with cursor := x.cursor.skip n }

def endBlocks (x : Lexer) : Option Lexer := do
  let x ← (x.unroll (-1)).dropKey
  some { x with keyAllowed := false }

/-- A list or map between brackets begins. -/
def openFlow (x : Lexer) (t : Token) : Option Lexer := do
  let x ← x.saveKey
  some { x.take 1 t with outerKeys := x.key :: x.outerKeys, key := .none, keyAllowed := true }

/-- A list or map between brackets ends. -/
def closeFlow (x : Lexer) (t : Token) : Option Lexer := do
  let x ← x.dropKey
  let (key, outer) := match x.outerKeys with
    | k :: ks => (k, ks)
    | [] => (x.key, [])
  some { x.take 1 t with key := key, outerKeys := outer, keyAllowed := false }

def flowEntry (x : Lexer) : Option Lexer := do
  let x ← x.dropKey
  some { x.take 1 .flowEntry with keyAllowed := true }

/-- Opens a block for a mark that stands for itself. -/
def rollHere (x : Lexer) (t : Token) : Option Lexer :=
  if x.inFlow then some x
  else if x.keyAllowed then some (x.roll x.cursor.mark.column x.tokens.size t)
  else none

def blockEntry (x : Lexer) : Option Lexer := do
  let x ← (← x.rollHere .blockSequenceStart).dropKey
  some { x.take 1 .blockEntry with keyAllowed := true }

def explicitKey (x : Lexer) : Option Lexer := do
  let x ← (← x.rollHere .blockMappingStart).dropKey
  some { x.take 1 .key with keyAllowed := !x.inFlow }

/-- A colon: what may have been a key is one. -/
def valueMark (x : Lexer) : Option Lexer :=
  if x.key.possible then
    let k := x.key
    let x := { x with tokens := x.tokens.insertIdxIfInBounds k.token .key }
    let x := x.roll k.mark.column k.token .blockMappingStart
    some { x.take 1 .value with key := { k with possible := false }, keyAllowed := false }
  else do
    let x ← x.rollHere .blockMappingStart
    some { x.take 1 .value with keyAllowed := !x.inFlow }

/-- What may follow the name of an anchor. -/
def endsName : List Char → Bool
  | [] => true
  | c :: _ =>
    isSpaceOrTab c || isBreak c || c == '?' || c == ':' || c == ',' || c == ']' || c == '}' ||
      c == '%' || c == '@' || c == '\x60'

/-- The name of an anchor or of an alias. -/
def anchorName (c : Cursor) : Option (String × Cursor) :=
  let (name, d) := (c.skip 1).span isWordChar
  if name.isEmpty || !endsName d.rest then none else some (String.ofList name, d)

def anchor (x : Lexer) (make : String → Token) : Option Lexer := do
  let x ← x.saveKey
  let (name, c) ← anchorName x.cursor
  some { x.push (make name) with cursor := c, keyAllowed := false }

/-- The characters of a tag; some only stand between angle brackets. -/
def isTagChar (verbatim : Bool) (c : Char) : Bool :=
  isWordChar c ||
    c ∈ [';', '/', '?', ':', '@', '&', '=', '+', '$', '.', '!', '~', '*', '\'', '(', ')'] ||
    (verbatim && (c == ',' || c == '[' || c == ']'))

/-- The byte that a percent sign and two digits stand for. -/
def percentByte? : List Char → Option (UInt8 × List Char)
  | '%' :: a :: b :: rest => do
    let h ← Json.hexDigit? a
    let l ← Json.hexDigit? b
    some (UInt8.ofNat (h * 16 + l), rest)
  | _ => none

/-- The character that bytes after percent signs stand for, and how many characters they take. -/
def percentChar? (cs : List Char) : Option (Char × Nat) := do
  let (b, rest) ← percentByte? cs
  let width ← if b < 0x80 then some 1 else if b &&& 0xE0 == 0xC0 then some 2
    else if b &&& 0xF0 == 0xE0 then some 3 else if b &&& 0xF8 == 0xF0 then some 4 else none
  let rec more : Nat → List Char → Option (List UInt8)
    | 0, _ => some []
    | k + 1, cs => do
      let (b, rest) ← percentByte? cs
      some (b :: (← more k rest))
  let bytes ← more (width - 1) rest
  let s ← String.fromUTF8? ⟨(b :: bytes).toArray⟩
  some (← s.toList.head?, 3 * width)

/-- The characters of a tag, gathered backwards. -/
def tagText (verbatim : Bool) : Nat → List Char → Cursor → Option (List Char × Cursor)
  | 0, acc, c => some (acc, c)
  | fuel + 1, acc, c =>
    match c.rest with
    | '%' :: _ => do
      let (x, n) ← percentChar? c.rest
      tagText verbatim fuel (x :: acc) (c.skip n)
    | x :: _ =>
      if isTagChar verbatim x then tagText verbatim fuel (x :: acc) (c.skip 1) else some (acc, c)
    | [] => some (acc, c)

/-- The characters of a tag behind those that belong to it already; together there is one at
least. -/
def tagSuffix (verbatim : Bool) (front : Option (List Char)) (c : Cursor) :
    Option (String × Cursor) := do
  let (acc, c) ← tagText verbatim (c.room + 1) [] c
  let front' := front.getD []
  if acc.isEmpty && front'.isEmpty then none
  else some (String.ofList (front'.drop 1 ++ acc.reverse), c)

/-- A handle: an exclamation mark, a name, and maybe another exclamation mark. -/
def tagHandle (directive : Bool) (c : Cursor) : Option (List Char × Cursor) :=
  match c.rest with
  | '!' :: _ =>
    let (name, d) := (c.skip 1).span isWordChar
    match d.rest with
    | '!' :: _ => some ('!' :: name ++ ['!'], d.skip 1)
    | _ => if directive && !name.isEmpty then none else some ('!' :: name, d)
  | _ => none

/-- A tag; the cursor stands at its exclamation mark. -/
def writtenTag (c : Cursor) : Option (WrittenTag × Cursor) :=
  match c.rest with
  | '!' :: '<' :: _ => do
    let (suffix, c) ← tagSuffix true none (c.skip 2)
    match c.rest with
    | '>' :: _ => some (⟨"", suffix⟩, c.skip 1)
    | _ => none
  | _ => do
    let (handle, c) ← tagHandle false c
    if 1 < handle.length ∧ handle.getLast? = some '!' then
      let (suffix, c) ← tagSuffix false none c
      some (⟨String.ofList handle, suffix⟩, c)
    else
      let (suffix, c) ← tagSuffix false (some handle) c
      some (if suffix.isEmpty then ⟨"", "!"⟩ else ⟨"!", suffix⟩, c)

def tag (x : Lexer) : Option Lexer := do
  let x ← x.saveKey
  let (t, c) ← writtenTag x.cursor
  guard (atGap c.rest || (x.inFlow && c.rest.head? == some ','))
  some { x.push (.tag t) with cursor := c, keyAllowed := false }

/-- A number of a version: at most nine digits. -/
def versionNumber (c : Cursor) : Option (Nat × Cursor) :=
  let (ds, c) := c.span Char.isDigit
  if ds.isEmpty || decide (9 < ds.length) then none else some (Json.valueOf ds, c)

def directiveBody (name : String) (c : Cursor) : Option (Token × Cursor) :=
  if name = "YAML" then do
    let (major, c) ← versionNumber c.skipBlanks
    guard (c.rest.head? == some '.')
    let (minor, c) ← versionNumber (c.skip 1)
    some (.versionDirective major minor, c)
  else if name = "TAG" then do
    let (handle, c) ← tagHandle true c.skipBlanks
    guard (c.rest.head?.any isSpaceOrTab)
    let (target, c) ← tagSuffix true none c.skipBlanks
    guard (atGap c.rest)
    some (.tagDirective (String.ofList handle) target, c)
  else none

def directive (x : Lexer) : Option Lexer := do
  let x ← x.endBlocks
  let (name, c) := (x.cursor.skip 1).span isWordChar
  guard (!name.isEmpty && atGap c.rest)
  let (t, c) ← directiveBody (String.ofList name) c
  let c := c.skipBlanks.skipComment
  guard (atLineEnd c.rest)
  some { x.push t with cursor := c.skipBreak.2 }

def block (x : Lexer) (style : Style) : Option Lexer := do
  let x ← x.dropKey
  let (text, c) ← blockScalar (style == .literal) x.indent x.cursor
  some { x.push (.scalar style (String.ofList text)) with cursor := c, keyAllowed := true }

def quoted (x : Lexer) (single : Bool) : Option Lexer := do
  let x ← x.saveKey
  let (text, c) ← quotedScalar single x.cursor
  some { x.push (.scalar .quoted (String.ofList text)) with cursor := c, keyAllowed := false }

def plain (x : Lexer) : Option Lexer := do
  let x ← x.saveKey
  let (text, broken, c) ← plainScalar x.inFlow x.indent x.cursor
  some { x.push (.scalar .plain (String.ofList text)) with cursor := c, keyAllowed := broken }

/-- A plain scalar may begin with these characters. -/
def startsPlain (inFlow : Bool) : List Char → Bool
  | [] => false
  | c :: rest =>
    if c = '-' then !rest.head?.any isSpaceOrTab
    else if c = '?' ∨ c = ':' then !inFlow && !atGap rest
    else !(isSpaceOrTab c || isBreak c || isFlowMark c ||
      c ∈ ['#', '&', '*', '!', '|', '>', '\'', '"', '%', '@', '\x60'])

/-- The next token, which is neither at a gap nor at the end. -/
def token (x : Lexer) : Option Lexer :=
  let c := x.cursor
  if c.mark.column = 0 ∧ c.rest.head? = some '%' then x.directive
  else if c.atDocumentMark then do
    let t := if c.rest.head? = some '-' then Token.documentStart else .documentEnd
    some ((← x.endBlocks).take 3 t)
  else
    match c.rest with
    | [] => none
    | h :: rest =>
      let stands := x.inFlow || atGap rest
      if h = '[' then x.openFlow .flowSequenceStart
      else if h = '\x7b' then x.openFlow .flowMappingStart
      else if h = ']' then x.closeFlow .flowSequenceEnd
      else if h = '\x7d' then x.closeFlow .flowMappingEnd
      else if h = ',' then x.flowEntry
      else if h = '-' ∧ atGap rest then x.blockEntry
      else if h = '?' ∧ stands then x.explicitKey
      else if h = ':' ∧ stands then x.valueMark
      else if h = '*' then x.anchor .alias_
      else if h = '&' then x.anchor .anchor
      else if h = '!' then x.tag
      else if h = '|' ∧ !x.inFlow then x.block .literal
      else if h = '>' ∧ !x.inFlow then x.block .folded
      else if h = '\'' then x.quoted true
      else if h = '"' then x.quoted false
      else if startsPlain x.inFlow c.rest then x.plain
      else none

def run : Nat → Lexer → Option (Array Token)
  | 0, _ => none
  | fuel + 1, x => do
    let x ← (skipGaps (x.cursor.room + 1) x).dropStale
    let x := x.unroll x.cursor.mark.column
    if x.cursor.rest.isEmpty then
      let x ← x.endBlocks
      some x.tokens
    else run fuel (← x.token)

end Lexer

def tokens? (text : String) : Option (List Token) :=
  let cs := text.toList
  if cs.all isAllowed then ((Lexer.start cs).run (2 * cs.length + 4)).map Array.toList else none

end ImageBatch.Yaml
