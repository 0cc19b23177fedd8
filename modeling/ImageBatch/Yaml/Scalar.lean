import ImageBatch.Json.Reader
import ImageBatch.Yaml.Character

/-!
# Scalars

The texts of YAML: plain, between quotes, or as a block of lines. A line break inside a plain or
quoted text becomes a blank, and empty lines become line breaks.
-/

namespace ImageBatch.Yaml

inductive Style where
  | plain
  | quoted
  | literal
  | folded
deriving DecidableEq, Repr

/-- Blanks and line breaks inside a text. -/
structure Gap where
  blanks : List Char
  broken : Bool
  /-- What the first line break means. -/
  leading : List Char
  /-- What the other line breaks mean. -/
  trailing : List Char

namespace Gap

def none : Gap := ⟨[], false, [], []⟩

/-- One blank more; blanks around line breaks do not count. -/
def addBlank (g : Gap) (c : Char) : Gap :=
  if g.broken then g else { g with blanks := g.blanks ++ [c] }

def addBreak (g : Gap) (b : List Char) : Gap :=
  if g.broken then { g with trailing := g.trailing ++ b }
  else { blanks := [], broken := true, leading := b, trailing := g.trailing }

/-- What line breaks stand for between two lines of text. -/
def fold (leading trailing : List Char) : List Char :=
  if leading.head? = some '\n' then if trailing.isEmpty then [' '] else trailing
  else leading ++ trailing

def text (g : Gap) : List Char := if g.broken then fold g.leading g.trailing else g.blanks

end Gap

/-- Passes over blanks and line breaks. After a line break no tab may stand before a column. -/
def gap (tabsFrom : Nat) : Nat → Gap → Cursor → Option (Gap × Cursor)
  | 0, g, c => some (g, c)
  | fuel + 1, g, c =>
    match c.rest with
    | [] => some (g, c)
    | x :: _ =>
      if isSpaceOrTab x then
        if g.broken && x == '\t' && decide (c.mark.column < tabsFrom) then none
        else gap tabsFrom fuel (g.addBlank x) (c.skip 1)
      else if isBreak x then
        let (b, c) := c.skipBreak
        gap tabsFrom fuel (g.addBreak b) c
      else some (g, c)

/-- The value of so many digits in base sixteen. -/
def hexValue : Nat → List Char → Nat → Option Nat
  | 0, _, n => some n
  | k + 1, c :: cs, n => (Json.hexDigit? c).bind (fun d => hexValue k cs (n * 16 + d))
  | _ + 1, [], _ => none

/-- The character of a code point, unless it is half of a surrogate pair or none at all. -/
def codePoint? (n : Nat) : Option Char :=
  if n < 0xD800 ∨ (0xDFFF < n ∧ n ≤ 0x10FFFF) then some (Char.ofNat n) else none

/-- What stands for what behind a backslash. -/
def escapes : List (Char × Char) :=
  [('0', '\x00'), ('a', '\x07'), ('b', '\x08'), ('t', '\t'), ('\t', '\t'), ('n', '\n'),
    ('v', '\x0b'), ('f', '\x0c'), ('r', '\r'), ('e', '\x1b'), (' ', ' '), ('"', '"'), ('/', '/'),
    ('\\', '\\'), ('N', '\u0085'), ('_', '\u00a0'), ('L', '\u2028'), ('P', '\u2029')]

/-- How many digits a numeric escape has. -/
def escapeWidth? : Char → Option Nat
  | 'x' => some 2
  | 'u' => some 4
  | 'U' => some 8
  | _ => none

/-- The character that an escape stands for, and how many characters it takes behind the
backslash. -/
def escape? : List Char → Option (Char × Nat)
  | [] => none
  | c :: rest =>
    match escapes.lookup c, escapeWidth? c with
    | some x, _ => some (x, 1)
    | none, some width => do
      let x ← codePoint? (← hexValue width rest 0)
      some (x, width + 1)
    | none, none => none

/-- The text up to the closing quote, gathered backwards, and what follows the quote. -/
def quotedBody (single : Bool) : Nat → List Char → Cursor → Option (List Char × Cursor)
  | 0, _, _ => none
  | fuel + 1, acc, c =>
    if c.atDocumentMark then none
    else
      match c.rest with
      | [] => none
      | x :: rest =>
        if isSpaceOrTab x || isBreak x then do
          let (g, c) ← gap 0 c.room Gap.none c
          quotedBody single fuel (g.text.reverse ++ acc) c
        else if single then
          match x, rest with
          | '\'', '\'' :: _ => quotedBody single fuel ('\'' :: acc) (c.skip 2)
          | '\'', _ => some (acc.reverse, c.skip 1)
          | _, _ => quotedBody single fuel (x :: acc) (c.skip 1)
        else if x = '"' then some (acc.reverse, c.skip 1)
        else if x = '\\' then
          if rest.head?.any isBreak then do
            let (_, c) := (c.skip 1).skipBreak
            let (g, c) ← gap 0 c.room ⟨[], true, [], []⟩ c
            quotedBody single fuel (g.text.reverse ++ acc) c
          else do
            let (y, n) ← escape? rest
            quotedBody single fuel (y :: acc) (c.skip (n + 1))
        else quotedBody single fuel (x :: acc) (c.skip 1)

/-- A text between quotes; the cursor stands at the opening one. -/
def quotedScalar (single : Bool) (c : Cursor) : Option (List Char × Cursor) :=
  quotedBody single (c.room + 1) [] (c.skip 1)

/-- The marks of lists and maps between brackets. -/
def isFlowMark (c : Char) : Bool := c == ',' || c == '[' || c == ']' || c == '{' || c == '}'

def plainEnds (inFlow : Bool) : List Char → Bool
  | [] => true
  | c :: rest =>
    isSpaceOrTab c || isBreak c || (c == ':' && atGap rest) || (inFlow && isFlowMark c)

/-- A colon between brackets must not touch their marks. -/
def badColon (inFlow : Bool) : List Char → Bool
  | ':' :: x :: _ => inFlow && (isFlowMark x || x == '?')
  | _ => false

/-- A word of a plain text, gathered backwards. -/
def plainWord (inFlow : Bool) : Nat → List Char → Cursor → Option (List Char × Cursor)
  | 0, acc, c => some (acc, c)
  | fuel + 1, acc, c =>
    if badColon inFlow c.rest then none
    else if plainEnds inFlow c.rest then some (acc, c)
    else
      match c.rest with
      | [] => some (acc, c)
      | x :: _ => plainWord inFlow fuel (x :: acc) (c.skip 1)

/-- Goes on with a plain text behind a gap; the text is gathered backwards. Tells also whether the
text was followed by a line break. -/
def plainBody (inFlow : Bool) (indent : Int) :
    Nat → List Char → Gap → Cursor → Option (List Char × Bool × Cursor)
  | 0, acc, g, c => some (acc.reverse, g.broken, c)
  | fuel + 1, acc, g, c =>
    if c.atDocumentMark || c.rest.head? == some '#' then some (acc.reverse, g.broken, c)
    else do
      let (word, d) ← plainWord inFlow (c.room + 1) [] c
      let (acc, g) := if word.isEmpty then (acc, g) else (word ++ g.text.reverse ++ acc, Gap.none)
      if atGap d.rest && !d.rest.isEmpty then
        let (g, d) ← gap (indent + 1).toNat (d.room + 1) g d
        if !inFlow && decide ((d.mark.column : Int) < indent + 1) then
          some (acc.reverse, g.broken, d)
        else plainBody inFlow indent fuel acc g d
      else some (acc.reverse, g.broken, d)

/-- A plain text, whether a line break follows it, and what follows both. -/
def plainScalar (inFlow : Bool) (indent : Int) (c : Cursor) :
    Option (List Char × Bool × Cursor) :=
  plainBody inFlow indent (c.room + 1) [] Gap.none c

/-- What becomes of the line breaks at the end of a block. -/
inductive Chomp where
  | strip
  | clip
  | keep
deriving DecidableEq, Repr

def chomp? : Char → Option Chomp
  | '+' => some .keep
  | '-' => some .strip
  | _ => none

/-- The head of a block: chomping, and by how much it is indented if that is said. -/
def blockHead (c : Cursor) : Option (Chomp × Nat × Cursor) :=
  let digit? (c : Cursor) : Option (Nat × Cursor) :=
    match c.rest with
    | d :: _ =>
      if d.isDigit then if d = '0' then none else some (d.toNat - 48, c.skip 1) else some (0, c)
    | [] => some (0, c)
  match c.rest.head?.bind chomp? with
  | some chomp => (digit? (c.skip 1)).map (fun r => (chomp, r.1, r.2))
  | none => do
    let (width, c) ← digit? c
    match (if width = 0 then none else c.rest.head?.bind chomp?) with
    | some chomp => some (chomp, width, c.skip 1)
    | none => some (.clip, width, c)

/-- Passes over empty lines and the indentation of the next line. An indentation of zero is not
known yet, and the widest one is told. -/
def blockBreaks (indent : Nat) :
    Nat → Nat → List Char → Cursor → Option (Nat × List Char × Cursor)
  | 0, widest, breaks, c => some (widest, breaks, c)
  | fuel + 1, widest, breaks, c =>
    let blanks := c.rest.takeWhile (· == ' ')
    let c := c.skip (if indent = 0 then blanks.length
      else min blanks.length (indent - c.mark.column))
    let widest := max widest c.mark.column
    if (indent == 0 || decide (c.mark.column < indent)) && c.rest.head? == some '\t' then none
    else if atLineEnd c.rest && !c.rest.isEmpty then
      let (b, c) := c.skipBreak
      blockBreaks indent fuel widest (breaks ++ b) c
    else some (widest, breaks, c)

/-- The line breaks before a line of a block, which is folded or not. -/
def beforeLine (literal blankBefore blankAfter : Bool) (leading trailing : List Char) : List Char :=
  if !literal && leading.head? == some '\n' && !blankBefore && !blankAfter then
    if trailing.isEmpty then [' '] else trailing
  else leading ++ trailing

/-- The lines of a block from the first on. -/
def blockLines (literal : Bool) (indent : Nat) : Nat → List Char → Bool → List Char → List Char →
    Cursor → Option (List Char × List Char × List Char × Cursor)
  | 0, acc, _, leading, trailing, c => some (acc, leading, trailing, c)
  | fuel + 1, acc, blankBefore, leading, trailing, c =>
    if c.mark.column = indent ∧ !c.rest.isEmpty then do
      let blank := c.rest.head?.any isSpaceOrTab
      let acc := acc ++ beforeLine literal blankBefore blank leading trailing
      let (line, c) := c.span (fun x => !isBreak x)
      let (leading, c) := c.skipBreak
      let (_, trailing, c) ← blockBreaks indent (c.room + 1) 0 [] c
      blockLines literal indent fuel (acc ++ line) blank leading trailing c
    else some (acc, leading, trailing, c)

/-- A block of lines; the cursor stands at its mark. -/
def blockScalar (literal : Bool) (outer : Int) (c : Cursor) : Option (List Char × Cursor) := do
  let (chomp, width, c) ← blockHead (c.skip 1)
  let c := c.skipBlanks.skipComment
  guard (atLineEnd c.rest)
  let (_, c) := c.skipBreak
  let said : Nat := if width = 0 then 0 else (max outer 0).toNat + width
  let (widest, breaks, c) ← blockBreaks said (c.room + 1) 0 [] c
  let indent := if said = 0 then max (max widest (outer + 1).toNat) 1 else said
  let (text, leading, trailing, c) ←
    blockLines literal indent (c.room + 1) [] false [] breaks c
  some (text ++ (if chomp = .strip then [] else leading) ++
    (if chomp = .keep then trailing else []), c)

end ImageBatch.Yaml
