import ImageBatch.Json.Basic

/-!
# Reading JSON

The reader takes exactly the texts that RFC 8259 allows. It works on what is left of the text, and
every step leaves less.
-/

namespace ImageBatch.Json

def isGap (c : Char) : Bool := c == ' ' || c == '\n' || c == '\r' || c == '\t'

def skipGaps (cs : List Char) : List Char := cs.dropWhile isGap

/-- The value of a digit in base sixteen. -/
def hexDigit? (c : Char) : Option Nat :=
  if c.isDigit then some (c.toNat - 48)
  else if 'a' ≤ c ∧ c ≤ 'f' then some (c.toNat - 87)
  else if 'A' ≤ c ∧ c ≤ 'F' then some (c.toNat - 55)
  else none

def unit? (a b c d : Char) : Option Nat := do
  let a ← hexDigit? a
  let b ← hexDigit? b
  let c ← hexDigit? c
  let d ← hexDigit? d
  some (((a * 16 + b) * 16 + c) * 16 + d)

/-- The character that a short escape stands for. -/
def short? : Char → Option Char
  | '"' => some '"'
  | '\\' => some '\\'
  | '/' => some '/'
  | 'b' => some '\x08'
  | 'f' => some '\x0c'
  | 'n' => some '\n'
  | 'r' => some '\r'
  | 't' => some '\t'
  | _ => none

/-- The code units up to the closing quote, and what follows it. -/
def units : List Char → Option (List Nat × List Char)
  | [] => none
  | '"' :: rest => some ([], rest)
  | '\\' :: 'u' :: a :: b :: c :: d :: rest => do
    let u ← unit? a b c d
    let (us, rest) ← units rest
    some (u :: us, rest)
  | '\\' :: c :: rest => do
    let c ← short? c
    let (us, rest) ← units rest
    some (c.toNat :: us, rest)
  | c :: rest =>
    if c.toNat < 0x20 ∨ c = '\\' then none
    else do
      let (us, rest) ← units rest
      some (c.toNat :: us, rest)

/-- Joins the surrogate pairs; a half without its other half has no text. -/
def joined? : List Nat → Option (List Char)
  | [] => some []
  | [u] => if 0xD800 ≤ u ∧ u ≤ 0xDFFF then none else some [Char.ofNat u]
  | u :: v :: us =>
    if 0xD800 ≤ u ∧ u ≤ 0xDFFF then
      if u ≤ 0xDBFF ∧ 0xDC00 ≤ v ∧ v ≤ 0xDFFF then
        (joined? us).map (Char.ofNat (0x10000 + (u - 0xD800) * 0x400 + (v - 0xDC00)) :: ·)
      else none
    else (joined? (v :: us)).map (Char.ofNat u :: ·)

/-- The text up to the closing quote, if its surrogates pair up. -/
def string? (cs : List Char) : Option (Option String × List Char) :=
  (units cs).map (fun r => ((joined? r.1).map String.ofList, r.2))

/-- The digits in front. -/
def digits (cs : List Char) : List Char × List Char := cs.span Char.isDigit

def valueOf (ds : List Char) : Nat := ds.foldl (fun n c => n * 10 + (c.toNat - 48)) 0

/-- The digits of an exponent with its sign. -/
def exponent? (cs : List Char) : Option (Int × List Char) :=
  let (sign, cs) : Int × List Char :=
    match cs with
    | '+' :: cs => (1, cs)
    | '-' :: cs => (-1, cs)
    | cs => (1, cs)
  let (ds, rest) := digits cs
  if ds.isEmpty then none else some (sign * valueOf ds, rest)

def unsigned? (negative : Bool) (cs : List Char) : Option (Numeral × List Char) := do
  let (whole, rest) := digits cs
  guard (!whole.isEmpty && (whole.length == 1 || whole.head? != some '0'))
  let (places, rest, pointed) ← match rest with
    | '.' :: more =>
      let (ds, more) := digits more
      if ds.isEmpty then none else some (ds, more, true)
    | rest => some ([], rest, false)
  let (e, rest, powered) ← match rest with
    | 'e' :: more => (exponent? more).map (fun r => (r.1, r.2, true))
    | 'E' :: more => (exponent? more).map (fun r => (r.1, r.2, true))
    | rest => some (0, rest, false)
  some (⟨negative, ⟨valueOf (whole ++ places), e - places.length⟩, !pointed && !powered⟩, rest)

def numeral? : List Char → Option (Numeral × List Char)
  | '-' :: cs => unsigned? true cs
  | cs => unsigned? false cs

mutual

/-- One value and what follows it. The first argument bounds the steps. -/
def readValue : Nat → List Char → Option (Json × List Char)
  | 0, _ => none
  | fuel + 1, cs =>
    match cs with
    | 'n' :: 'u' :: 'l' :: 'l' :: rest => some (null, rest)
    | 't' :: 'r' :: 'u' :: 'e' :: rest => some (bool true, rest)
    | 'f' :: 'a' :: 'l' :: 's' :: 'e' :: rest => some (bool false, rest)
    | '"' :: rest => (string? rest).map (fun r => (r.1.elim ill text, r.2))
    | '[' :: rest =>
      match skipGaps rest with
      | ']' :: rest => some (list [], rest)
      | rest => (readItems fuel rest).map (fun r => (list r.1, r.2))
    | '{' :: rest =>
      match skipGaps rest with
      | '}' :: rest => some (object [], rest)
      | rest => (readFields fuel rest).map (fun r => (object r.1, r.2))
    | cs => (numeral? cs).map (fun r => (number r.1, r.2))

/-- The items up to the closing bracket. -/
def readItems : Nat → List Char → Option (List Json × List Char)
  | 0, _ => none
  | fuel + 1, cs => do
    let (x, rest) ← readValue fuel cs
    match skipGaps rest with
    | ']' :: rest => some ([x], rest)
    | ',' :: rest =>
      let (xs, rest) ← readItems fuel (skipGaps rest)
      some (x :: xs, rest)
    | _ => none

/-- The fields up to the closing brace. -/
def readFields : Nat → List Char → Option (List (Option String × Json) × List Char)
  | 0, _ => none
  | fuel + 1, cs =>
    match cs with
    | '"' :: rest => do
      let (name, rest) ← string? rest
      match skipGaps rest with
      | ':' :: rest =>
        let (x, rest) ← readValue fuel (skipGaps rest)
        match skipGaps rest with
        | '}' :: rest => some ([(name, x)], rest)
        | ',' :: rest =>
          let (fs, rest) ← readFields fuel (skipGaps rest)
          some ((name, x) :: fs, rest)
        | _ => none
      | _ => none
    | _ => none

end

/-- The value that a whole text is. -/
def read? (s : String) : Option Json := do
  let cs := s.toList
  let (j, rest) ← readValue (2 * cs.length + 2) (skipGaps cs)
  if (skipGaps rest).isEmpty then some j else none

end ImageBatch.Json
