import ImageBatch.Json.Reader
import ImageBatch.Sorted.Set
import ImageBatch.Text.Number
import ImageBatch.Yaml.Node

/-!
# Reading structures from YAML

What a scalar means depends on what is wanted: any scalar is a text, and only a plain one can be a
number, a truth value, or null. Where nothing is written there is an empty list, map or structure.
-/

namespace ImageBatch.Yaml

/-- Reading from a node of a given document. -/
abbrev Read (α : Type) := Document → Node → Option α

namespace Read

/-- A node without aliases at its root. -/
def resolved (d : Document) : Node → Option Node
  | .alias_ number => d.target? number
  | n => some n

/-- The tag of the general types of YAML. -/
def coreTag (name : String) : Option String := some ("tag:yaml.org,2002:" ++ name)

/-- The text of a scalar that may be a value of a general type: it is plain, or a literal block that
says so. -/
def bare? (type : String) : Node → Option String
  | .scalar _ .plain text => some text
  | .scalar tag .literal text => if tag = coreTag type then some text else none
  | _ => none

def text : Read String := fun d n => do
  match ← resolved d n with
  | .scalar _ _ text => some text
  | _ => none

def bool : Read Bool := fun d n => do
  let s ← bare? "bool" (← resolved d n)
  if s ∈ ["true", "True", "TRUE"] then some true
  else if s ∈ ["false", "False", "FALSE"] then some false
  else none

/-- The value of digits in a base. -/
def inBase (base : Nat) (digits : List Char) : Option Nat :=
  if digits.isEmpty then none
  else digits.foldlM (fun n c => do
    let d ← Json.hexDigit? c
    if d < base then some (n * base + d) else none) 0

/-- The bases that a number can name, by their letters. -/
def bases : List (Char × Nat) := [('x', 16), ('o', 8), ('b', 2)]

/-- A whole number: in base ten without leading zeros, or in a base that it names. -/
def wholeNumber? (cs : List Char) : Option Nat :=
  let unsigned := if cs.head? = some '+' then cs.drop 1 else cs
  match unsigned with
  | '0' :: letter :: rest => do inBase (← bases.lookup letter) rest
  | _ => inBase 10 unsigned

def count (bound : Nat) : Read Nat := fun d n => do
  let s ← bare? "int" (← resolved d n)
  let v ← wholeNumber? s.toList
  if v < bound then some v else none

/-- A floating point number. Infinities and not-a-number are words behind a point. -/
def binary64? (s : String) : Option Binary64 :=
  if s ∈ [".inf", ".Inf", ".INF", "+.inf", "+.Inf", "+.INF"] then some (.infinite false)
  else if s ∈ ["-.inf", "-.Inf", "-.INF"] then some (.infinite true)
  else if s ∈ [".nan", ".NaN", ".NAN"] then some .nan
  else if s.startsWith "++" || s.startsWith "+-" then none
  else
    match Text.binary64? s with
    | some (.finite negative units) => some (.finite negative units)
    | _ => none

def number : Read Binary64 := fun d n => do binary64? (← bare? "float" (← resolved d n))

def nulls : List String := ["null", "Null", "NULL", "~"]

/-- Null, or a value. A tag decides what a plain scalar is. -/
def nullable {α : Type} (read : Read α) : Read (Option α) := fun d n => do
  match ← resolved d n with
  | .scalar none .plain text =>
    if text.isEmpty || text ∈ nulls then some none
    else (read d (.scalar none .plain text)).map some
  | .scalar tag .plain text =>
    if tag = coreTag "null" then if text ∈ nulls then some none else none
    else (read d (.scalar tag .plain text)).map some
  | n => (read d n).map some

def isNothing : Node → Bool
  | .scalar _ .plain "" => true
  | _ => false

def items {α : Type} (read : Read α) : Read (List α) := fun d n => do
  match ← resolved d n with
  | .list _ xs => xs.mapM (read d)
  | n => if isNothing n then some [] else none

/-- The entries of a map; the keys are read like values. -/
def entries {κ α : Type} (key : Read κ) (read : Read α) : Read (List (κ × α)) := fun d n => do
  match ← resolved d n with
  | .map _ es => es.mapM fun e => do some (← key d e.1, ← read d e.2)
  | n => if isNothing n then some [] else none

/-- A list of texts as a set. -/
def names : Read NameSet := fun d n => (items text d n).map SortedSet.ofList

/-- A member of an enumeration: its label, or a tag that names it before nothing. -/
def choice {α : Type} (ofLabel? : String → Option α) : Read α := fun d n => do
  let own (tag : Option String) : Option String := do
    match (← tag).toList with
    | '!' :: name => some (String.ofList name)
    | _ => none
  match ← resolved d n with
  | .scalar tag style s =>
    match own tag with
    | none => ofLabel? s
    | some name => if style = .plain ∧ (s.isEmpty ∨ s ∈ nulls) then ofLabel? name else none
  | _ => none

/-- The values of the fields that a structure knows, by name. -/
abbrev Known := List (String × Node)

/-- Takes the known fields out of a map; each may come once. -/
def pick (d : Document) (known : List String) : List (Node × Node) → Known → Option Known
  | [], found => some found
  | (key, value) :: es, found => do
    let name ← text d key
    if name ∈ known then
      if found.any (fun f => f.1 == name) then none else pick d known es ((name, value) :: found)
    else pick d known es found

def known (names : List String) : Read Known := fun d n => do
  match ← resolved d n with
  | .map _ es => pick d names es []
  | n => if isNothing n then some [] else none

def required {α : Type} (d : Document) (k : Known) (name : String) (read : Read α) : Option α :=
  (k.lookup name).bind (read d)

/-- A field with a value to use when it is not there. -/
def withDefault {α : Type} (d : Document) (k : Known) (name : String) (default : α)
    (read : Read α) : Option α :=
  match k.lookup name with
  | some n => read d n
  | none => some default

/-- Reads the one document of a text. -/
def ofText? {α : Type} (read : Read α) (text : String) : Option α := do
  let d ← document? text
  read d d.root

end Read

end ImageBatch.Yaml
