import ImageBatch.Binary64.Decimal
import ImageBatch.Text.Quoted

/-!
# JSON

The values of JSON as they were read, down to the spelling of numbers: fields keep their order and
may repeat, and a text with half of a surrogate pair is told apart from any other.
-/

namespace ImageBatch

/-- A number as it was written. It is whole if it has neither point nor exponent. -/
structure Numeral where
  negative : Bool
  decimal : Decimal
  whole : Bool
deriving Repr, DecidableEq

/-- A JSON value. A text or name that is `ill` holds half of a surrogate pair. -/
inductive Json where
  | null
  | bool (b : Bool)
  | number (n : Numeral)
  | text (s : String)
  | ill
  | list (items : List Json)
  | object (fields : List (Option String × Json))
deriving Repr, Inhabited

namespace Json

/-- The number that a count is written as. -/
def ofNat (n : Nat) : Json := number ⟨false, ⟨n, 0⟩, true⟩

def ofInt (i : Int) : Json := number ⟨decide (i < 0), ⟨i.natAbs, 0⟩, true⟩

/-- The fewest digits of a floating point number; only finite ones are numbers in JSON. -/
def ofBinary64 : Binary64 → Json
  | .finite s a => number ⟨s, if a = 0 then ⟨0, 0⟩ else Binary64.shortest .even a, false⟩
  | _ => null

def ofOption (o : Option String) : Json := o.elim null text

/-- An object of fields whose names are proper texts. -/
def record (fields : List (String × Json)) : Json := object (fields.map (fun f => (some f.1, f.2)))

def ofNames (names : List String) : Json := list (names.map text)

/-- The first field of a name. -/
def field? (name : String) : Json → Option Json
  | object fields => (fields.find? (fun f => f.1 == some name)).map (·.2)
  | _ => none

/-- The floating point number nearest to a number. -/
def binary64? : Json → Option Binary64
  | number n => some (Binary64.ofDecimal n.negative n.decimal)
  | _ => none

/-- A count: whole, without a sign, and below a bound. -/
def count? (bound : Nat) : Json → Option Nat
  | number n =>
    if n.whole ∧ ¬n.negative ∧ n.decimal.digits < bound then some n.decimal.digits else none
  | _ => none

def text? : Json → Option String
  | text s => some s
  | _ => none

mutual

/-- How many lists and objects stand inside one another. -/
def depth : Json → Nat
  | list items => itemsDepth items + 1
  | object fields => fieldsDepth fields + 1
  | _ => 0

def itemsDepth : List Json → Nat
  | [] => 0
  | x :: xs => max (depth x) (itemsDepth xs)

def fieldsDepth : List (Option String × Json) → Nat
  | [] => 0
  | (_, x) :: fs => max (depth x) (fieldsDepth fs)

end

mutual

/-- No text is ill and no number is beyond the floating point numbers. -/
def isSound : Json → Bool
  | ill => false
  | number n =>
    match Binary64.ofDecimal n.negative n.decimal with
    | .infinite _ => false
    | _ => true
  | list items => areSound items
  | object fields => fieldsSound fields
  | _ => true

def areSound : List Json → Bool
  | [] => true
  | x :: xs => isSound x && areSound xs

def fieldsSound : List (Option String × Json) → Bool
  | [] => true
  | (name, x) :: fs => name.isSome && isSound x && fieldsSound fs

end

end Json

end ImageBatch
