/-!
# Binary floating point with 64 bits

A finite number is a signed count of units, and the unit is the least positive number, two to the
power -1074. Counts that a number can hold have at most 53 significant bits; every other quotient
is rounded to the nearest one, and a tie goes to the even neighbour.
-/

namespace ImageBatch

/-- A floating point number of 64 bits. -/
inductive Binary64 where
  | nan
  | infinite (negative : Bool)
  | finite (negative : Bool) (units : Nat)
deriving Repr, DecidableEq

namespace Binary64

/-- The units in one. -/
def one : Nat := Nat.pow 2 1074

/-- The first count of units that is too large for a finite number. -/
def tooLarge : Nat := Nat.pow 2 2098

/-- The whole number nearest to a quotient; a tie goes to the even neighbour. -/
def halfEven (num den : Nat) : Nat :=
  let q := num / den
  let r := num % den
  if 2 * r < den then q
  else if den < 2 * r then q + 1
  else q + q % 2

/-- How many low bits of a count this large are always zero. -/
def spacing (units : Nat) : Nat := units.log2 - 52

/-- The count of units nearest to a quotient among those with 53 significant bits. -/
def roundedUnits (num den : Nat) : Nat :=
  let s := spacing (num / den)
  halfEven num (den * Nat.pow 2 s) * Nat.pow 2 s

/-- The number nearest to a quotient of units. -/
def ofUnits (negative : Bool) (num den : Nat) : Binary64 :=
  let units := roundedUnits num den
  if units < tooLarge then finite negative units else infinite negative

/-- The number nearest to a count. -/
def ofNat (n : Nat) : Binary64 := ofUnits false (n * one) 1

instance {n : Nat} : OfNat Binary64 n := ⟨ofNat n⟩

def div : Binary64 → Binary64 → Binary64
  | nan, _ => nan
  | _, nan => nan
  | infinite _, infinite _ => nan
  | infinite s, finite t _ => infinite (s != t)
  | finite s _, infinite t => finite (s != t) 0
  | finite s a, finite t b =>
    if b = 0 then if a = 0 then nan else infinite (s != t)
    else ofUnits (s != t) (a * one) b

instance : Div Binary64 := ⟨div⟩

/-- A number as parts of a hundred, rounded. -/
def percent : Binary64 → Binary64
  | nan => nan
  | infinite s => infinite s
  | finite s a => ofUnits s (a * 100) 1

/-- The place of a number on the line; not-a-number has none. -/
def place? : Binary64 → Option Int
  | nan => none
  | infinite s => some (if s then -(tooLarge : Int) else tooLarge)
  | finite s a => some (if s then -(a : Int) else a)

/-- One number is below another; never so beside not-a-number. -/
def lt (x y : Binary64) : Bool :=
  match x.place?, y.place? with
  | some a, some b => decide (a < b)
  | _, _ => false

/-- One number is at most another; never so beside not-a-number. -/
def le (x y : Binary64) : Bool :=
  match x.place?, y.place? with
  | some a, some b => decide (a ≤ b)
  | _, _ => false

/-- The sign, exponent and fraction in 64 bits. -/
def bits (x : Binary64) : Nat :=
  let sign (s : Bool) := if s then Nat.pow 2 63 else 0
  match x with
  | nan => 0x7FF8000000000000
  | infinite s => sign s + 0x7FF0000000000000
  | finite s a => sign s + (spacing a * Nat.pow 2 52 + a / Nat.pow 2 (spacing a))

end Binary64

end ImageBatch
