import ImageBatch.Binary64.Decimal
import ImageBatch.Text.Letters

/-!
# Numbers in texts

Numbers as users write them: counts with an optional plus sign, and decimals with an optional sign,
point and exponent.
-/

namespace ImageBatch

/-- Counts of things stay below this. -/
def countBound : Nat := Nat.pow 2 64

/-- Counts of attempts stay below this. -/
def attemptBound : Nat := Nat.pow 2 32

namespace Text

/-- The value of digits in base ten. -/
def digitsValue (ds : List Char) : Nat := ds.foldl (fun n c => n * 10 + (c.toNat - 48)) 0

/-- Digits alone, at least one. -/
def digits? (cs : List Char) : Option Nat :=
  if cs.isEmpty || !cs.all Char.isDigit then none else some (digitsValue cs)

/-- A count below a bound, maybe with a plus sign. -/
def count? (bound : Nat) (s : String) : Option Nat := do
  let n ← match s.toList with
    | '+' :: ds => digits? ds
    | ds => digits? ds
  if n < bound then some n else none

/-- The sign in front of a number. -/
def signOf : List Char → Bool × List Char
  | '-' :: cs => (true, cs)
  | '+' :: cs => (false, cs)
  | cs => (false, cs)

/-- The exponent at the end of a decimal, if there is any. -/
def exponent? : List Char → Option Int
  | [] => some 0
  | c :: cs =>
    if c = 'e' ∨ c = 'E' then
      let (negative, ds) := signOf cs
      (digits? ds).map (fun n => if negative then -(n : Int) else n)
    else none

/-- A decimal without a sign: digits before or behind a point, and maybe an exponent. -/
def decimal? (cs : List Char) : Option Decimal := do
  let (whole, rest) := cs.span Char.isDigit
  let (places, rest) := match rest with
    | '.' :: rest => rest.span Char.isDigit
    | rest => ([], rest)
  guard (!(whole.isEmpty && places.isEmpty))
  let e ← exponent? rest
  some ⟨digitsValue (whole ++ places), e - places.length⟩

/-- A floating point number: a decimal, an infinity, or none. -/
def binary64? (s : String) : Option Binary64 :=
  let (negative, cs) := signOf s.toList
  let word := String.ofList (cs.map Char.toLower)
  if word = "nan" then some .nan
  else if word = "inf" ∨ word = "infinity" then some (.infinite negative)
  else (decimal? cs).map (Binary64.ofDecimal negative)

end Text

end ImageBatch
