import ImageBatch.Binary64.Basic

/-!
# Decimal texts of floating point numbers

Reading rounds a decimal to the nearest number. Writing takes either a fixed count of places,
rounded with ties to even, or the fewest digits that read back.
-/

namespace ImageBatch

/-- A decimal: a whole number times a power of ten. -/
structure Decimal where
  digits : Nat
  exponent : Int
deriving Repr, DecidableEq

/-- The digits of a count in base ten. -/
def digitsOf (n : Nat) : List Char := Nat.toDigits 10 n

namespace Decimal

/-- The digits without zeros at the end, and where the point stands before them. -/
def significant (d : Decimal) : List Char × Int :=
  let ds := digitsOf d.digits
  ((ds.reverse.dropWhile (· == '0')).reverse, d.exponent + ds.length)

/-- Writes digits with the point at its place and no exponent; a whole number has no point. -/
def positional (ds : List Char) (point : Int) : List Char :=
  if point ≤ 0 then '0' :: '.' :: List.replicate (-point).toNat '0' ++ ds
  else
    let p := point.toNat
    if ds.length ≤ p then ds ++ List.replicate (p - ds.length) '0'
    else ds.take p ++ '.' :: ds.drop p

/-- A decimal as data files write it: a point or an exponent is always there, and the exponent only
below a hundred-thousandth or from ten to the sixteenth on. -/
def dataText (d : Decimal) : List Char :=
  if d.digits = 0 then ['0', '.', '0']
  else
    let (ds, point) := d.significant
    if -5 < point ∧ point ≤ 16 then
      positional ds point ++ (if (ds.length : Int) ≤ point then ['.', '0'] else [])
    else
      ds.take 1 ++ (if ds.length = 1 then [] else '.' :: ds.drop 1) ++
        'e' :: (toString (point - 1)).toList

end Decimal

namespace Binary64

/-- The number nearest to a decimal. Exponents that settle the answer alone are not computed. -/
def ofDecimal (negative : Bool) (d : Decimal) : Binary64 :=
  if d.digits = 0 then finite negative 0
  else
    let top := d.exponent + (Nat.toDigits 10 d.digits).length
    if 400 < top then infinite negative
    else if top < -400 then finite negative 0
    else if 0 ≤ d.exponent then ofUnits negative (d.digits * Nat.pow 10 d.exponent.toNat * one) 1
    else ofUnits negative (d.digits * one) (Nat.pow 10 (-d.exponent).toNat)

/-- Text with a fixed count of places after the point. -/
def fixed (places : Nat) : Binary64 → String
  | nan => "NaN"
  | infinite s => if s then "-inf" else "inf"
  | finite s a =>
    let n := halfEven (a * Nat.pow 10 places) one
    let whole := toString (n / Nat.pow 10 places)
    let rest := digitsOf (n % Nat.pow 10 places)
    let fraction := List.replicate (places - rest.length) '0' ++ rest
    (if s then "-" else "") ++ whole ++
      (if places = 0 then "" else "." ++ String.ofList fraction)

/-- Where a tie between two shortest decimals goes. -/
inductive Tie where
  | up
  | even
deriving Repr, DecidableEq

/-- The least power of ten above a positive count of units, as an exponent. -/
def magnitude (units : Nat) : Int :=
  let above (e : Int) : Bool :=
    if 0 ≤ e then units < Nat.pow 10 e.toNat * one else units * Nat.pow 10 (-e).toNat < one
  let exponents : List Int := (List.range 660).map (fun k : Nat => (k : Int) - 330)
  (exponents.find? above).getD 330

/-- The decimal with as many digits that lies nearest to a count of units and reads back. -/
def nearest? (tie : Tie) (units : Nat) (top : Int) (digits : Nat) : Option Decimal :=
  let e := top - digits
  let (num, den) := if 0 ≤ e then (units, Nat.pow 10 e.toNat * one)
    else (units * Nat.pow 10 (-e).toNat, one)
  let q := num / den
  let r := num % den
  let readsBack (n : Nat) : Bool := ofDecimal false ⟨n, e⟩ == finite false units
  let upper := den < 2 * r || (den == 2 * r && (tie == .up || q % 2 == 1))
  match readsBack q, readsBack (q + 1) with
  | true, true => some ⟨if upper then q + 1 else q, e⟩
  | true, false => some ⟨q, e⟩
  | false, true => some ⟨q + 1, e⟩
  | false, false => none

/-- The decimal with the fewest digits that reads back as a positive count of units. -/
def shortest (tie : Tie) (units : Nat) : Decimal :=
  let top := magnitude units
  ((List.range 17).findSome? (fun n => nearest? tie units top (n + 1))).getD ⟨0, 0⟩

/-- The fewest digits that read back, without an exponent. -/
def text : Binary64 → String
  | nan => "NaN"
  | infinite s => if s then "-inf" else "inf"
  | finite s a =>
    let sign := if s then "-" else ""
    if a = 0 then sign ++ "0"
    else
      let (ds, point) := (shortest .up a).significant
      sign ++ String.ofList (Decimal.positional ds point)

end Binary64

end ImageBatch
