import ImageBatch.Text.Blank
import ImageBatch.Time.Instant

/-!
# Time stamps

The text of an instant as RFC 3339 lays it down, in universal time. Reading is generous: it takes
blanks between the parts, short numbers and signed years, as long as every part is there.
-/

namespace ImageBatch

namespace Instant

/-- Date and time of day up to the seconds. -/
def stampHead (t : Instant) : String :=
  yearText t.date.year ++ "-" ++ padded 2 t.date.month ++ "-" ++ padded 2 t.date.day ++ "T" ++
    padded 2 t.hour ++ ":" ++ padded 2 t.minute ++ ":" ++ padded 2 t.second

def millisStamp (t : Instant) : String := t.stampHead ++ "." ++ padded 3 t.millis ++ "Z"

/-- The stamp with as many groups of three places as the instant needs. -/
def stamp (t : Instant) : String :=
  let n := t.subsecond
  t.stampHead ++
    (if n = 0 then ""
    else if n % 1000000 = 0 then "." ++ padded 3 (n / 1000000)
    else if n % 1000 = 0 then "." ++ padded 6 (n / 1000)
    else "." ++ padded 9 n) ++ "Z"

end Instant

namespace Stamp

open Text

/-- A number from the front: at least one digit, at most so many. -/
def number (most : Nat) (cs : List Char) : Option (Nat × List Char) :=
  let ds := (cs.take most).takeWhile Char.isDigit
  if ds.isEmpty then none
  else some (ds.foldl (fun n c => n * 10 + (c.toNat - 48)) 0, cs.drop ds.length)

/-- A number after blanks. -/
def field (most : Nat) (cs : List Char) : Option (Nat × List Char) := number most (trimStart cs)

/-- A year: four digits at most, or as many as there are behind a sign. -/
def year (cs : List Char) : Option (Int × List Char) :=
  match trimStart cs with
  | '-' :: cs => (number cs.length cs).map (fun r => (-r.1, r.2))
  | '+' :: cs => (number cs.length cs).map (fun r => (r.1, r.2))
  | cs => (number 4 cs).map (fun r => (r.1, r.2))

/-- One mark after blanks. -/
def mark (c : Char) (cs : List Char) : Option (List Char) :=
  match trimStart cs with
  | d :: cs => if d = c then some cs else none
  | [] => none

/-- What stands between date and time. -/
def dateEnd : List Char → Option (List Char)
  | [] => none
  | c :: cs => if c = 'T' ∨ c = 't' ∨ c = ' ' then some cs else none

/-- The fraction of a second in nanoseconds; places after the ninth are dropped. -/
def fraction : List Char → Option (Nat × List Char)
  | '.' :: cs => do
    let (n, rest) ← number 9 cs
    let places := cs.length - rest.length
    some (n * Nat.pow 10 (9 - places), rest.dropWhile Char.isDigit)
  | cs => some (0, cs)

def twoDigits : List Char → Option (Nat × List Char)
  | a :: b :: cs =>
    if a.isDigit ∧ b.isDigit then some ((a.toNat - 48) * 10 + (b.toNat - 48), cs) else none
  | _ => none

/-- The seconds by which local time runs ahead of universal time. -/
def offset (cs : List Char) : Option (Int × List Char) :=
  let signed (sign : Int) (cs : List Char) : Option (Int × List Char) := do
    let (hours, cs) ← twoDigits cs
    let (minutes, cs) ← twoDigits (cs.dropWhile (fun c => c == ':' || isBlank c))
    if minutes < 60 ∧ hours < 24 then some (sign * (hours * 3600 + minutes * 60 : Nat), cs)
    else none
  match trimStart cs with
  | 'Z' :: cs => some (0, cs)
  | 'z' :: cs => some (0, cs)
  | '+' :: cs => signed 1 cs
  | '-' :: cs => signed (-1) cs
  | '\u2212' :: cs => signed (-1) cs
  | u :: t :: c :: cs =>
    if u.toUpper = 'U' ∧ t.toUpper = 'T' ∧ c.toUpper = 'C' then some (0, cs) else none
  | _ => none

/-- The instant that a stamp names. Second 60 is a leap second. -/
def read (cs : List Char) : Option Instant := do
  let (year, cs) ← year cs
  let cs ← mark '-' cs
  let (month, cs) ← field 2 cs
  let cs ← mark '-' cs
  let (day, cs) ← field 2 cs
  let cs ← dateEnd cs
  let (hour, cs) ← field 2 cs
  let cs ← mark ':' cs
  let (minute, cs) ← field 2 cs
  let cs ← mark ':' cs
  let (second, cs) ← field 2 cs
  let (nanos, cs) ← fraction cs
  let (ahead, cs) ← offset cs
  guard ((trimStart cs).isEmpty ∧ hour < 24 ∧ minute < 60 ∧ second ≤ 60)
  let date ← Date.of? year month day
  let leap := if second = 60 then 1 else 0
  let clock : Nat := hour * 3600 + minute * 60 + (second - leap)
  let seconds := date.toDays * 86400 + clock - ahead
  let instant : Instant := ⟨seconds, nanos + leap * 1000000000⟩
  if Date.hasYear instant.date.year then some instant else none

end Stamp

end ImageBatch
