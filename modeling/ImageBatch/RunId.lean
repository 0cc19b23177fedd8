import ImageBatch.Text.Number
import ImageBatch.Time.Instant

/-!
# Names of runs

A run is named by 128 bits: the time in milliseconds, and random bits so that no two runs share a
name. Six bits tell the form, and the name is written in five groups of hexadecimal digits.
-/

namespace ImageBatch.RunId

def byteDigits (b : Nat) : List Char :=
  let ds := Nat.toDigits 16 b
  List.replicate (2 - ds.length) '0' ++ ds

/-- So many bytes of a number, the last one least. -/
def bytesOf : Nat → Nat → List Nat
  | 0, _ => []
  | k + 1, n => bytesOf k (n / 256) ++ [n % 256]

/-- Sets the bits that tell the form in the bytes at the two places for them. -/
def marked (bytes : List Nat) : List Nat :=
  (bytes.modify 6 (fun b => 0x70 + b % 16)).modify 8 (fun b => 0x80 + b % 64)

/-- The digits of bytes in groups of 8, 4, 4, 4 and 12. -/
def grouped (bytes : List Nat) : String :=
  let ds := bytes.flatMap byteDigits
  let group (start length : Nat) := String.ofList ((ds.drop start).take length)
  "-".intercalate [group 0 8, group 8 4, group 12 4, group 16 4, group 20 12]

/-- The name of a run that starts at a time, with ten random bytes. -/
def ofTime (t : Instant) (random : List Nat) : String :=
  let millis := t.seconds.toNat * 1000 + t.nanos / 1000000
  grouped (marked (bytesOf 6 millis ++ random.take 10))

end ImageBatch.RunId
