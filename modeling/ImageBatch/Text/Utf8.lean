/-!
# Decoding UTF-8

Bytes become characters either strictly, or with a replacement character for each longest start of
a character that breaks off or goes wrong.
-/

namespace ImageBatch.Text

/-- Stands in decoded text for bytes that are no character. -/
def replacement : Char := '\uFFFD'

/-- The bytes that may follow a lead byte: the range of the next one and how many come after it. -/
def continuation? (lead : Nat) : Option (Nat × Nat × Nat) :=
  if 0xC2 ≤ lead ∧ lead ≤ 0xDF then some (0x80, 0xBF, 0)
  else if lead = 0xE0 then some (0xA0, 0xBF, 1)
  else if lead = 0xED then some (0x80, 0x9F, 1)
  else if 0xE1 ≤ lead ∧ lead ≤ 0xEF then some (0x80, 0xBF, 1)
  else if lead = 0xF0 then some (0x90, 0xBF, 2)
  else if 0xF1 ≤ lead ∧ lead ≤ 0xF3 then some (0x80, 0xBF, 2)
  else if lead = 0xF4 then some (0x80, 0x8F, 2)
  else none

/-- The bits that a lead byte gives to its character. -/
def leadBits (lead : Nat) : Nat :=
  if lead < 0xE0 then lead - 0xC0 else if lead < 0xF0 then lead - 0xE0 else lead - 0xF0

/-- A decoder between two bytes: at the start of a character, or inside one. -/
inductive Utf8State where
  | start
  | inside (low high more code : Nat)

/-- Decodes bytes; each longest broken start of a character gives one replacement character. -/
def decodeFrom : Utf8State → List UInt8 → List Char
  | .start, [] => []
  | .inside .., [] => [replacement]
  | .start, b :: bs =>
    if b.toNat < 0x80 then Char.ofNat b.toNat :: decodeFrom .start bs
    else match continuation? b.toNat with
      | some (low, high, more) => decodeFrom (.inside low high more (leadBits b.toNat)) bs
      | none => replacement :: decodeFrom .start bs
  | .inside low high more code, b :: bs =>
    if low ≤ b.toNat ∧ b.toNat ≤ high then
      let code := code * 64 + (b.toNat - 0x80)
      if more = 0 then Char.ofNat code :: decodeFrom .start bs
      else decodeFrom (.inside 0x80 0xBF (more - 1) code) bs
    else if b.toNat < 0x80 then
      replacement :: Char.ofNat b.toNat :: decodeFrom .start bs
    else match continuation? b.toNat with
      | some (low, high, more) =>
        replacement :: decodeFrom (.inside low high more (leadBits b.toNat)) bs
      | none => replacement :: replacement :: decodeFrom .start bs

/-- Decodes bytes and puts replacement characters where they are no text. -/
def decodeLoosely (bytes : List UInt8) : List Char := decodeFrom .start bytes

def decode? (bytes : ByteArray) : Option String := String.fromUTF8? bytes

def byteLength (cs : List Char) : Nat := cs.foldr (fun c n => c.utf8Size + n) 0

/-- As many whole characters from the front as fit into so many bytes. -/
def takeBytes : Nat → List Char → List Char
  | _, [] => []
  | room, c :: cs => if c.utf8Size ≤ room then c :: takeBytes (room - c.utf8Size) cs else []

end ImageBatch.Text
