/-!
# Letter case

Case is ignored only where a text is compared with words of plain ASCII letters. So a letter
needs its full Unicode counterpart only if that counterpart has ASCII letters in it; all other
letters are left alone, since they match no such word in either case.
-/

namespace ImageBatch.Text

/-- Lower case. Outside ASCII only the Kelvin sign and the dotted capital I have lower-case forms
with ASCII letters. -/
def lowerChar (c : Char) : List Char :=
  if c.toNat == 0x212A then ['k']
  else if c.toNat == 0x130 then ['i', '\u0307']
  else [c.toLower]

/-- Upper case. Outside ASCII the dotless i, the long s, the sharp s, the ligatures and some
letters with marks have upper-case forms with ASCII letters. -/
def upperChar (c : Char) : List Char :=
  match c.toNat with
  | 0x131 => ['I']
  | 0x17F => ['S']
  | 0xDF => ['S', 'S']
  | 0x149 => ['\u02BC', 'N']
  | 0x1F0 => ['J', '\u030C']
  | 0x1E96 => ['H', '\u0331']
  | 0x1E97 => ['T', '\u0308']
  | 0x1E98 => ['W', '\u030A']
  | 0x1E99 => ['Y', '\u030A']
  | 0x1E9A => ['A', '\u02BE']
  | 0xFB00 => ['F', 'F']
  | 0xFB01 => ['F', 'I']
  | 0xFB02 => ['F', 'L']
  | 0xFB03 => ['F', 'F', 'I']
  | 0xFB04 => ['F', 'F', 'L']
  | 0xFB05 => ['S', 'T']
  | 0xFB06 => ['S', 'T']
  | _ => [c.toUpper]

/-- The text in lower case, as far as ASCII letters can come of it. -/
def lowered (s : String) : List Char := s.toList.flatMap lowerChar

/-- The text in upper case, as far as ASCII letters can come of it. -/
def raised (s : String) : List Char := s.toList.flatMap upperChar

/-- The word stands somewhere in the text. -/
def contains (word : List Char) : List Char → Bool
  | [] => word.isEmpty
  | c :: cs => word.isPrefixOf (c :: cs) || contains word cs

/-- A word stands in a text exactly if it is an infix of it. -/
theorem contains_iff {word text : List Char} : contains word text = true ↔ word <:+: text := by
  induction text with
  | nil => cases word <;> simp [contains]
  | cons c cs ih => simp [contains, ih, List.infix_cons_iff, List.isPrefixOf_iff_prefix]

end ImageBatch.Text
