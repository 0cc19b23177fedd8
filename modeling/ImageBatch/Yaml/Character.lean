/-!
# Characters of YAML

Classes of characters, the place of a character in a text, and line breaks.
-/

namespace ImageBatch.Yaml

/-- The characters that a text may hold. -/
def isAllowed (c : Char) : Bool :=
  let n := c.toNat
  n == 0x09 || n == 0x0A || n == 0x0D || (0x20 ≤ n && n ≤ 0x7E) || n == 0x85 ||
    (0xA0 ≤ n && n ≤ 0xFFFD) || 0x10000 ≤ n

def isSpaceOrTab (c : Char) : Bool := c == ' ' || c == '\t'

def isBreak (c : Char) : Bool :=
  c == '\n' || c == '\r' || c == '\u0085' || c == '\u2028' || c == '\u2029'

/-- The text ends, or a blank or a line break comes. -/
def atGap : List Char → Bool
  | [] => true
  | c :: _ => isSpaceOrTab c || isBreak c

def atLineEnd : List Char → Bool
  | [] => true
  | c :: _ => isBreak c

/-- The characters of the names of anchors, tags and directives. -/
def isWordChar (c : Char) : Bool := c.isAlphanum || c == '_' || c == '-'

/-- Where in a text a character stands. -/
structure Mark where
  index : Nat
  line : Nat
  column : Nat
deriving DecidableEq, Repr

def Mark.start : Mark := ⟨0, 0, 0⟩

/-- Behind so many characters of the same line. -/
def Mark.skip (m : Mark) (n : Nat) : Mark := { m with index := m.index + n, column := m.column + n }

/-- At the start of the next line, behind a break of so many characters. -/
def Mark.nextLine (m : Mark) (n : Nat) : Mark := ⟨m.index + n, m.line + 1, 0⟩

/-- What is left of a text, and where it starts. -/
structure Cursor where
  mark : Mark
  rest : List Char
  /-- At least as many as there are characters left. -/
  room : Nat

namespace Cursor

def start (text : List Char) : Cursor := ⟨.start, text, text.length⟩

def skip (c : Cursor) (n : Nat) : Cursor := ⟨c.mark.skip n, c.rest.drop n, c.room - n⟩

/-- What a line break means in the text of a scalar. -/
def breakChar (c : Char) : Char := if c == '\u2028' || c == '\u2029' then c else '\n'

/-- Behind a line break, with what it means; a carriage return and a line feed are one break. -/
def skipBreak (c : Cursor) : List Char × Cursor :=
  match c.rest with
  | '\r' :: '\n' :: rest => (['\n'], ⟨c.mark.nextLine 2, rest, c.room - 2⟩)
  | b :: rest =>
    if isBreak b then ([breakChar b], ⟨c.mark.nextLine 1, rest, c.room - 1⟩) else ([], c)
  | [] => ([], c)

/-- Behind the characters of a class on the same line, with these characters. -/
def span (c : Cursor) (p : Char → Bool) : List Char × Cursor :=
  let taken := c.rest.takeWhile p
  (taken, c.skip taken.length)

def skipBlanks (c : Cursor) : Cursor := (c.span isSpaceOrTab).2

/-- Behind everything up to the end of the line. -/
def skipLineText (c : Cursor) : Cursor := (c.span (fun x => !isBreak x)).2

/-- A comment, if there is one, is passed over. -/
def skipComment (c : Cursor) : Cursor :=
  match c.rest with
  | '#' :: _ => c.skipLineText
  | _ => c

/-- Three dashes or three points at the start of a line, which mark documents. -/
def atDocumentMark (c : Cursor) : Bool :=
  c.mark.column == 0 &&
    match c.rest with
    | '-' :: '-' :: '-' :: rest => atGap rest
    | '.' :: '.' :: '.' :: rest => atGap rest
    | _ => false

end Cursor

end ImageBatch.Yaml
