import ImageBatch.Json.Basic

/-!
# Writing JSON

Two layouts: all on one line without blanks, and one item a line with two blanks of indent a level.
-/

namespace ImageBatch.Json

/-- How a character stands between the quotes. -/
def escaped (c : Char) : List Char :=
  match c with
  | '"' => ['\\', '"']
  | '\\' => ['\\', '\\']
  | '\x08' => ['\\', 'b']
  | '\x0c' => ['\\', 'f']
  | '\n' => ['\\', 'n']
  | '\r' => ['\\', 'r']
  | '\t' => ['\\', 't']
  | c =>
    if c.toNat < 0x20 then
      let ds := Text.hex c.toNat
      ['\\', 'u'] ++ List.replicate (4 - ds.length) '0' ++ ds
    else [c]

def quote (s : String) : List Char := '"' :: s.toList.flatMap escaped ++ ['"']

def numeral (n : Numeral) : List Char :=
  (if n.negative then ['-'] else []) ++
    (if n.whole then digitsOf n.decimal.digits else n.decimal.dataText)

/-- A layout: what stands before an item at a depth, and after the colon of a field. -/
structure Layout where
  item : Nat → List Char
  colon : List Char

def compact : Layout := ⟨fun _ => [], [':']⟩

def indented : Layout := ⟨fun depth => '\n' :: List.replicate (2 * depth) ' ', [':', ' ']⟩

mutual

/-- The text of a value that stands at a depth. -/
def layOut (layout : Layout) (depth : Nat) : Json → List Char
  | null => ['n', 'u', 'l', 'l']
  | bool b => if b then ['t', 'r', 'u', 'e'] else ['f', 'a', 'l', 's', 'e']
  | number n => numeral n
  | text s => quote s
  | ill => quote "\uFFFD"
  | list [] => ['[', ']']
  | list (x :: xs) =>
    '[' :: layout.item (depth + 1) ++ layOut layout (depth + 1) x ++
      layOutItems layout (depth + 1) xs ++ layout.item depth ++ [']']
  | object [] => ['{', '}']
  | object ((name, x) :: fs) =>
    '{' :: layout.item (depth + 1) ++ quote (name.getD "\uFFFD") ++ layout.colon ++
      layOut layout (depth + 1) x ++ layOutFields layout (depth + 1) fs ++
      layout.item depth ++ ['}']

def layOutItems (layout : Layout) (depth : Nat) : List Json → List Char
  | [] => []
  | x :: xs =>
    ',' :: layout.item depth ++ layOut layout depth x ++ layOutItems layout depth xs

def layOutFields (layout : Layout) (depth : Nat) : List (Option String × Json) → List Char
  | [] => []
  | (name, x) :: fs =>
    ',' :: layout.item depth ++ quote (name.getD "\uFFFD") ++ layout.colon ++
      layOut layout depth x ++ layOutFields layout depth fs

end

/-- The value on one line. -/
def write (j : Json) : String := String.ofList (layOut compact 0 j)

/-- The value with one item a line. -/
def pretty (j : Json) : String := String.ofList (layOut indented 0 j)

end ImageBatch.Json
