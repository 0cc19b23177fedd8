import ImageBatch.Text.Hidden

/-!
# Quoted text

A text between double quotes in which everything that does not show is written as an escape.
-/

namespace ImageBatch.Text

/-- The digits of a number in base sixteen, in small letters. -/
def hex (n : Nat) : List Char := Nat.toDigits 16 n

/-- How a character stands between the quotes. -/
def quotedChar (c : Char) : List Char :=
  match c with
  | '\x00' => ['\\', '0']
  | '\t' => ['\\', 't']
  | '\r' => ['\\', 'r']
  | '\n' => ['\\', 'n']
  | '"' => ['\\', '"']
  | '\\' => ['\\', '\\']
  | c => if isHidden c then ['\\', 'u', '{'] ++ hex c.toNat ++ ['}'] else [c]

def quoted (s : String) : String :=
  String.ofList ('"' :: s.toList.flatMap quotedChar ++ ['"'])

end ImageBatch.Text
