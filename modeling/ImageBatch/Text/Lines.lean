/-!
# Lines

A line ends at a line feed, and one carriage return before the line feed belongs to the line end.
What follows the last line feed is a line too, unless it is empty.
-/

namespace ImageBatch.Text

/-- Cuts after every line feed and keeps the line feeds. -/
def pieces : List Char → List (List Char)
  | [] => []
  | c :: cs =>
    if c = '\n' then [c] :: pieces cs
    else match pieces cs with
      | [] => [[c]]
      | p :: ps => (c :: p) :: ps

/-- Drops the line end: a line feed and one carriage return before it. -/
def chomp (line : List Char) : List Char :=
  match line.reverse with
  | '\n' :: '\r' :: rest => rest.reverse
  | '\n' :: rest => rest.reverse
  | _ => line

/-- The lines of a text without their line ends. -/
def lines (cs : List Char) : List (List Char) := (pieces cs).map chomp

/-- Joins lines with line feeds between them. -/
def unlines (ls : List String) : String := "\n".intercalate ls

end ImageBatch.Text
