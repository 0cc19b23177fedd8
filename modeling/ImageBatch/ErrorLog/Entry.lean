import ImageBatch.Binary64.Decimal
import ImageBatch.Result
import ImageBatch.Statistics
import ImageBatch.Text.Lines
import ImageBatch.Time.Stamp

/-!
# Entries of an error log

An error log has one line for each record. The line names the origin, so that a later attempt can
find out from the log alone what is left to do.
-/

namespace ImageBatch.ErrorLog

open Text

/-- The word that opens the line of a failure or of a skip. -/
def verb : RecordKind → String
  | .failed => "error"
  | .skipped => "skipped"

/-- A message on one line: line ends become blanks. -/
def onOneLine (message : String) : String :=
  message.map (fun c => if c = '\r' ∨ c = '\n' then ' ' else c)

def entry (r : Record) : String :=
  verb r.kind ++ " mirroring image " ++ r.task.origin ++ " (category: " ++ r.category.label ++
    "): " ++ onOneLine r.message

/-- What stands between the verb and the origin. -/
def opening : List Char := " mirroring image ".toList

/-- What stands between the origin and the category. -/
def middle : List Char := " (category: ".toList

/-- What stands behind the category. -/
def closing : List Char := "):".toList

/-- What is left of a text after a word in front. -/
def after? (word cs : List Char) : Option (List Char) :=
  if word.isPrefixOf cs then some (cs.drop word.length) else none

def isCategoryChar (c : Char) : Bool := ('a' ≤ c && c ≤ 'z') || c == '-'

/-- The text starts with a category in brackets and a colon. -/
def startsWithCategory (cs : List Char) : Bool :=
  match after? middle cs with
  | none => false
  | some rest =>
    !(rest.takeWhile isCategoryChar).isEmpty &&
      closing.isPrefixOf (rest.dropWhile isCategoryChar)

/-- The shortest front of a text that a category follows. -/
def untilCategory? : List Char → Option (List Char)
  | [] => none
  | c :: cs =>
    if startsWithCategory (c :: cs) then some []
    else (untilCategory? cs).map (c :: ·)

/-- The origin is at least one character long. -/
def originOf? : List Char → Option (List Char)
  | [] => none
  | c :: cs => (untilCategory? cs).map (c :: ·)

/-- The origin that a line names, if it is an entry. -/
def lineOrigin? (line : List Char) : Option (List Char) :=
  match after? "error".toList line, after? "skipped".toList line with
  | some rest, _ => (after? opening rest).bind originOf?
  | none, some rest => (after? opening rest).bind originOf?
  | none, none => none

/-- A list without the later ones of equal members. -/
def firsts {α : Type} [DecidableEq α] (xs : List α) : List α :=
  (xs.foldl (fun seen x => if x ∈ seen then seen else x :: seen) []).reverse

/-- The origins that a log names, each once, in the order of the log. -/
def origins (content : String) : List String :=
  firsts ((lines content.toList).filterMap (fun l => (lineOrigin? l).map String.ofList))

/-- The lines in front of the entries. -/
def heading (runId : String) (written : Instant) (s : Statistics) : List String :=
  ["# mirrorbatch error log", "# run: " ++ runId, "# written: " ++ written.millisStamp,
    "# success rate: " ++ Binary64.fixed 2 s.rate.percent ++ "% (" ++ toString s.succeeded ++ "/" ++
      toString s.eligible ++ ")"]

/-- The content of a log. Every line ends in a line feed. -/
def content (runId : String) (written : Instant) (s : Statistics) (records : List Record) :
    String :=
  String.join ((heading runId written s ++ records.map entry).map (· ++ "\n"))

end ImageBatch.ErrorLog
