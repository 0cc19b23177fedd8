/-!
# Paint

Words on a terminal may be coloured. Whether they are is decided once for a whole output.
-/

namespace ImageBatch.Text

inductive Ink where
  | green
  | red
  | cyan
  | yellow
  | bold
  | dimmed
  | boldYellow
  | boldRed
deriving DecidableEq, Repr

/-- The code that turns an ink on. -/
def Ink.code : Ink → String
  | green => "32"
  | red => "31"
  | cyan => "36"
  | yellow => "33"
  | bold => "1"
  | dimmed => "2"
  | boldYellow => "1;33"
  | boldRed => "1;31"

def Ink.opening (ink : Ink) : String := "\x1b[" ++ ink.code ++ "m"

def inkOff : String := "\x1b[0m"

/-- The word in ink, or plain where the output has no colours. A word that turns inks off by itself
goes on in its ink. -/
def paint (colour : Bool) (ink : Ink) (word : String) : String :=
  if colour then ink.opening ++ word.replace inkOff (inkOff ++ ink.opening) ++ inkOff else word

/-- An environment and a terminal decide on colours: what forces them goes first, then what forbids
them, and else a terminal has them unless they are turned off. -/
def wantsColour (look : String → Option String) (terminal : Bool) : Bool :=
  if (look "CLICOLOR_FORCE").any (· != "0") then true
  else if (look "NO_COLOR").isSome then false
  else terminal && ((look "CLICOLOR").getD "1" != "0")

end ImageBatch.Text
