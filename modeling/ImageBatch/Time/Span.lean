import ImageBatch.Binary64.Basic

/-!
# Spans of time

A span is a count of nanoseconds. Clocks hold spans of fewer than two to the power 64 seconds. A
timer that is set for longer than thirty years goes off when these are over.
-/

namespace ImageBatch

structure Span where
  nanos : Nat
deriving Repr, DecidableEq

namespace Span

instance : Inhabited Span := ⟨⟨0⟩⟩

def ofMillis (n : Nat) : Span := ⟨n * 1000000⟩

def ofSeconds (n : Nat) : Span := ⟨n * 1000000000⟩

/-- A span of whole seconds and some nanoseconds, which may be more than a second. -/
def ofParts (seconds nanos : Nat) : Span := ⟨seconds * 1000000000 + nanos⟩

def seconds (s : Span) : Nat := s.nanos / 1000000000

/-- The nanoseconds after the last whole second. -/
def subsecond (s : Span) : Nat := s.nanos % 1000000000

def millis (s : Span) : Nat := s.nanos / 1000000

/-- The span fits a clock. -/
def Fits (s : Span) : Prop := s.seconds < Nat.pow 2 64

instance (s : Span) : Decidable s.Fits := inferInstanceAs (Decidable (_ < _))

/-- The span so many times over, if it still fits a clock. -/
def times? (s : Span) (k : Nat) : Option Span :=
  if (⟨s.nanos * k⟩ : Span).Fits then some ⟨s.nanos * k⟩ else none

/-- The longest time for which a timer can be set: thirty years of 365 days. -/
def longestSleep : Span := .ofSeconds (30 * 365 * 86400)

/-- How long somebody sleeps who sets a timer for the span. -/
def slept (s : Span) : Span := ⟨min s.nanos longestSleep.nanos⟩

/-- The span in seconds, as a floating point number: the seconds and their fraction are rounded
before they are added. -/
def inSeconds (s : Span) : Binary64 :=
  match Binary64.ofNat s.seconds, Binary64.ofNat s.subsecond / Binary64.ofNat 1000000000 with
  | .finite _ a, .finite _ b => .ofUnits false (a + b) 1
  | _, _ => .infinite false

/-- A whole part with a fraction of so many places, without the zeros at its end. -/
def withFraction (whole fraction places : Nat) : String :=
  let digits := Nat.toDigits 10 fraction
  let padded := List.replicate (places - digits.length) '0' ++ digits
  let kept := (padded.reverse.dropWhile (· == '0')).reverse
  toString whole ++ if kept.isEmpty then "" else "." ++ String.ofList kept

/-- The span in the largest unit that it reaches, exactly. -/
def text (s : Span) : String :=
  if 0 < s.seconds then withFraction s.seconds s.subsecond 9 ++ "s"
  else if 1000000 ≤ s.nanos then withFraction (s.nanos / 1000000) (s.nanos % 1000000) 6 ++ "ms"
  else if 1000 ≤ s.nanos then withFraction (s.nanos / 1000) (s.nanos % 1000) 3 ++ "µs"
  else withFraction s.nanos 0 0 ++ "ns"

end Span

end ImageBatch
