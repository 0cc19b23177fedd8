import ImageBatch.Binary64.Decimal
import ImageBatch.Statistics

/-!
# Verdicts

A finished run is judged by its success rate: it fails outright below a threshold or a floor, it is
a success if nothing went wrong, and otherwise it earns a warning of one of three tiers.
-/

namespace ImageBatch

inductive Tier where
  | excellent
  | minorWarning
  | significantWarning
deriving DecidableEq, Repr

namespace Tier

def all : List Tier := [excellent, minorWarning, significantWarning]

/-- The name in reports. -/
def words : Tier → String
  | excellent => "excellent"
  | minorWarning => "minor warning"
  | significantWarning => "significant warning"

/-- The name in data. -/
def label : Tier → String
  | excellent => "excellent"
  | minorWarning => "minor-warning"
  | significantWarning => "significant-warning"

def ofLabel? (s : String) : Option Tier := all.find? (fun t => t.label == s)

end Tier

/-- The rates at which tiers change. -/
structure Tiers where
  /-- Excellent from here on. -/
  excellent : Binary64
  /-- A minor warning above this. -/
  minorWarningAbove : Binary64
  /-- A failure below this, whatever the threshold. -/
  hardFloor : Binary64
deriving DecidableEq

def Tiers.standard : Tiers :=
  ⟨.ofDecimal false ⟨95, -2⟩, .ofDecimal false ⟨85, -2⟩, .ofDecimal false ⟨70, -2⟩⟩

inductive Verdict where
  | success
  | warning (rate : Binary64) (tier : Tier)
  | hardFailure (rate : Binary64)
deriving DecidableEq

/-- Everything but a success leaves an error log. -/
def Verdict.needsLog : Verdict → Bool
  | success => false
  | _ => true

structure Policy where
  threshold : Binary64
  tiers : Tiers
deriving DecidableEq

namespace Policy

def standard : Policy := ⟨.ofDecimal false ⟨80, -2⟩, .standard⟩

/-- The tier of a rate that is no failure. -/
def tier (p : Policy) (rate : Binary64) : Tier :=
  if p.tiers.excellent.le rate then .excellent
  else if p.tiers.minorWarningAbove.lt rate then .minorWarning
  else .significantWarning

/-- Judges a run by its statistics alone. -/
def judge (p : Policy) (s : Statistics) : Verdict :=
  if s.rate.lt p.threshold || s.rate.lt p.tiers.hardFloor then .hardFailure s.rate
  else if s.isClean then .success
  else .warning s.rate (p.tier s.rate)

end Policy

/-- The judgement together with the place of the error log, if one was written. -/
inductive Outcome where
  | success
  | warning (rate : Binary64) (tier : Tier) (log : Option String)
  | hardFailure (rate : Binary64) (log : Option String) (statistics : Statistics)
deriving DecidableEq

namespace Outcome

def ofVerdict (v : Verdict) (s : Statistics) (log : Option String) : Outcome :=
  match v with
  | .success => success
  | .warning rate tier => warning rate tier log
  | .hardFailure rate => hardFailure rate log s

def isHardFailure : Outcome → Bool
  | hardFailure .. => true
  | _ => false

def log? : Outcome → Option String
  | success => none
  | warning _ _ log => log
  | hardFailure _ log _ => log

def words : Outcome → String
  | success => "success"
  | warning .. => "success with warning"
  | hardFailure .. => "hard failure"

end Outcome

end ImageBatch
