import ImageBatch.Text.Blank
import ImageBatch.Text.Letters

/-!
# Failure categories

A failure belongs to one of five categories, which decide whether another attempt is worth making
and how the failure is reported. A failure that is known by its text alone is put into the first
category one of whose phrases stands in the text, whatever its letter case.
-/

namespace ImageBatch

/-- What kind of thing went wrong, in the order of reports. -/
inductive Category where
  | network
  | auth
  | notFoundOrInvalid
  | resourceExhaustion
  | other
deriving DecidableEq, Repr, Inhabited

namespace Category

/-- Every category, in the order of reports. -/
def all : List Category := [network, auth, notFoundOrInvalid, resourceExhaustion, other]

/-- The place in the order of reports. -/
def rank : Category → Nat
  | network => 0
  | auth => 1
  | notFoundOrInvalid => 2
  | resourceExhaustion => 3
  | other => 4

theorem rank_injective {a b : Category} (h : a.rank = b.rank) : a = b := by
  cases a <;> cases b <;> first | rfl | simp [rank] at h

instance : Ord Category := ⟨fun a b => compare a.rank b.rank⟩

instance : Std.TransOrd Category where
  eq_swap {a b} :=
    (Std.OrientedCmp.eq_swap : compare a.rank b.rank = (compare b.rank a.rank).swap)
  isLE_trans {a b c} (h : (compare a.rank b.rank).isLE) (h' : (compare b.rank c.rank).isLE) :=
    (Std.TransCmp.isLE_trans h h' : (compare a.rank c.rank).isLE)

instance : Std.LawfulEqOrd Category where
  eq_of_compare h := rank_injective (Std.LawfulEqOrd.eq_of_compare h)

theorem mem_all (c : Category) : c ∈ all := by cases c <;> simp [all]

/-- The name in logs and reports. -/
def label : Category → String
  | network => "network"
  | auth => "auth"
  | notFoundOrInvalid => "not-found-or-invalid"
  | resourceExhaustion => "resource-exhaustion"
  | other => "other"

def ofLabel? (s : String) : Option Category := all.find? (fun c => c.label == s)

/-- Another attempt may succeed. -/
def isRetryable : Category → Bool
  | network | resourceExhaustion | other => true
  | auth | notFoundOrInvalid => false

/-- The category is called out in warnings. -/
def isCritical : Category → Bool
  | network | resourceExhaustion => true
  | auth | notFoundOrInvalid | other => false

/-- A name with any letter case and blanks around it. -/
def parse? (s : String) : Option Category :=
  let name := Text.lowered (Text.trimmed s)
  all.find? (fun c => c.label.toList == name)

/-- What is said of a name that no category has. -/
def unknown (s : String) : String := "Unknown error category: " ++ s

/-- The phrases that give a category away. -/
def phrases : Category → List String
  | network =>
    ["connection", "timeout", "timed out", "dns", "no such host", "dial", "unreachable"]
  | auth => ["unauthorized", "forbidden", "authentication", "login", "token", "credential"]
  | notFoundOrInvalid => ["not found", "does not exist", "invalid", "malformed"]
  | resourceExhaustion => ["no space", "disk full"]
  | other => []

/-- One of the category's phrases stands in a text of small letters. -/
def claims (text : List Char) (c : Category) : Bool :=
  c.phrases.any (fun p => Text.contains p.toList text)

/-- The first category one of whose phrases stands in the message. -/
def classify (message : String) : Category :=
  (all.find? (claims (Text.lowered message))).getD other

end Category

/-- A failed attempt: its category and what was said. -/
structure Failure where
  category : Category
  message : String
deriving DecidableEq, Repr, Inhabited

/-- A failure known by its message alone. -/
def Failure.ofMessage (message : String) : Failure := ⟨Category.classify message, message⟩

end ImageBatch
